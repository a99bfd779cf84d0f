import Storefront.Schema.Error
import Storefront.Store.Status

/-! # Failures between peers -/

namespace Storefront

/-- What a client opens a connection for. -/
inductive Service where
  | auth
  | main
  deriving DecidableEq, Repr

/-- The name of a service: that of its family. -/
def Service.name : Service → String
  | auth => "auth"
  | main => "main"

/-- Why one side gives up a handshake on its own. -/
inductive HandshakeFault where
  /-- The name given to the peer has too few or too many octets. -/
  | peerIdSize (size : Nat)
  /-- The first frame carries more than a handshake may. -/
  | initTooLarge (size max : Nat)
  /-- The client speaks no version that this build can use. -/
  | unsupportedVersion (service : Service)
  deriving DecidableEq, Repr

/-- The wording of a refused version. -/
def unsupportedText (service : Service) : String :=
  s!"unsupported {service.name} protocol version"

/-- The wording of a fault. -/
def HandshakeFault.message : HandshakeFault → String
  | peerIdSize size => s!"invalid peer_id length: {size}"
  | initTooLarge size max => s!"init payload too large: {size} (max {max})"
  | unsupportedVersion service => unsupportedText service

/-- What a connection was waiting for. -/
inductive Phase where
  | handshake
  | receive
  deriving DecidableEq, Repr

/-- The name of a phase. -/
def Phase.name : Phase → String
  | handshake => "handshake"
  | receive => "receive"

/-- What can go wrong between peers. -/
inductive PeerError where
  /-- A frame could not be sent or received. -/
  | wire (error : WireError)
  /-- A message could not be written or read. -/
  | schema (error : SchemaError)
  /-- This side gave up the handshake. -/
  | handshakeFailed (fault : HandshakeFault)
  /-- The other side refused the connection. -/
  | rejected (condition : Condition)
  /-- The stream ended while this side was waiting. -/
  | disconnected (during : Phase)
  /-- A message of another type than the one called for. -/
  | unexpected (expected found : String) (key : MessageKey)
  /-- An answer was waited for longer than there was room for other messages. -/
  | bufferFull (pending : Nat)
  /-- A limit of no time at all ran out. -/
  | timeout
  deriving DecidableEq, Repr

namespace PeerError

/-- The wording of a failure. -/
def message : PeerError → String
  | wire error => s!"frame error: {error.message}"
  | schema error => s!"schema error: {error.message}"
  | handshakeFailed fault => s!"handshake failed: {fault.message}"
  | rejected condition => s!"rejected by peer: {condition.text}"
  | disconnected during => s!"peer disconnected: connection closed during {during.name}"
  | unexpected expected found key => s!"expected {expected}, got {found} ({key.text})"
  | bufferFull pending => s!"pending message buffer full ({pending} messages)"
  | timeout => "timed out after 0ns"

/-- A short name for what went wrong, the same for all failures of one kind. -/
def label : PeerError → String
  | wire error => s!"Wire/{error.label}"
  | schema error => s!"Schema/{error.label}"
  | handshakeFailed _ => "HandshakeFailed"
  | rejected _ => "Rejected"
  | disconnected _ => "Disconnected"
  | unexpected .. => "Unexpected"
  | bufferFull _ => "BufferFull"
  | timeout => "Timeout"

/-- What a failed read means to a peer: the end of the stream is a departure. -/
def ofRead (during : Phase) : WireError → PeerError
  | .connectionClosed => .disconnected during
  | e => .wire e

end PeerError

end Storefront
