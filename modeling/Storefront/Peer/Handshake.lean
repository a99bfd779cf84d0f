import Storefront.Frame.Reader
import Storefront.Frame.Writer
import Storefront.Peer.Error
import Storefront.Store.Registry

/-! # The handshake

A client opens a connection by naming the service it wants and the version records it speaks.  The
server installs these records and accepts, or refuses a record that this build cannot use.  The
client never learns the records of the server; it goes on with its own.

Either way the answer is sent under records that the client is sure to know: its own when it is
accepted, those of this build when it is refused.  An answer whose result is not among what these
records exchange counts as accepted.
-/

namespace Storefront

namespace Service

/-- The family of a service. -/
def family : Service → Family
  | auth => .auth
  | main => .main

/-- The message that opens a connection for a service. -/
def initRequest : Service → MessageType
  | auth => .auth .initRequest
  | main => .main .initRequest

/-- The service that a message opens a connection for. -/
def ofInitRequest? : MessageType → Option Service
  | .auth .initRequest => some auth
  | .main .initRequest => some main
  | _ => none

end Service

/-- What a side of a handshake is told beforehand. -/
structure HandshakeConfig where
  /-- How long to wait, in milliseconds.  No time passes here: `receiveInit` asks only whether this is
  0, and the arithmetic of the deadline and of the time that is left is not modelled. -/
  timeout : Nat := 5000
  /-- The most octets of the first message. -/
  maxPayload : Nat := 16 * 1024
  /-- What this side calls the other one. -/
  peerId : String := "peer"
  /-- What a client opens the connection for. -/
  service : Service := .main
  deriving DecidableEq, Repr

/-- What both sides have come to. -/
structure Handshake where
  peerId : String
  service : Service
  context : Context
  deriving DecidableEq, Repr

/-- The two directions of a connection. -/
structure Link where
  reader : FrameReader
  writer : FrameWriter
  deriving Repr

/-- What one side does on a link.  A failure leaves the link as it was when it occurred. -/
abbrev Exchange := EStateM PeerError Link

namespace Exchange

/-- Sends a frame. -/
def send (frame : Frame) : Exchange Unit := fun link =>
  match link.writer.send frame with
  | (.ok (), writer) => .ok () { link with writer }
  | (.error e, writer) => .error (.wire e) { link with writer }

/-- Receives the next frame that carries a message. -/
def receive (patient : IoFault → Bool) (during : Phase) : Exchange Frame := fun link =>
  match link.reader.nextFrame patient with
  | (.ok frame, reader) => .ok frame { link with reader }
  | (.error e, reader) => .error (.ofRead during e) { link with reader }

/-- The outcome of writing or reading a message. -/
def ofSchema {α : Type} : Except SchemaError α → Exchange α
  | .ok a => pure a
  | .error e => throw (.schema e)

end Exchange

namespace Handshake

/-- The most octets of a name given to a peer. -/
def maxPeerIdSize : Nat := 128

/-- The request id of the message that opens a connection. -/
def initRequestId : UInt64 := 1

/-- Refuses a name that is empty or too long. -/
def checkPeerId (peerId : String) : Exchange Unit :=
  if peerId.utf8ByteSize = 0 ∨ maxPeerIdSize < peerId.utf8ByteSize then
    throw (.handshakeFailed (.peerIdSize peerId.utf8ByteSize))
  else pure ()

/-- The failures of a read that are waited out until there is no time left. -/
def waitsOut : IoFault → Bool
  | .wouldBlock | .timedOut => true
  | _ => false

/-- Receives the first message of the other side. -/
def receiveInit (config : HandshakeConfig) : Exchange Frame := do
  if config.timeout = 0 then throw .timeout
  let frame ← Exchange.receive waitsOut .handshake
  if config.maxPayload < frame.payload.length then
    throw (.handshakeFailed (.initTooLarge frame.payload.length config.maxPayload))
  pure frame

/-- The records a client goes on with. -/
def clientContext : Service → Context
  | .auth => (Context.empty.set (VersionRecord.ofLocal .core)).set (VersionRecord.ofLocal .auth)
  | .main => (Context.empty.set (VersionRecord.ofLocal .core)).set (VersionRecord.ofLocal .main)

/-- What a client makes of an answer.  Only a result that was set and is no success is a refusal. -/
def verdict (key : MessageKey) (answer : Message) : Except PeerError Unit :=
  if answer.type = .core .initResponse then
    let status : Status := ⟨(answer.fields[0]?.getD default).toNumber⟩
    if status.isSet && !status.isOk then .error (.rejected status.condition) else .ok ()
  else .error (.unexpected "InitResponse" answer.type.name key)

/-- The handshake of a client. -/
def connect (registry : Registry) (config : HandshakeConfig) : Exchange Handshake := do
  checkPeerId config.peerId
  let context := clientContext config.service
  let (key, body) ←
    Exchange.ofSchema (registry.encode (.new config.service.initRequest) .empty)
  Exchange.send ⟨key, initRequestId, body⟩
  let frame ← receiveInit config
  -- The answer is read under the client's own records: the server has taken them over.
  let answer ← Exchange.ofSchema (registry.decodeFrame frame context)
  match verdict frame.key answer with
  | .error e => throw e
  | .ok () => pure ⟨config.peerId, config.service, context⟩

/-- The records of a client: what its first message says about its service and the core family. -/
def clientRecords (service : Service) (init : Message) :
    VersionRecord service.family × VersionRecord .core :=
  (.ofValue (init.fields[0]?.getD default), .ofValue (init.fields[1]?.getD default))

/-- Sends an answer to the first message of a client. -/
def reply (registry : Registry) (context : Context) (init : Message) (status : Status)
    (text : String) : Exchange Unit := do
  let answer := { Message.new (.core .initResponse) with envelope := init.envelope }
  let (key, body) ←
    Exchange.ofSchema (registry.encode (answer.withStatus status text) context)
  Exchange.send ⟨key, init.envelope.requestId, body⟩

/-- What a server does about the first message of a client. -/
def answer (registry : Registry) (config : HandshakeConfig) (service : Service) (init : Message) :
    Exchange Handshake := do
  let (own, core) := clientRecords service init
  if own.isSupported && core.isSupported then
    -- From here on both records are those of the client, and the answer is written under them.
    let context := (Context.empty.set own).set core
    reply registry context init .ok ""
    pure ⟨config.peerId, service, context⟩
  else
    -- A client of any revision can read the answer under the core record of this build.
    let context := Context.empty.set (VersionRecord.ofLocal .core)
    reply registry context init ⟨ErrorCode.version.code⟩ (unsupportedText service)
    throw (.handshakeFailed (.unsupportedVersion service))

/-- The handshake of a server. -/
def accept (registry : Registry) (config : HandshakeConfig) : Exchange Handshake := do
  checkPeerId config.peerId
  let frame ← receiveInit config
  -- The opening message brings its records with it and needs none.
  let init ← Exchange.ofSchema (registry.decodeFrame frame .empty)
  match Service.ofInitRequest? init.type with
  | some service => answer registry config service init
  | none => throw (.unexpected "InitRequest" init.type.name frame.key)

end Handshake

end Storefront
