import Storefront.Schema.Body
import Storefront.Schema.Inspect
import Storefront.Store.Family.Core
import Storefront.Store.Family.Main
import Storefront.Store.Status

/-! # Messages

A message is a record with an envelope.  Its body carries the fields of the record; the envelope
travels in the header of a frame.
-/

namespace Storefront

/-- The types of messages, by family. -/
inductive MessageType where
  | core (message : CoreMessage)
  | auth (message : AuthMessage)
  | main (message : MainMessage)
  deriving DecidableEq, Repr

namespace MessageType

/-- The family a message belongs to. -/
def family : MessageType → Family
  | core _ => .core
  | auth _ => .auth
  | main _ => .main

/-- The type of a message's fields. -/
def recordType : MessageType → RecordType
  | core m => m.recordType
  | auth m => m.recordType
  | main m => m.recordType

/-- The name of a message. -/
def name (t : MessageType) : String := t.recordType.name

/-- The type of the answer to a request. -/
def response? : MessageType → Option MessageType
  | core .authRequest => some (core .authResponse)
  | auth .initRequest | main .initRequest => some (core .initResponse)
  | auth .fetchRequest => some (auth .fetchResponse)
  | auth .captchaRequest => some (auth .captchaResponse)
  | auth .createRequest | auth .validateRequest | auth .amendRequest | auth .resetRequest
  | auth .deleteRequest => some (core .response)
  | main .listOSesRequest => some (main .listOSesResponse)
  | main .listAppsRequest => some (main .listAppsResponse)
  | main .listStoreRequest => some (main .listStoreResponse)
  | main .fetchStoreRequest => some (main .fetchStoreResponse)
  | main .fetchAppRequest | main .changeAppItemStateRequest => some (main .fetchAppResponse)
  | main .fetchBuildRequest => some (main .fetchBuildResponse)
  | main .fetchBuildConfigurationRequest => some (main .fetchBuildConfigurationResponse)
  | main .fetchBuildUpdatesRequest => some (main .fetchBuildUpdatesResponse)
  | main .createAppRequest | main .createBuildRequest | main .createMediaRequest
  | main .uploadRequest => some (core .response)
  | _ => none

end MessageType

/-- The address of a message. -/
structure Envelope where
  /-- Ties an answer to its request; zero when unused. -/
  requestId : UInt64 := 0
  /-- Whom the message came from, as the receiver calls them. -/
  sender : String := ""
  deriving DecidableEq, Repr

/-- A message. -/
structure Message where
  type : MessageType
  envelope : Envelope
  fields : List Value

/-- The format version of every message. -/
def formatVersion : Nat := 1

namespace Message

/-- A new message. -/
def new (type : MessageType) : Message := ⟨type, {}, type.recordType.initials⟩

/-- The answer to a message, with the same envelope. -/
def respond? (request : Message) : Option Message :=
  request.type.response?.map fun type => { new type with envelope := request.envelope }

/-- True when two messages are the same. -/
def same (a b : Message) : Bool :=
  a.type == b.type && a.envelope == b.envelope && Value.sameAll a.fields b.fields

/-- The message with its first two fields set to a result and a text. -/
def withStatus (m : Message) (status : Status) (text : String) : Message :=
  { m with fields := (m.fields.set 0 (.number status.code)).set 1 (.text text) }

/-- Writes the body of a message. -/
def encode (ctx : Context) (m : Message) : Encoded Message :=
  (m.type.recordType.encodeMessage formatVersion ctx m.fields).map fun fields => { m with fields }

/-- Reads a body into a message.  After a failure the message holds what was read before it. -/
def decodeInto (ctx : Context) (body : Bytes) (m : Message) :
    Message × Except SchemaError Unit :=
  let x := m.type.recordType.decodeMessage ctx body m.fields
  ({ m with fields := x.1 }, x.2)

/-- Reads a body as a message of the given type. -/
def decode (ctx : Context) (type : MessageType) (body : Bytes) : Except SchemaError Message :=
  match decodeInto ctx body (new type) with
  | (m, .ok ()) => .ok m
  | (_, .error e) => .error e

/-- The fields that would be written for a message. -/
def inspect (ctx : Context) (m : Message) : List FieldInfo :=
  m.type.recordType.inspect ctx m.fields

end Message

end Storefront
