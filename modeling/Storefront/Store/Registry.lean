import Storefront.Frame.Basic
import Storefront.Store.Message

/-! # The registry

The registry ties message types to keys, one to one, and finds either by the other.  It grows only: a
key that is taken stays with its type, a type that is registered stays with its key, and the key of
keepalives is never given away.  Whole families are added at once, each under a number that no other
family has.

A frame is read by the type that its key is registered for; a message is written under the key of
its type.  Neither may be larger than the registry allows.
-/

namespace Storefront

/-- A message type under its key. -/
structure Registration where
  key : MessageKey
  type : MessageType
  deriving DecidableEq, Repr

/-- A numbered group of messages. -/
structure ProtocolFamily where
  id : UInt8
  name : String
  /-- The messages with their numbers. -/
  table : List (UInt16 × MessageType)

namespace ProtocolFamily

/-- The built-in family of the given kind. -/
def of : Family → ProtocolFamily
  | .core => ⟨Family.core.id, Family.core.name,
    [(1, .core .initResponse), (2, .core .authRequest), (3, .core .authResponse),
      (4, .core .response)]⟩
  | .auth => ⟨Family.auth.id, Family.auth.name,
    [(1, .auth .initRequest), (2, .auth .createRequest), (3, .auth .validateRequest),
      (4, .auth .amendRequest), (5, .auth .fetchRequest), (6, .auth .fetchResponse),
      (7, .auth .resetRequest), (8, .auth .captchaRequest), (9, .auth .captchaResponse),
      (10, .auth .deleteRequest)]⟩
  | .main => ⟨Family.main.id, Family.main.name,
    [(1, .main .initRequest), (2, .main .listOSesRequest), (3, .main .listOSesResponse),
      (4, .main .listAppsRequest), (5, .main .listAppsResponse), (6, .main .listStoreRequest),
      (7, .main .listStoreResponse), (8, .main .fetchStoreRequest),
      (9, .main .fetchStoreResponse), (10, .main .createBuildRequest),
      (11, .main .createMediaRequest), (12, .main .uploadRequest), (13, .main .fetchAppRequest),
      (14, .main .fetchAppResponse), (15, .main .changeAppItemStateRequest),
      (16, .main .fetchBuildRequest), (17, .main .fetchBuildResponse),
      (18, .main .fetchBuildConfigurationRequest),
      (19, .main .fetchBuildConfigurationResponse), (20, .main .fetchBuildUpdatesRequest),
      (21, .main .fetchBuildUpdatesResponse), (22, .main .createAppRequest)]⟩

end ProtocolFamily

/-- Message types with their keys, and the families that have been added. -/
structure Registry where
  /-- The registrations by key, the latest one first. -/
  entries : List Registration
  /-- The keys by type, the latest one first. -/
  types : List (MessageType × MessageKey)
  /-- The families by number, in ascending order. -/
  families : List (UInt8 × String)
  /-- The most octets of a message body. -/
  maxMessageSize : Nat

namespace Registry

/-- A registry without messages. -/
def empty (maxMessageSize : Nat) : Registry := ⟨[], [], [], maxMessageSize⟩

/-- The registration under a key. -/
def lookup? (r : Registry) (key : MessageKey) : Option Registration :=
  r.entries.find? (·.key == key)

/-- The key that a type has. -/
def lookupType? (r : Registry) (type : MessageType) : Option MessageKey := r.types.lookup type

/-- Registers a type under a key. -/
def register (r : Registry) (key : MessageKey) (type : MessageType) :
    Except SchemaError Registry :=
  if key.isNull then .error .nullMessage
  else
    match r.lookup? key with
    | some existing => .error (.duplicateRegistration key existing.type.name)
    -- Only a free key brings up the question whether the type has one already.
    | none =>
      match r.lookupType? type with
      | some _ => .error (.typeAlreadyRegistered type.name)
      | none =>
        .ok { r with entries := ⟨key, type⟩ :: r.entries, types := (type, key) :: r.types }

/-- Registers the messages of a family one after the other, up to the first that fails. -/
def registerAll (id : UInt8) : List (UInt16 × MessageType) → Registry →
    Registry × Except SchemaError Unit
  | [], r => (r, .ok ())
  | (number, type) :: rest, r =>
    match r.register ⟨id, number⟩ type with
    | .ok r => registerAll id rest r
    | .error e => (r, .error e)

/-- Puts a family among others in order of their numbers. -/
def insertFamily (id : UInt8) (name : String) : List (UInt8 × String) → List (UInt8 × String)
  | [] => [(id, name)]
  | (other, otherName) :: rest =>
    if id ≤ other then (id, name) :: (other, otherName) :: rest
    else (other, otherName) :: insertFamily id name rest

/-- Adds a family.  When one of its messages cannot be registered those before it stay, but the
family does not count as added. -/
def configure (r : Registry) (family : ProtocolFamily) : Registry × Except SchemaError Unit :=
  match r.families.lookup family.id with
  | some existing => (r, .error (.familyTaken family.name family.id existing))
  | none =>
    match registerAll family.id family.table r with
    | (r, .ok ()) =>
      ({ r with families := insertFamily family.id family.name r.families }, .ok ())
    | (r, .error e) => (r, .error e)

/-- Adds families one after the other, up to the first that fails. -/
def configureAll : List ProtocolFamily → Registry → Registry × Except SchemaError Unit
  | [], r => (r, .ok ())
  | family :: rest, r =>
    match r.configure family with
    | (r, .ok ()) => configureAll rest r
    | (r, .error e) => (r, .error e)

/-- The registry of the three built-in families. -/
def full (maxMessageSize : Nat) : Registry :=
  (configureAll (Family.all.map ProtocolFamily.of) (empty maxMessageSize)).1

/-- The built-in registry with the usual limit. -/
def standard : Registry := full Frame.defaultMaxPayload

/-- The registration under a key, or why there is none. -/
def registration (r : Registry) (key : MessageKey) : Except SchemaError Registration :=
  if key.isNull then .error .nullMessage
  else
    match r.lookup? key with
    | some entry => .ok entry
    | none => .error (.unknownMessage key)

/-- The message type that a key stands for. -/
def resolve (r : Registry) (key : MessageKey) : Except SchemaError MessageType :=
  (r.registration key).map (·.type)

/-- The registration of the message of a family that has the given name, in upper or lower case. -/
def find? (r : Registry) (family : UInt8) (name : String) : Option Registration :=
  r.entries.find? fun entry =>
    entry.key.family == family && entry.type.name.toLower == name.toLower

/-- The key of a type. -/
def keyOf (r : Registry) (type : MessageType) : Except SchemaError MessageKey :=
  match r.lookupType? type with
  | some key => .ok key
  | none => .error (.unregistered type.name)

/-- True when a type is registered under a key. -/
def contains (r : Registry) (key : MessageKey) : Bool := (r.lookup? key).isSome

/-- All registrations in order of their keys. -/
def registrations (r : Registry) : List Registration :=
  r.entries.mergeSort fun a b => a.key.le b.key

/-- How many types are registered. -/
def size (r : Registry) : Nat := r.entries.length

/-- Refuses a body that is larger than the registry allows. -/
def checkSize (r : Registry) (body : Bytes) : Except SchemaError Unit :=
  if r.maxMessageSize < body.length then
    .error (.messageTooLarge body.length r.maxMessageSize)
  else .ok ()

/-- Reads a body that is addressed to a key. -/
def decode (r : Registry) (key : MessageKey) (body : Bytes) (ctx : Context) :
    Except SchemaError Message := do
  -- What is too large is refused whatever it is addressed to.
  r.checkSize body
  let type ← r.resolve key
  Message.decode ctx type body

/-- Reads the message of a frame, which gets the frame's request id. -/
def decodeFrame (r : Registry) (frame : Frame) (ctx : Context) : Except SchemaError Message := do
  let m ← r.decode frame.key frame.payload ctx
  pure { m with envelope := { m.envelope with requestId := frame.requestId } }

/-- Writes a message.  Answers its key and body. -/
def encode (r : Registry) (m : Message) (ctx : Context) :
    Except SchemaError (MessageKey × Bytes) :=
  match r.keyOf m.type with
  | .error e => .error e
  | .ok key =>
    -- A body has a size only once it has been written, so a fault in it comes first.
    let x := m.encode ctx
    match x.result with
    | .error e => .error e
    | .ok () => (r.checkSize x.bytes).map fun () => (key, x.bytes)

end Registry

end Storefront
