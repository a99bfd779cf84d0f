import Storefront.Frame.Key

/-! # Failures of messages

What can go wrong with messages as wholes: their fields, the registry that knows them, and the
limits they are held to.
-/

namespace Storefront

/-- What can go wrong with a message. -/
inductive SchemaError where
  /-- A field could not be written or read. -/
  | wire (error : WireError)
  /-- No message type is registered under the key. -/
  | unknownMessage (key : MessageKey)
  /-- The key of keepalives was used for a message. -/
  | nullMessage
  /-- The key is taken by the named message type. -/
  | duplicateRegistration (key : MessageKey) (existing : String)
  /-- The message type has a key already. -/
  | typeAlreadyRegistered (name : String)
  /-- The message type has no key. -/
  | unregistered (name : String)
  /-- The embedded record was written under another structural version. -/
  | structuralVersion (record : String) (expected found : Nat)
  /-- The body is larger than the registry allows. -/
  | messageTooLarge (size max : Nat)
  /-- The number of a family is taken by the family `existing`. -/
  | familyTaken (family : String) (id : UInt8) (existing : String)
  /-- A value to be written is not of the type of its field. -/
  | illTyped (tag : Nat)
  deriving DecidableEq, Repr

namespace SchemaError

/-- The wording of a failure. -/
def message : SchemaError → String
  | wire error => error.message
  | unknownMessage key => s!"unknown message {key.text}"
  | nullMessage => "key 0:0 is reserved for keepalive and carries no message"
  | duplicateRegistration key existing =>
    s!"message key {key.text} already registered to {existing}"
  | typeAlreadyRegistered name => s!"type {name} is already registered"
  | unregistered name => s!"type {name} is not registered"
  | structuralVersion record expected found =>
    s!"{record}: structural version mismatch (expected {expected}, found {found})"
  | messageTooLarge size max => s!"message too large ({size} bytes, max {max})"
  | familyTaken family id existing =>
    s!"{family}: family id {id} already configured as {existing}"
  | illTyped tag => s!"field {tag}: value is not of the field's type"

/-- A short name for what went wrong, the same for all failures of one kind. -/
def label : SchemaError → String
  | wire error => s!"Wire/{error.label}"
  | unknownMessage _ => "UnknownMessage"
  | nullMessage => "NullMessage"
  | duplicateRegistration .. => "DuplicateRegistration"
  | typeAlreadyRegistered _ => "TypeAlreadyRegistered"
  | unregistered _ => "Unregistered"
  | structuralVersion .. => "StructuralVersion"
  | messageTooLarge .. => "MessageTooLarge"
  | familyTaken .. | illTyped _ => "Invalid"

/-- True when a field is above its bound. -/
def isBoundExceeded : SchemaError → Bool
  | wire (.boundExceeded ..) => true
  | _ => false

end SchemaError

/-- Refuses the structural version of an embedded record unless it is the expected one. -/
def checkStructural (record : String) (expected found : Nat) : Except SchemaError Unit :=
  if expected = found then .ok () else .error (.structuralVersion record expected found)

end Storefront
