import Storefront.Schema.Decode
import Storefront.Schema.Encode

/-! # Bodies of messages

The body of a message is the format version of its type under tag 0 and then the fields of its
record.  A reader takes any format version: fields that a newer one has added are unknown to it and
passed over.
-/

namespace Storefront

/-- The tag of the format version. -/
def formatVersionTag : Nat := 0

/-- Checks that the format version, if there is one, is a number. -/
def checkFormatVersion (index : FieldIndex) : Except WireError Unit :=
  match index.find? formatVersionTag with
  | none => .ok ()
  | some raw =>
    match raw.expect .varint with
    | .error e => .error e
    | .ok () =>
      match Cursor.varint raw.cursor with
      | .ok _ _ => .ok ()
      | .error e _ => .error e

namespace RecordType

/-- Writes the body of a message whose fields are those of a record. -/
def encodeMessage (r : RecordType) (version : Nat) (ctx : Context) (fields : List Value) :
    Encoded (List Value) :=
  match Wire.key formatVersionTag .varint with
  | .error e => .error (.wire e) fields
  | .ok key => (r.encode ctx fields).after (key ++ Varint.encode version)

/-- Reads the body of a message into the fields of a record.  After a failure they hold what was
read before it. -/
def decodeMessage (r : RecordType) (ctx : Context) (body : Bytes) (fields : List Value) :
    List Value × Except SchemaError Unit :=
  match r.index body with
  | .error e => (fields, .error e)
  | .ok index =>
    match checkFormatVersion index with
    | .error e => (fields, .error (.wire e))
    -- Tag 0 belongs to the message and is not the record's to read.
    | .ok () => r.decodeIndexed ctx (index.without formatVersionTag) fields

end RecordType

end Storefront
