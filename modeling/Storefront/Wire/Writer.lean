import Storefront.Wire.Error
import Storefront.Wire.Varint

/-! # Written forms of fields

A field is a key and a value.  The key is one number, `tag * 8 + bits` of the wire type; the value
is laid out as the wire type says.

| wire type | value                                            |
|-----------|--------------------------------------------------|
| varint    | a number                                         |
| len       | a length and that many octets                    |
| stream    | a declared size, chunks, each a length and that many octets, and a zero |
-/

namespace Storefront.Wire

/-- The size written for a stream whose length is not known up front. -/
def undeclaredSize : Nat := 0xFFFFFFFFFFFFFFFF

/-- The key of a field. -/
def key (tag : Nat) (type : WireType) : Except WireError Bytes :=
  if maxTag < tag then .error (.tagOutOfRange tag)
  else .ok (Varint.encode (tag * 8 + type.bits))

/-- A byte string after its length. -/
def lenPrefixed (bs : Bytes) : Bytes := Varint.encode bs.length ++ bs

/-- A value that is written apart and then put after its length.  A value that fails leaves
nothing behind. -/
def nested {ε : Type} (body : Except ε Bytes) : Except ε Bytes := body.map lenPrefixed

/-- The start of a stream. -/
def streamStart (declared : Option Nat) : Bytes :=
  Varint.encode (declared.getD undeclaredSize)

/-- One chunk of a stream.  An empty one would end it. -/
def chunk (bs : Bytes) : Bytes := lenPrefixed bs

/-- The end of a stream. -/
def streamEnd : Bytes := Varint.encode 0

end Storefront.Wire
