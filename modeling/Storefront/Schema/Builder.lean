import Storefront.Schema.Type

/-! # Writing down layouts

A layout is put together from pieces, one for each field or group, in order.
-/

namespace Storefront.Layout

/-- A piece of a layout: what it puts in front of the rest. -/
abbrev Piece := Layout → Layout

/-- The layout that pieces make up. -/
def build (pieces : List Piece) : Layout := pieces.foldr (fun piece rest => piece rest) nil

/-- A field without a bound. -/
def plain (tag : Nat) (name : String) (type : ValueType) : Piece :=
  field (FieldMeta.plain tag name) type type.initial

/-- A field without a bound that is not empty in a new record. -/
def starting (tag : Nat) (name : String) (type : ValueType) (initial : Value) : Piece :=
  field (FieldMeta.plain tag name) type initial

/-- A field with a bound. -/
def bounded (tag : Nat) (name : String) (type : ValueType) (maxSize : Nat) : Piece :=
  field { FieldMeta.plain tag name with maxSize := some maxSize } type type.initial

/-- A stream with a bound on the whole and on a chunk. -/
def streamed (tag : Nat) (name : String) (maxSize chunkSize : Nat) : Piece :=
  field ⟨tag, name, some maxSize, chunkSize⟩ .stream ValueType.stream.initial

/-- Fields that are present together, if at all. -/
def grouped (name : String) (guard : Guard) (pieces : List Piece) : Piece :=
  group name guard (build pieces)

/-- The number in a field of a record, the first field being number 0. -/
def number (fields : List Value) (slot : Nat) : Nat := (fields[slot]?.getD default).toNumber

end Storefront.Layout

namespace Storefront.Hook

/-- Refuses a record whose first field is not the structural version of the named record. -/
def structural (record : String) (version : Nat) : Hook := fun fields _ =>
  match checkStructural record version (Layout.number fields 0) with
  | .ok () => .ok fields
  | .error e => .error e

end Storefront.Hook
