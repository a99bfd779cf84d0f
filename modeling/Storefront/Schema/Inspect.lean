import Storefront.Schema.Type

/-! # Inspecting a layout

Which fields would be written for a record, without writing them.  An inspection goes the way that
writing does, and keeps the names of the groups it is in on a stack.
-/

namespace Storefront

/-- A field that would be written. -/
structure FieldInfo where
  tag : Nat
  name : String
  wireType : WireType
  maxSize : Option Nat
  /-- The innermost group around the field. -/
  group : Option String
  deriving DecidableEq, Repr

/-- An inspection under way. -/
structure Inspection where
  /-- The groups that it is in, the innermost first. -/
  groups : List String := []
  /-- The fields that it has come to. -/
  found : List FieldInfo := []
  deriving DecidableEq, Repr

namespace Inspection

/-- Notes a field. -/
def visit (about : FieldMeta) (type : ValueType) (x : Inspection) : Inspection :=
  let info := ⟨about.tag, about.name, type.wireType, about.maxSize, x.groups.head?⟩
  { x with found := x.found ++ [info] }

/-- Goes into a group. -/
def enter (name : String) (x : Inspection) : Inspection := { x with groups := name :: x.groups }

/-- Comes out of the innermost group. -/
def leave (x : Inspection) : Inspection := { x with groups := x.groups.tail }

end Inspection

/-- Comes to the fields of a layout that are present. -/
def Layout.inspect : Layout → Context → List Value → Inspection → Inspection
  | nil, _, _, x => x
  | field about type _ rest, ctx, fields, x => rest.inspect ctx fields (x.visit about type)
  | .group name guard body rest, ctx, fields, x =>
    let x := if guard fields ctx then (body.inspect ctx fields (x.enter name)).leave else x
    rest.inspect ctx fields x

/-- The fields of a record that are present. -/
def RecordType.inspect (r : RecordType) (ctx : Context) (fields : List Value) : List FieldInfo :=
  (r.layout.inspect ctx fields {}).found

end Storefront
