import Storefront.Schema.Value
import Storefront.Version.Context

/-! # Types of fields

The type of a field fixes which values it holds and how they are written.  A record type has a
layout: its fields in order, some of them in groups.  A group is present only while its guard holds;
the guard sees the fields of the record as they stand and what the connection has negotiated.  So a
guard may depend on fields that come before its group, and never on those after it, which have not
been read when a reader comes to the group.

After a record has been read a hook may refuse it or change it.
-/

namespace Storefront

/-- The widths of unsigned numbers. -/
inductive Width where
  | u8
  | u16
  | u32
  | u64
  deriving DecidableEq, Repr

namespace Width

/-- The first number that does not fit. -/
def limit : Width → Nat
  | u8 => 0x100
  | u16 => 0x10000
  | u32 => 0x100000000
  | u64 => 0x10000000000000000

/-- The name shown in messages. -/
def name : Width → String
  | u8 => "u8"
  | u16 => "u16"
  | u32 => "u32"
  | u64 => "u64"

/-- True when `n` fits the width. -/
def admits (w : Width) (n : Nat) : Bool := n < w.limit

end Width

/-- An enumeration: its name and its members, each with the number that stands for it.  The first
member is the initial one. -/
structure Enumeration where
  name : String
  members : List (Nat × String)
  deriving DecidableEq, Repr

namespace Enumeration

/-- The name of the member that a number stands for. -/
def member? (e : Enumeration) (raw : Nat) : Option String := e.members.lookup raw

/-- The number of the initial member. -/
def initial (e : Enumeration) : Nat := (e.members.head?.map (·.1)).getD 0

end Enumeration

/-- Says whether a group is present, given the fields of the record and what was negotiated. -/
abbrev Guard := List Value → Context → Bool

/-- What happens to the fields of a record after they have been read. -/
abbrev Hook := List Value → Context → Except SchemaError (List Value)

mutual

/-- The type of a field. -/
inductive ValueType where
  | unsigned (width : Width)
  | signed
  | flag
  | text
  | blob
  /-- A text that is not shown. -/
  | secret
  /-- A result code; one that was never set is no success. -/
  | status
  | choice (enumeration : Enumeration)
  /-- A set of fetch options in one number. -/
  | options
  | stream
  | list (element : ValueType)
  | pair (first second : ValueType)
  | record (name : String) (layout : Layout) (hook : Option Hook)

/-- The fields of a record in order. -/
inductive Layout where
  | nil
  /-- A field, with the value it has in a new record. -/
  | field (about : FieldMeta) (type : ValueType) (initial : Value) (rest : Layout)
  /-- Fields that are present together, if at all. -/
  | group (name : String) (guard : Guard) (body rest : Layout)

end

/-- The bits that stand for fetch options. -/
def optionsMask : Nat := 0x1FF

/-- The result code of an answer whose result was never set. -/
def unsetStatus : Nat := 0xFFFFFFFF

namespace ValueType

/-- How values of the type are laid out. -/
def wireType : ValueType → WireType
  | unsigned _ | signed | flag | status | choice _ | options => .varint
  | text | blob | secret | list _ | pair _ _ | record _ _ _ => .len
  | stream => .stream

/-- True when the bound of a field counts octets, so that a length can be held against it before the
value has been read.  Collections count their elements. -/
def byteBounded : ValueType → Bool
  | text | blob | secret | stream => true
  | _ => false

end ValueType

namespace Layout

/-- The fields of a new record. -/
def initials : Layout → List Value
  | nil => []
  | field _ _ initial rest => initial :: initials rest
  | group _ _ body rest => initials body ++ initials rest

/-- How many fields a record has, those in groups included. -/
def size : Layout → Nat
  | nil => 0
  | field _ _ _ rest => size rest + 1
  | group _ _ body rest => size body + size rest

/-- Every field declared, those in groups included, in order. -/
def declared : Layout → List (FieldMeta × ValueType)
  | nil => []
  | field about type _ rest => (about, type) :: declared rest
  | group _ _ body rest => declared body ++ declared rest

/-- Every declared tag with its name. -/
def declaredTags (layout : Layout) : List (Nat × String) :=
  layout.declared.map fun (about, _) => (about.tag, about.name)

/-- The most octets that the field declared under a tag may carry. -/
def byteBound (layout : Layout) (tag : Nat) : Option Nat :=
  (layout.declared.find? fun (about, _) => about.tag == tag).bind fun (about, type) =>
    if type.byteBounded then about.maxSize else none

/-- The first tag that is declared although it is among those seen before. -/
def firstRepeated (seen : List Nat) : List Nat → Option Nat
  | [] => none
  | tag :: tags => if seen.contains tag then some tag else firstRepeated (tag :: seen) tags

/-- The first tag declared twice.  Tag 0 belongs to the format version and counts as declared. -/
def duplicateTag (layout : Layout) : Option Nat :=
  firstRepeated [0] (layout.declared.map (·.1.tag))

@[simp] theorem length_initials (layout : Layout) : layout.initials.length = layout.size := by
  fun_induction initials layout <;> simp_all [size]

@[simp] theorem length_declared (layout : Layout) : layout.declared.length = layout.size := by
  fun_induction declared layout <;> simp_all [size]

end Layout

namespace ValueType

/-- The value of a new field of the type. -/
def initial : ValueType → Value
  | unsigned _ | options => .number 0
  | signed => .signed 0
  | flag => .flag false
  | text | secret => .text ""
  | blob => .blob []
  | status => .number unsetStatus
  | choice e => .number e.initial
  | stream => .stream {}
  | list _ => .list []
  | pair a b => .pair (initial a) (initial b)
  | record _ layout _ => .record layout.initials

end ValueType

/-- A record type under its name. -/
structure RecordType where
  name : String
  layout : Layout
  hook : Option Hook := none

namespace RecordType

/-- The type of a field that holds such a record. -/
def type (r : RecordType) : ValueType := .record r.name r.layout r.hook

/-- The fields of a new record. -/
def initials (r : RecordType) : List Value := r.layout.initials

end RecordType

end Storefront
