import Storefront.Text.Hex
import Storefront.Text.Utf8

/-! # Failures of fields and frames

The ways in which writing or reading fields and frames can fail, each with its wording.
-/

namespace Storefront

/-- How a value is laid out after its key. -/
inductive WireType where
  /-- One number. -/
  | varint
  /-- A length and that many octets. -/
  | len
  /-- A declared size, chunks, and an empty chunk. -/
  | stream
  deriving DecidableEq, Repr

namespace WireType

/-- The three bits that stand for the type in a field key. -/
def bits : WireType → Nat
  | varint => 0
  | len => 2
  | stream => 3

/-- The type that three bits stand for. -/
def ofBits? : Nat → Option WireType
  | 0 => some varint
  | 2 => some len
  | 3 => some stream
  | _ => none

/-- The name shown to people. -/
def name : WireType → String
  | varint => "Varint"
  | len => "Len"
  | stream => "Stream"

@[simp] theorem ofBits?_bits (t : WireType) : ofBits? t.bits = some t := by cases t <;> rfl

theorem bits_lt (t : WireType) : t.bits < 8 := by cases t <;> decide

theorem bits_inj {t t' : WireType} (h : t.bits = t'.bits) : t = t' := by
  cases t <;> cases t' <;> first | rfl | cases h

theorem bits_of_ofBits? {n : Nat} {t : WireType} (h : ofBits? n = some t) : t.bits = n := by
  unfold ofBits? at h
  split at h <;> simp_all <;> subst h <;> rfl

end WireType

/-- How a single read, write or flush of a byte stream can fail. -/
inductive IoFault where
  | interrupted
  | wouldBlock
  | timedOut
  | brokenPipe
  | connectionReset
  | invalidData
  /-- A limit of no time at all, which no stream takes. -/
  | noTime
  deriving DecidableEq, Repr

/-- The wording of a failed read, write or flush. -/
def IoFault.message : IoFault → String
  | interrupted => "operation interrupted"
  | wouldBlock => "operation would block"
  | timedOut => "timed out"
  | brokenPipe => "broken pipe"
  | connectionReset => "connection reset"
  | invalidData => "invalid data"
  | noTime => "cannot set a 0 duration timeout"

/-- Why a value that could be read is none of its type. -/
inductive Defect where
  /-- A number too large for its width, which is given by name. -/
  | tooWide (raw : Nat) (width : String)
  /-- A number other than 0 and 1 for a flag. -/
  | notFlag (raw : Nat)
  /-- A number that stands for no member of the named enumeration. -/
  | notMember (raw : Nat) (enumeration : String)
  /-- A set of fetch options with bits that name no option. -/
  | unknownOptions (raw : Nat)
  /-- Octets that are no UTF-8. -/
  | malformedText (fault : Utf8.Fault)
  /-- A source that did not yield as many octets as were announced. -/
  | miscountedSource (declared yielded : Nat)
  /-- A received stream that carried more octets than were announced. -/
  | overlongStream (declared carried : Nat)
  deriving DecidableEq, Repr

/-- The wording of a defect. -/
def Defect.message : Defect → String
  | tooWide raw width => s!"{raw} does not fit in {width}"
  | notFlag raw => s!"{raw} is not a bool"
  | notMember raw enumeration => s!"{raw} is not a valid {enumeration}"
  | unknownOptions raw => s!"fetch options 0x{String.ofList (Hex.ofNat raw)} set unknown bits"
  | malformedText fault => fault.message
  | miscountedSource declared yielded =>
    s!"stream declared {declared} bytes but source yielded {yielded}"
  | overlongStream declared carried =>
    s!"stream declared {declared} bytes but carried {carried}"

/-- The largest tag a field key can hold. -/
def maxTag : Nat := 0x1FFFFFFF

/-- What can go wrong with fields and frames. -/
inductive WireError where
  /-- A frame does not start with the two magic octets. -/
  | invalidMagic
  /-- A frame announces or is given more payload than is allowed. -/
  | payloadTooLarge (size max : Nat)
  /-- The stream underneath failed. -/
  | io (fault : IoFault)
  /-- The stream ended before a whole frame had arrived. -/
  | connectionClosed
  /-- A value runs past the end of what encloses it. -/
  | truncated (needed available : Nat)
  /-- A number has more than ten octets or more than 64 bits. -/
  | varintOverflow
  /-- A field key with wire type bits that stand for nothing. -/
  | unknownWireType (bits : Nat)
  /-- A field whose wire type is not the one its tag calls for. -/
  | wireTypeMismatch (tag : Nat) (expected found : WireType)
  /-- A length, a count or a stream above the bound of its field. -/
  | boundExceeded (tag size max : Nat)
  /-- A tag that stands twice in one body. -/
  | duplicateTag (tag : Nat)
  /-- A value that can be read but is none of its type. -/
  | invalidValue (tag : Nat) (defect : Defect)
  /-- A stream that ended before the size it announced. -/
  | streamIncomplete (tag received declared : Nat)
  /-- A tag that does not fit a field key. -/
  | tagOutOfRange (tag : Nat)
  deriving DecidableEq, Repr

/-- The wording of a failure. -/
def WireError.message : WireError → String
  | invalidMagic => "invalid frame magic (expected 0x5350 \"SP\")"
  | payloadTooLarge size max => s!"payload too large ({size} bytes, max {max})"
  | io fault => s!"frame I/O error: {fault.message}"
  | connectionClosed => "connection closed (incomplete frame)"
  | truncated needed available =>
    s!"truncated value ({needed} bytes needed, {available} available)"
  | varintOverflow => "varint overflows 64 bits"
  | unknownWireType bits => s!"unknown wire type {bits}"
  | wireTypeMismatch tag expected found =>
    s!"field {tag}: expected {expected.name} wire type, found {found.name}"
  | boundExceeded tag size max => s!"field {tag}: size {size} exceeds bound {max}"
  | duplicateTag tag => s!"field {tag}: duplicate tag in message body"
  | invalidValue tag defect => s!"field {tag}: invalid value: {defect.message}"
  | streamIncomplete tag received declared =>
    s!"field {tag}: stream incomplete ({received} of {declared} bytes)"
  | tagOutOfRange tag => s!"tag {tag} out of range (max {maxTag})"

/-- A short name for what went wrong, the same for all failures of one kind. -/
def WireError.label : WireError → String
  | invalidMagic => "InvalidMagic"
  | payloadTooLarge .. => "PayloadTooLarge"
  | io _ => "Io"
  | connectionClosed => "ConnectionClosed"
  | truncated .. => "Truncated"
  | varintOverflow => "VarintOverflow"
  | unknownWireType _ => "UnknownWireType"
  | wireTypeMismatch .. => "WireTypeMismatch"
  | boundExceeded .. => "BoundExceeded"
  | duplicateTag _ => "DuplicateTag"
  | invalidValue .. => "InvalidValue"
  | streamIncomplete .. => "StreamIncomplete"
  | tagOutOfRange _ => "TagOutOfRange"

/-- Refuses a size above the bound of a field that has one. -/
def checkBound (tag size : Nat) (max : Option Nat) : Except WireError Unit :=
  match max with
  | some max => if max < size then .error (.boundExceeded tag size max) else .ok ()
  | none => .ok ()

@[simp] theorem checkBound_none (tag size : Nat) : checkBound tag size none = .ok () := rfl

theorem checkBound_eq_ok {tag size : Nat} {max : Option Nat} :
    checkBound tag size max = .ok () ↔ ∀ m, max = some m → size ≤ m := by
  cases max with
  | none => simp
  | some m =>
    by_cases h : m < size
    · simp [checkBound, h]
    · simp [checkBound, h]; omega

theorem checkBound_eq_error {tag size : Nat} {max : Option Nat} {e : WireError} :
    checkBound tag size max = .error e ↔
      ∃ m, max = some m ∧ m < size ∧ e = .boundExceeded tag size m := by
  cases max with
  | none => simp
  | some m =>
    by_cases h : m < size
    · simp [checkBound, h, eq_comm]
    · simp [checkBound, h]

end Storefront
