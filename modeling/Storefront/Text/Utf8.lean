import Storefront.Bytes

/-! # UTF-8 text

Octets are a text when they are well-formed UTF-8.  Octets that are not have a first broken
sequence, and the fault says where it starts and how many of its octets fit no character.

* `decode_ofText`      `decode (Bytes.ofText s) = .ok s`
* `ofText_of_decode`   `decode bs = .ok s → Bytes.ofText s = bs`
-/

namespace Storefront.Utf8

/-- Where octets stop being UTF-8. -/
structure Fault where
  /-- How many octets before the broken sequence are well-formed. -/
  index : Nat
  /-- How many octets the sequence has before the one that fits no character, the first included;
  `none` when the octets end inside a sequence that is well-formed so far. -/
  length : Option Nat
  deriving DecidableEq, Repr

/-- The wording of a fault. -/
def Fault.message (fault : Fault) : String :=
  match fault.length with
  | some n => s!"invalid utf-8 sequence of {n} bytes from index {fault.index}"
  | none => s!"incomplete utf-8 byte sequence from index {fault.index}"

/-- True for an octet that may stand after the second one of a sequence. -/
def trails (b : UInt8) : Bool := 0x80 ≤ b && b ≤ 0xBF

/-- True when `c` may follow the leading octet `b`.  The four narrowed ranges rule out overlong
forms, surrogates and what lies beyond the last code point. -/
def follows (b c : UInt8) : Bool :=
  if b == 0xE0 then 0xA0 ≤ c && c ≤ 0xBF
  else if b == 0xED then 0x80 ≤ c && c ≤ 0x9F
  else if b == 0xF0 then 0x90 ≤ c && c ≤ 0xBF
  else if b == 0xF4 then 0x80 ≤ c && c ≤ 0x8F
  else trails c

/-- How many octets follow the leading octet `b`, or `none` when no sequence starts with it. -/
def tailSize (b : UInt8) : Option Nat :=
  if b < 0x80 then some 0
  else if 0xC2 ≤ b && b ≤ 0xDF then some 1
  else if 0xE0 ≤ b && b ≤ 0xEF then some 2
  else if 0xF0 ≤ b && b ≤ 0xF4 then some 3
  else none

/-- The octets after the second one of a sequence that starts at `index`: `seen` octets are
behind us and `more` are wanted.  Answers how the sequence fails, or `none`. -/
def tailFault (index seen : Nat) : Nat → Bytes → Option Fault
  | 0, _ => none
  | _ + 1, [] => some ⟨index, none⟩
  | more + 1, b :: rest =>
    if trails b then tailFault index (seen + 1) more rest else some ⟨index, some seen⟩

/-- How the sequence at the start of `bs` fails, or `none` when it is well-formed. -/
def sequenceFault (index : Nat) : Bytes → Option Fault
  | [] => none
  | b :: rest =>
    match tailSize b with
    | none => some ⟨index, some 1⟩
    | some 0 => none
    | some (more + 1) =>
      match rest with
      | [] => some ⟨index, none⟩
      -- The second octet is the one that the leading one has a say in.
      | c :: rest => if follows b c then tailFault index 2 more rest else some ⟨index, some 1⟩

/-- The first fault of the octets from `index` on.  The first `skip` of them belong to a sequence
already seen to be well-formed. -/
def faultFrom (index skip : Nat) : Bytes → Option Fault
  | [] => none
  | b :: rest =>
    match skip with
    | skip + 1 => faultFrom (index + 1) skip rest
    | 0 =>
      match sequenceFault index (b :: rest) with
      | some fault => some fault
      | none => faultFrom (index + 1) ((tailSize b).getD 0) rest

/-- The first fault of `bs`. -/
def fault? (bs : Bytes) : Option Fault := faultFrom 0 0 bs

/-- The text that `bs` spells, or where it stops being one. -/
def decode (bs : Bytes) : Except Fault String :=
  if h : bs.toByteArray.validateUTF8 = true then
    .ok (String.fromUTF8 bs.toByteArray (ByteArray.validateUTF8_eq_true_iff.1 h))
  else .error ((fault? bs).getD ⟨0, none⟩)

@[simp] theorem toByteArray_ofText (s : String) :
    (Bytes.ofText s).toByteArray = s.toByteArray := by
  apply ByteArray.ext
  simp [Bytes.ofText]

@[simp] theorem decode_ofText (s : String) : decode (Bytes.ofText s) = .ok s := by
  have h : s.toByteArray.validateUTF8 = true :=
    ByteArray.validateUTF8_eq_true_iff.2 s.isValidUTF8
  unfold decode
  simp [h]
  rfl

theorem ofText_of_decode {bs : Bytes} {s : String} (h : decode bs = .ok s) :
    Bytes.ofText s = bs := by
  unfold decode at h
  split at h
  · simp only [Except.ok.injEq] at h
    subst h
    simp [Bytes.ofText, String.fromUTF8]
  · simp at h

end Storefront.Utf8
