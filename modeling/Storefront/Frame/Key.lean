import Storefront.Wire.Error

/-! # Message keys

A frame is addressed by the pair of a family and a message number.  The key `0:0` is reserved: it
marks a keepalive and never carries a message.
-/

namespace Storefront

/-- The address of a message: a protocol family and a message number within it. -/
structure MessageKey where
  family : UInt8
  message : UInt16
  deriving DecidableEq, Repr

namespace MessageKey

/-- The key of keepalive frames. -/
def null : MessageKey := ⟨0, 0⟩

/-- True for the key of keepalive frames. -/
def isNull (key : MessageKey) : Bool := key.family == 0 && key.message == 0

@[simp] theorem isNull_iff (key : MessageKey) : key.isNull = true ↔ key = null := by
  cases key; simp [isNull, null]

/-- Both numbers in one: the message number above the lowest octet, the family in it. -/
def combined (key : MessageKey) : Nat := key.message.toNat * 256 + key.family.toNat

/-- The usual way to write a key. -/
def text (key : MessageKey) : String := s!"{key.family}:{key.message}"

/-- Keys are ordered by family and then by message number. -/
def compare (a b : MessageKey) : Ordering :=
  (Ord.compare a.family.toNat b.family.toNat).then (Ord.compare a.message.toNat b.message.toNat)

/-- True when `a` does not come after `b`. -/
def le (a b : MessageKey) : Bool := compare a b != .gt

theorem combined_inj {a b : MessageKey} : a.combined = b.combined ↔ a = b := by
  constructor
  · intro h
    have ha := a.family.toNat_lt
    have hb := b.family.toNat_lt
    simp only [combined] at h
    have h₁ : a.family.toNat = b.family.toNat := by omega
    have h₂ : a.message.toNat = b.message.toNat := by omega
    cases a; cases b
    simp_all [UInt8.toNat_inj, UInt16.toNat_inj]
  · rintro rfl; rfl

end MessageKey

/-- What a family number is called; only the built-in families have names. -/
def familyName (id : UInt8) : String :=
  if id = 0 then "core" else if id = 1 then "auth" else if id = 2 then "main" else "unknown"

end Storefront
