/-! # Byte strings

A byte string is a list of octets.  Readers ask two things of one: whether it is long enough, and
its split after a given number of octets.  `Bytes.split?` answers both at once and looks at no more
octets than it hands out.

* `hasAtLeast_iff`   `bs.hasAtLeast n ↔ n ≤ bs.length`
* `split?_eq_some`   `bs.split? n = some (a, r) ↔ a ++ r = bs ∧ a.length = n`
-/

namespace Storefront

/-- A string of octets. -/
abbrev Bytes := List UInt8

namespace Bytes

/-- True when `bs` has `n` octets or more.  Walks over at most `n` of them. -/
def hasAtLeast (bs : Bytes) (n : Nat) : Bool :=
  n == 0 || !(bs.drop (n - 1)).isEmpty

theorem hasAtLeast_iff {bs : Bytes} {n : Nat} : bs.hasAtLeast n = true ↔ n ≤ bs.length := by
  cases n with
  | zero => simp [hasAtLeast]
  | succ n =>
    -- Something is left behind `n` octets just when there is one more.
    have short : (bs.drop n).isEmpty = true ↔ bs.length ≤ n := by
      rw [List.isEmpty_iff, List.drop_eq_nil_iff]
    show (!(bs.drop n).isEmpty) = true ↔ n < bs.length
    rw [Bool.not_eq_true', ← Bool.not_eq_true, short, Nat.not_le]

/-- The first `n` octets and the rest, or `none` when there are fewer than `n`. -/
def split? (bs : Bytes) (n : Nat) : Option (Bytes × Bytes) :=
  if bs.hasAtLeast n then some (bs.take n, bs.drop n) else none

theorem split?_eq_some {bs a r : Bytes} {n : Nat} :
    bs.split? n = some (a, r) ↔ a ++ r = bs ∧ a.length = n := by
  unfold split?
  constructor
  · intro h
    split at h
    · rename_i hn
      rw [hasAtLeast_iff] at hn
      simp only [Option.some.injEq, Prod.mk.injEq] at h
      obtain ⟨rfl, rfl⟩ := h
      simp [hn]
    · simp at h
  · rintro ⟨rfl, rfl⟩
    simp [hasAtLeast_iff]

theorem split?_eq_none {bs : Bytes} {n : Nat} : bs.split? n = none ↔ bs.length < n := by
  unfold split?
  split
  · rename_i h; rw [hasAtLeast_iff] at h; simp; omega
  · rename_i h; rw [hasAtLeast_iff] at h; simp; omega

@[simp] theorem split?_append (a r : Bytes) : split? (a ++ r) a.length = some (a, r) :=
  split?_eq_some.2 ⟨rfl, rfl⟩

/-- The octets of a text in UTF-8. -/
def ofText (s : String) : Bytes := s.toByteArray.data.toList

end Bytes

end Storefront
