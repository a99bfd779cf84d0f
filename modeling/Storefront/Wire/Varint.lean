import Storefront.Bytes

/-! # Variable-length numbers

A number is written in groups of seven bits, lowest group first; every octet but the last has its
high bit set.  Reading accepts at most ten octets and refuses what does not fit 64 bits; a number
need not be written as short as it could be.

Signed numbers are first folded onto the naturals, small magnitudes onto small codes
(`ZigZag.encode`).
-/

namespace Storefront

namespace Varint

/-- The most octets a number of 64 bits takes. -/
def maxSize : Nat := 10

/-- One more than the largest number a varint carries. -/
def limit : Nat := 0x10000000000000000

/-- The octets of `n` in `more + 1` groups of seven bits, the last of which ends the number. -/
def encodeGroups : (more : Nat) → (n : Nat) → Bytes
  | 0, n => [n.toUInt8]
  | more + 1, n => (n % 128 + 128).toUInt8 :: encodeGroups more (n / 128)

/-- How many octets a number takes: one for every seven bits begun, and one for zero. -/
def size (n : Nat) : Nat := n.log2 / 7 + 1

/-- The octets of `n`, lowest seven bits first. -/
def encode (n : Nat) : Bytes := encodeGroups (n.log2 / 7) n

@[simp] theorem length_encode (n : Nat) : (encode n).length = size n := by
  suffices ∀ more n, (encodeGroups more n).length = more + 1 from this _ _
  intro more
  induction more with
  | zero => intro n; rfl
  | succ more ih => intro n; simp [encodeGroups, ih]

/-- A number of at most seven bits is one octet. -/
theorem encode_of_lt {n : Nat} (h : n < 128) : encode n = [n.toUInt8] := by
  have h0 : n.log2 < 7 := by
    by_cases hn : n = 0
    · subst hn; decide
    · exact (Nat.log2_lt hn).2 h
  simp [encode, Nat.div_eq_of_lt h0, encodeGroups]

/-- A longer number is its lowest seven bits, marked as continued, and the rest. -/
theorem encode_of_le {n : Nat} (h : 128 ≤ n) :
    encode n = (n % 128 + 128).toUInt8 :: encode (n / 128) := by
  -- Halving seven times over takes away one group.
  have halve : ∀ m, 2 ≤ m → m.log2 = (m / 2).log2 + 1 := fun m hm => by
    rw [Nat.log2_def, if_pos hm]
  have hl : n.log2 = (n / 128).log2 + 7 := by
    rw [halve n (by omega), halve (n / 2) (by omega), halve (n / 2 / 2) (by omega),
      halve (n / 2 / 2 / 2) (by omega), halve (n / 2 / 2 / 2 / 2) (by omega),
      halve (n / 2 / 2 / 2 / 2 / 2) (by omega), halve (n / 2 / 2 / 2 / 2 / 2 / 2) (by omega)]
    simp only [Nat.div_div_eq_div_mul, Nat.reduceMul]
  have hm : n.log2 / 7 = (n / 128).log2 / 7 + 1 := by omega
  simp only [encode, hm, encodeGroups]

/-- Why the octets at hand are no number. -/
inductive Fault where
  /-- They end inside a number. -/
  | unfinished
  /-- The number has an eleventh octet or a bit above the 64th. -/
  | overflow
  deriving DecidableEq, Repr

/-- Reads a number of which `index` octets have been read already.  The answer is the value of
the remaining groups, how many octets they took, and what follows them. -/
def decodeFrom (index : Nat) : Bytes → Except Fault (Nat × Nat × Bytes)
  | [] => .error .unfinished
  | b :: rest =>
    let low := b.toNat % 128
    -- Nine groups hold 63 bits, so the tenth has room for one more.
    if index + 1 = maxSize ∧ 1 < low then .error .overflow
    else if b.toNat < 128 then .ok (low, 1, rest)
    else if index + 1 = maxSize then .error .overflow
    else
      match decodeFrom (index + 1) rest with
      | .ok (high, used, rest') => .ok (low + 128 * high, used + 1, rest')
      | .error fault => .error fault

/-- The number at the start of `bs`, the octets it took, and what follows them. -/
def decode (bs : Bytes) : Except Fault (Nat × Nat × Bytes) := decodeFrom 0 bs

theorem decodeFrom_length {index : Nat} {bs rest : Bytes} {n used : Nat}
    (h : decodeFrom index bs = .ok (n, used, rest)) :
    used + rest.length = bs.length ∧ 0 < used := by
  induction bs generalizing index n used with
  | nil => simp [decodeFrom] at h
  | cons b bs ih =>
    simp only [decodeFrom] at h
    split at h
    · simp at h
    · split at h
      · simp only [Except.ok.injEq, Prod.mk.injEq] at h
        obtain ⟨-, rfl, rfl⟩ := h
        simp; omega
      · split at h
        · simp at h
        · split at h
          · rename_i high k rest' hd
            simp only [Except.ok.injEq, Prod.mk.injEq] at h
            obtain ⟨-, rfl, rfl⟩ := h
            have := ih hd
            simp; omega
          · simp at h

/-- A number takes at least one octet, and what it took and what follows make up the input. -/
theorem decode_length {bs rest : Bytes} {n used : Nat} (h : decode bs = .ok (n, used, rest)) :
    used + rest.length = bs.length ∧ 0 < used :=
  decodeFrom_length h

end Varint

namespace ZigZag

/-- Folds the integers onto the naturals: 0, -1, 1, -2, 2, … become 0, 1, 2, 3, 4, …. -/
def encode (i : Int) : Nat := if 0 ≤ i then 2 * i.toNat else 2 * (-i).toNat - 1

/-- Unfolds a natural: the even ones are its halves, the odd ones lie below zero. -/
def decode (n : Nat) : Int := if n % 2 = 0 then (n / 2 : Nat) else -((n / 2 : Nat) + 1)

@[simp] theorem decode_encode (i : Int) : decode (encode i) = i := by
  unfold decode encode
  split <;> split <;> omega

@[simp] theorem encode_decode (n : Nat) : encode (decode n) = n := by
  unfold decode encode
  split <;> split <;> omega

end ZigZag

end Storefront
