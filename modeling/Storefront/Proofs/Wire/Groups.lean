import Mathlib.Algebra.Group.Nat.Defs
import Storefront.Wire.Varint

/-! # How numbers are spelled

A number is spelled in groups of seven bits, lowest group first (`Varint.Groups`).  The reader takes
the spellings of at most ten octets whose number has at most 64 bits (`Varint.Spells`), and no other
octets; the writer puts down the shortest one.

* `decode_eq_ok`             what is read is spelled by the octets that were taken
* `decode_encode_append`     what was written is read back
* `Spells.unique`            one spelling stands in front of given octets, for one number
-/

namespace Storefront.Varint

/-- Octets that hold a number in groups of seven bits, the lowest in front.  Every octet but the
last has its high bit set. -/
inductive Groups : Bytes → Nat → Prop
  | last {b : UInt8} (ends : b.toNat < 128) : Groups [b] b.toNat
  | more {b : UInt8} {bs : Bytes} {high : Nat} (goesOn : 128 ≤ b.toNat) (rest : Groups bs high) :
      Groups (b :: bs) (b.toNat - 128 + 128 * high)

/-- Octets that spell a number: ten at most, for 64 bits.  The number need not be spelled as short
as it could be. -/
structure Spells (octets : Bytes) (n : Nat) : Prop where
  groups : Groups octets n
  short : octets.length ≤ maxSize
  fits : n < limit

variable {octets bs rest : Bytes} {index n m used : Nat}

theorem Groups.ne_nil (h : Groups octets n) : octets ≠ [] := by
  cases h <;> simp

/-! ## Reading -/

/-- How many numbers fit behind `index` groups. -/
def room (index : Nat) : Nat := 2 ^ (64 - 7 * index)

/-- `room` for a group is seven bits more than for the next one. -/
theorem room_of_lt (h : index + 1 < maxSize) : room index = 128 * room (index + 1) := by
  have hsplit : 64 - 7 * index = 7 + (64 - 7 * (index + 1)) := by
    simp only [maxSize] at h
    omega
  rw [room, hsplit, Nat.pow_add, room]

/-- `room` for the last group is one bit. -/
theorem room_of_eq (h : index + 1 = maxSize) : room index = 2 := by
  obtain rfl : index = 9 := by simpa [maxSize] using h
  rfl

/-- `room` for any other group is seven bits at least. -/
theorem room_of_ne (hi : index < maxSize) (h : index + 1 ≠ maxSize) : 128 ≤ room index := by
  have hpos : 0 < room (index + 1) := Nat.pow_pos (by decide)
  rw [room_of_lt (by omega)]
  omega

/-- `decodeFrom` reads `Groups` for which there is `room`. -/
theorem decodeFrom_of_groups (index : Nat) (h : Groups octets n)
    (hshort : index + octets.length ≤ maxSize) (hroom : n < room index) (rest : Bytes) :
    decodeFrom index (octets ++ rest) = .ok (n, octets.length, rest) := by
  induction h generalizing index with
  | @last b ends =>
    have hlow : b.toNat % 128 = b.toNat := Nat.mod_eq_of_lt ends
    -- The group that ends the number is refused only in the last place, where it is one bit.
    have hbit : ¬ (index + 1 = maxSize ∧ 1 < b.toNat) := fun hc => by
      rw [room_of_eq hc.1] at hroom
      omega
    simp only [List.cons_append, List.nil_append, decodeFrom, hlow, if_neg hbit, if_pos ends]
    rfl
  | @more b bs high goesOn hrest ih =>
    have hlow : b.toNat % 128 = b.toNat - 128 := by
      have := b.toNat_lt
      omega
    have hne := List.length_pos_iff.2 hrest.ne_nil
    rw [List.length_cons] at hshort
    -- There is another octet to come, so this is not the last place.
    have hlast : ¬ index + 1 = maxSize := by omega
    rw [room_of_lt (by omega)] at hroom
    simp only [List.cons_append, decodeFrom, hlast, false_and, if_false,
      if_neg (Nat.not_lt.2 goesOn), ih (index + 1) (by omega) (by omega), hlow,
      List.length_cons]

/-- `decodeFrom` answers what the `Groups` hold that it has taken, and there was `room` for them. -/
theorem groups_of_decodeFrom (hi : index < maxSize)
    (h : decodeFrom index bs = .ok (n, used, rest)) :
    ∃ octets, octets ++ rest = bs ∧ octets.length = used ∧ Groups octets n ∧
      index + octets.length ≤ maxSize ∧ n < room index := by
  induction bs generalizing index n used with
  | nil => simp [decodeFrom] at h
  | cons b bs ih =>
    simp only [decodeFrom] at h
    split at h
    · simp at h
    · rename_i hbit
      split at h
      · rename_i ends
        have hlow : b.toNat % 128 = b.toNat := Nat.mod_eq_of_lt ends
        simp only [Except.ok.injEq, Prod.mk.injEq, hlow] at h hbit
        obtain ⟨rfl, rfl, rfl⟩ := h
        refine ⟨[b], rfl, rfl, .last ends, hi, ?_⟩
        by_cases hlast : index + 1 = maxSize
        · rw [room_of_eq hlast]
          have : ¬ 1 < b.toNat := fun hc => hbit ⟨hlast, hc⟩
          omega
        · have := room_of_ne hi hlast
          omega
      · rename_i goesOn
        split at h
        · simp at h
        · rename_i hlast
          split at h
          · rename_i high k rest' hd
            simp only [Except.ok.injEq, Prod.mk.injEq] at h
            obtain ⟨rfl, rfl, rfl⟩ := h
            have hlow : b.toNat % 128 = b.toNat - 128 := by
              have := b.toNat_lt
              omega
            obtain ⟨octets, happ, hused, hgroups, hshort, hroom⟩ := ih (by omega) hd
            -- What the higher groups are worth fits the room behind this one.
            have hhigh : room index = 128 * room (index + 1) := room_of_lt (by omega)
            refine ⟨b :: octets, by rw [List.cons_append, happ], by simp [hused], ?_, ?_, by omega⟩
            · rw [hlow]
              exact .more (by omega) hgroups
            · simp only [List.length_cons]
              omega
          · simp at h

/-- `decode` answers a number just when octets that it `Spells` are in front, and takes these. -/
theorem decode_eq_ok :
    decode bs = .ok (n, used, rest) ↔
      ∃ octets, octets ++ rest = bs ∧ octets.length = used ∧ Spells octets n := by
  constructor
  · intro h
    obtain ⟨octets, happ, hused, hgroups, hshort, hroom⟩ :=
      groups_of_decodeFrom (by decide) h
    exact ⟨octets, happ, hused, hgroups, by omega, hroom⟩
  · rintro ⟨octets, rfl, rfl, h⟩
    exact decodeFrom_of_groups 0 h.groups (by rw [Nat.zero_add]; exact h.short) h.fits rest

/-- `Spells` is no more than one number in front of octets. -/
theorem Spells.unique {octets' rest' : Bytes} (h : Spells octets n) (h' : Spells octets' m)
    (happ : octets ++ rest = octets' ++ rest') : octets = octets' ∧ n = m ∧ rest = rest' := by
  -- Both are what the reader finds in front.
  have hread : decode (octets ++ rest) = _ := decode_eq_ok.2 ⟨octets, rfl, rfl, h⟩
  have hread' := decode_eq_ok.2 ⟨octets', happ.symm, rfl, h'⟩
  rw [hread] at hread'
  simp only [Except.ok.injEq, Prod.mk.injEq] at hread'
  obtain ⟨hn, hlength, hrest⟩ := hread'
  exact ⟨(List.append_inj happ hlength).1, hn, hrest⟩

/-- `Spells` is decided by `decode`. -/
theorem spells_iff : Spells octets n ↔ decode octets = .ok (n, octets.length, []) := by
  rw [decode_eq_ok]
  constructor
  · exact fun h => ⟨octets, List.append_nil _, rfl, h⟩
  · rintro ⟨octets', happ, -, h⟩
    rw [List.append_nil] at happ
    exact happ ▸ h

instance (octets : Bytes) (n : Nat) : Decidable (Spells octets n) :=
  decidable_of_iff ((decode octets).toOption = some (n, octets.length, [])) (by
    rw [spells_iff]
    cases decode octets <;> simp [Except.toOption])

/-! ## Writing -/

/-- `encode` writes a number in groups of seven bits. -/
theorem groups_encode (n : Nat) : Groups (encode n) n := by
  -- The induction is on the number: each group that is written leaves a smaller one.
  induction n using Nat.strongRecOn with
  | ind n ih =>
    by_cases h : n < 128
    · have hlow : n.toUInt8.toNat = n := by simp; omega
      have hgroups : Groups [n.toUInt8] n.toUInt8.toNat := .last (by omega)
      rwa [hlow, ← encode_of_lt h] at hgroups
    · have hlow : (n % 128 + 128).toUInt8.toNat = n % 128 + 128 := by simp; omega
      have hn : (n % 128 + 128).toUInt8.toNat - 128 + 128 * (n / 128) = n := by omega
      have hmarked : 128 ≤ (n % 128 + 128).toUInt8.toNat := by omega
      have hgroups := Groups.more hmarked (ih (n / 128) (by omega))
      rwa [hn, ← encode_of_le (by omega)] at hgroups

/-- `encode` of a number of 64 bits spells it. -/
theorem spells_encode (hn : n < limit) : Spells (encode n) n := by
  -- 64 bits are ten groups at most, as the logarithm tells.
  have hlog : n.log2 < 64 := by
    by_cases hzero : n = 0
    · subst hzero
      decide
    · exact (Nat.log2_lt hzero).2 hn
  refine ⟨groups_encode n, ?_, hn⟩
  rw [length_encode, size, maxSize]
  omega

theorem decode_encode_append (hn : n < limit) (rest : Bytes) :
    decode (encode n ++ rest) = .ok (n, (encode n).length, rest) :=
  decode_eq_ok.2 ⟨_, rfl, rfl, spells_encode hn⟩

theorem encode_ne_nil (n : Nat) : encode n ≠ [] :=
  (groups_encode n).ne_nil

end Storefront.Varint
