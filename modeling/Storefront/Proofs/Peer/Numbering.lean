import Mathlib.Data.List.Nodup
import Storefront.Peer.Connection

/-! # The ids of messages

A connection numbers the messages that bring no id of their own.  The numbers start behind that of
the opening message, run through all ids but zero, and repeat only after all of them.

* `toNat_idAt`, `idAt_inj`                 the ids that a connection gives
* `nodup_range'_idAt`, `eq_idAt_of_append`  rows of them
* `takeId_of_zero`, `takeId_of_ne_zero`    the id that a message is sent under
* `takeId_snd`                             what taking an id changes
-/

namespace Storefront

namespace Connection

/-- The ids that a connection gives, in order. -/
def idAt : Nat → UInt64
  | 0 => Handshake.initRequestId + 1
  | n + 1 => idAfter (idAt n)

/-- `idAfter` the largest id is 1, and else it is one more. -/
theorem toNat_idAfter (id : UInt64) :
    (idAfter id).toNat = if id.toNat + 1 = UInt64.size then 1 else id.toNat + 1 := by
  have hlt : id.toNat < UInt64.size := id.toNat_lt
  have hsum : (id + 1).toNat = (id.toNat + 1) % UInt64.size := UInt64.toNat_add id 1
  unfold idAfter
  by_cases hlast : id.toNat + 1 = UInt64.size
  · -- Behind the largest id the sum wraps around, and zero is passed over.
    have hzero : id + 1 = 0 := by
      rw [← UInt64.toNat_inj, hsum, hlast, Nat.mod_self]
      rfl
    rw [if_pos hzero, if_pos hlast]
    rfl
  · have hsmall : id.toNat + 1 < UInt64.size := by omega
    rw [Nat.mod_eq_of_lt hsmall] at hsum
    have hzero : id + 1 ≠ 0 := by
      intro hzero
      rw [hzero] at hsum
      exact absurd hsum (Nat.succ_ne_zero _).symm
    rw [if_neg hzero, if_neg hlast, hsum]

/-- `idAt` goes through all ids but zero. -/
theorem toNat_idAt (n : Nat) : (idAt n).toNat = (n + 1) % (UInt64.size - 1) + 1 := by
  induction n with
  | zero => rfl
  | succ n ih =>
    have hstep := toNat_idAfter (idAt n)
    rw [ih] at hstep
    show (idAfter (idAt n)).toNat = _
    rw [hstep]
    simp only [UInt64.size]
    split <;> omega

/-- `idAt` is never zero. -/
theorem idAt_ne_zero (n : Nat) : idAt n ≠ 0 := by
  intro hzero
  have hpositive := toNat_idAt n
  rw [hzero] at hpositive
  exact absurd hpositive (Nat.succ_ne_zero _).symm

/-- `idAt` is injective within `2 ^ 64 - 1` turns. -/
theorem idAt_inj {i j : Nat} (hle : i ≤ j) (hround : j < i + (UInt64.size - 1))
    (h : idAt i = idAt j) : i = j := by
  -- As numbers the ids go round in a circle of all but zero.
  have hnat := congrArg UInt64.toNat h
  rw [toNat_idAt, toNat_idAt] at hnat
  simp only [UInt64.size] at hround hnat
  omega

/-- So from whichever turn on, no id comes back before all of them have been given. -/
theorem nodup_range'_idAt (k : Nat) {n : Nat} (h : n < UInt64.size) :
    ((List.range' k n).map idAt).Nodup := by
  refine List.Nodup.map_on ?_ List.nodup_range'
  intro i hi j hj hsame
  have hi := List.mem_range'_1.1 hi
  have hj := List.mem_range'_1.1 hj
  rcases Nat.le_total i j with hle | hle
  · exact idAt_inj hle (by omega) hsame
  · exact (idAt_inj hle (by omega) hsame.symm).symm

theorem nodup_idAt {n : Nat} (h : n < UInt64.size) : ((List.range n).map idAt).Nodup := by
  rw [List.range_eq_range']
  exact nodup_range'_idAt 0 h

/-- The ids between two others follow each other by `idAt` as well. -/
theorem eq_idAt_of_append {k n : Nat} {before window after : List UInt64}
    (h : (List.range' k n).map idAt = before ++ window ++ after) :
    window = (List.range' (k + before.length) window.length).map idAt := by
  -- The range of places falls apart where the row of ids does.
  obtain ⟨upTo, rest, hsplit, hupTo, -⟩ := List.map_eq_append_iff.1 h
  obtain ⟨j, -, rfl, -⟩ := List.range'_eq_append_iff.1 hsplit
  obtain ⟨front, back, hrange, rfl, rfl⟩ := List.map_eq_append_iff.1 hupTo
  obtain ⟨i, hij, rfl, rfl⟩ := List.range'_eq_append_iff.1 hrange
  simp only [List.length_map, List.length_range', Nat.mul_one]

/-- `initRequestId` is the last one to be given. -/
theorem idAt_ne_initRequestId {n : Nat} (h : n < UInt64.size - 2) :
    idAt n ≠ Handshake.initRequestId := by
  intro hinit
  have hnat := congrArg UInt64.toNat hinit
  rw [toNat_idAt] at hnat
  have hone : Handshake.initRequestId.toNat = 1 := rfl
  simp only [UInt64.size] at h hnat
  omega

/-! ## Sending under an id -/

variable {c : Connection} {m : Message}

/-- `takeId` concerns nothing but `nextId`. -/
theorem takeId_snd (c : Connection) (m : Message) :
    (c.takeId m).2 = { c with nextId := (c.takeId m).2.nextId } := by
  unfold takeId
  split <;> rfl

theorem takeId_of_zero (h : m.envelope.requestId = 0) :
    c.takeId m = (c.nextId, { c with nextId := idAfter c.nextId }) := if_pos h

theorem takeId_of_ne_zero (h : m.envelope.requestId ≠ 0) :
    c.takeId m = (m.envelope.requestId, c) := if_neg h

theorem takeId_ne_zero (h : c.nextId ≠ 0) : (c.takeId m).1 ≠ 0 := by
  by_cases hown : m.envelope.requestId = 0
  · rwa [takeId_of_zero hown]
  · rwa [takeId_of_ne_zero hown]

end Connection

end Storefront
