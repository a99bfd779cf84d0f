import Storefront.Wire.Error

/-! # Byte sources

A source is the list of what its reads will meet: octets that have arrived, failures, and ends of
input.  One read hands out octets of a single arrival only, so a source also fixes how its octets
are split.  A source that has nothing more to tell is at its end for good.

* `read_size_lt`  a read that hands out octets or fails leaves a smaller source
-/

namespace Storefront

/-- What the reads of a source meet. -/
inductive Arrival where
  /-- Octets, of which one read hands out at most `most` if that is given. -/
  | octets (bs : Bytes) (most : Option Nat)
  /-- A read that fails. -/
  | fault (fault : IoFault)
  /-- A read that hands out nothing. -/
  | nothing
  deriving DecidableEq, Repr

/-- A source of octets, described by what its reads will meet. -/
abbrev Source := List Arrival

namespace Source

/-- A source whose octets have all arrived. -/
def ofBytes (bs : Bytes) : Source := [.octets bs none]

/-- A measure that every read with an effect makes smaller. -/
def size : Source → Nat
  | [] => 0
  | .octets bs _ :: rest => bs.length + 1 + size rest
  | _ :: rest => 1 + size rest

/-- All octets that are still to be read. -/
def octets : Source → Bytes
  | [] => []
  | .octets bs _ :: rest => bs ++ octets rest
  | _ :: rest => octets rest

/-- What is left of a source whose current arrival has `bs` left. -/
def resume (bs : Bytes) (most : Option Nat) (rest : Source) : Source :=
  if bs.isEmpty then rest else .octets bs most :: rest

theorem size_resume_le (bs : Bytes) (most : Option Nat) (rest : Source) :
    size (resume bs most rest) ≤ bs.length + 1 + size rest := by
  unfold resume
  split
  · omega
  · simp [size]

/-- Reads up to `room` octets.  No octets mean the end. -/
def read (room : Nat) : Source → Except IoFault Bytes × Source
  | [] => (.ok [], [])
  -- An arrival without octets is not the end of input; the read goes on behind it.
  | .octets [] _ :: rest => read room rest
  | .octets (b :: bs) most :: rest =>
    -- What follows this arrival is left to the next read, even if there is room for it.
    let n := min room (most.getD room)
    (.ok ((b :: bs).take n), resume ((b :: bs).drop n) most rest)
  | .fault f :: rest => (.error f, rest)
  | .nothing :: rest => (.ok [], rest)

theorem read_size_le (room : Nat) (s : Source) : (s.read room).2.size ≤ s.size := by
  fun_induction read room s with
  | case1 => exact Nat.le_refl _
  | case2 most rest ih => simp only [size]; omega
  | case3 c cs most rest n =>
    have := size_resume_le ((c :: cs).drop n) most rest
    simp only [List.length_drop, List.length_cons] at this
    simp only [size, List.length_cons]
    omega
  | case4 => simp [size]
  | case5 => simp [size]

theorem read_size_of_ok {room : Nat} {s s' : Source} {b : UInt8} {bs : Bytes}
    (h : s.read room = (.ok (b :: bs), s')) : s'.size < s.size := by
  fun_induction read room s with
  | case1 => simp at h
  | case2 most rest ih => have := ih h; simp only [size]; omega
  | case3 c cs most rest n =>
    simp only [Prod.mk.injEq, Except.ok.injEq] at h
    obtain ⟨ht, rfl⟩ := h
    have hn : 0 < n := by
      rcases Nat.eq_zero_or_pos n with h0 | h0
      · simp [h0] at ht
      · exact h0
    have := size_resume_le ((c :: cs).drop n) most rest
    simp only [List.length_drop, List.length_cons] at this
    simp only [size, List.length_cons]
    omega
  | case4 => simp at h
  | case5 => simp at h

theorem read_size_add {room : Nat} {s s' : Source} {b : UInt8} {bs : Bytes}
    (h : s.read room = (.ok (b :: bs), s')) : s'.size + (b :: bs).length ≤ s.size := by
  fun_induction read room s with
  | case1 => simp at h
  | case2 most rest ih => have := ih h; simp only [size]; omega
  | case3 c cs most rest n =>
    simp only [Prod.mk.injEq, Except.ok.injEq] at h
    obtain ⟨ht, rfl⟩ := h
    have := size_resume_le ((c :: cs).drop n) most rest
    have hl := congrArg List.length ht
    simp only [List.length_drop, List.length_take, List.length_cons] at this hl
    simp only [size, List.length_cons]
    omega
  | case4 => simp at h
  | case5 => simp at h

theorem read_size_of_error {room : Nat} {s s' : Source} {f : IoFault}
    (h : s.read room = (.error f, s')) : s'.size < s.size := by
  fun_induction read room s with
  | case1 => simp at h
  | case2 most rest ih => have := ih h; simp only [size]; omega
  | case3 => simp at h
  | case4 f rest =>
    simp only [Prod.mk.injEq, Except.error.injEq] at h
    obtain ⟨-, rfl⟩ := h
    simp [size]
  | case5 => simp at h

end Source

end Storefront
