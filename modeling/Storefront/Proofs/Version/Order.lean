import Mathlib.Data.List.Forall2
import Mathlib.Data.List.Zip
import Mathlib.Order.Basic
import Storefront.Version.Record

/-! # The order of version records

Version records are ordered component by component: one is at most another when none of its
components is above the matching one.  The comparison goes over the components once and remembers
which of the two has been behind so far; it gives up as soon as each has been.

* `Standing`               the four ways in which two runs of components can stand
* `standing_compareFrom`   the comparison finds out which it is, for any number of components
* `compare_componentwise`  so records are compared by a partial order
-/

namespace Storefront

namespace VersionRecord

variable {family : Family} {as bs : List UInt32} {a b : UInt32} {order : Ordering}

/-! ## Runs of components -/

/-- No component of the first run is above the matching one of the second. -/
def AtMost (as bs : List UInt32) : Prop := List.Forall₂ (· ≤ ·) as bs

/-- Some component of the first run is above the matching one of the second. -/
def Above (as bs : List UInt32) : Prop := ∃ p ∈ as.zip bs, p.2 < p.1

/-- `AtMost` is having one length and not being `Above`. -/
theorem atMost_iff : AtMost as bs ↔ as.length = bs.length ∧ ¬ Above as bs := by
  rw [AtMost, List.forall₂_iff_zip]
  simp [Above]

/-- `AtMost` excludes `Above`. -/
theorem AtMost.not_above (h : AtMost as bs) : ¬ Above as bs := (atMost_iff.1 h).2

theorem atMost_refl (as : List UInt32) : AtMost as as := List.forall₂_refl as

/-- `AtMost` is transitive, component by component. -/
theorem AtMost.trans {cs : List UInt32} (h : AtMost as bs) (h' : AtMost bs cs) : AtMost as cs := by
  -- By induction on the runs; the third is taken apart along with them.
  induction h generalizing cs with
  | nil => exact h'
  | cons hab _ ih =>
    cases h' with
    | cons hbc hrest => exact .cons (UInt32.le_trans hab hbc) (ih hrest)

/-- `AtMost` is antisymmetric, component by component. -/
theorem AtMost.antisymm (h : AtMost as bs) (h' : AtMost bs as) : as = bs := by
  induction h with
  | nil => rfl
  | cons hab _ ih =>
    cases h' with
    | cons hba hrest => rw [UInt32.le_antisymm hab hba, ih hrest]

theorem AtMost.cons (hab : a ≤ b) (h : AtMost as bs) : AtMost (a :: as) (b :: bs) :=
  List.Forall₂.cons hab h

theorem above_cons (h : b < a) : Above (a :: as) (b :: bs) := ⟨(a, b), List.mem_cons_self, h⟩

theorem Above.cons (h : Above as bs) (a b : UInt32) : Above (a :: as) (b :: bs) := by
  obtain ⟨p, hp, hlt⟩ := h
  exact ⟨p, List.mem_cons_of_mem _ hp, hlt⟩

/-- `Above` is irreflexive. -/
theorem Above.ne (h : Above as bs) : as ≠ bs := by
  rintro rfl
  exact (atMost_refl as).not_above h

/-- `Above` seen from the other run. -/
theorem above_iff_exists_lt : Above bs as ↔ ∃ p ∈ as.zip bs, p.1 < p.2 := by
  -- Zipping the other way round swaps the pairs.
  rw [Above, ← List.zip_swap as bs]
  constructor
  · rintro ⟨p, hp, hlt⟩
    obtain ⟨q, hq, rfl⟩ := List.mem_map.1 hp
    exact ⟨q, hq, hlt⟩
  · rintro ⟨q, hq, hlt⟩
    exact ⟨q.swap, List.mem_map_of_mem hq, hlt⟩

/-- How two runs of components stand, and the answer that says so. -/
inductive Standing : List UInt32 → List UInt32 → Option Ordering → Prop
  | same (as : List UInt32) : Standing as as (some .eq)
  | behind {as bs : List UInt32} (h : AtMost as bs) (hother : Above bs as) :
    Standing as bs (some .lt)
  | ahead {as bs : List UInt32} (h : AtMost bs as) (hother : Above as bs) :
    Standing as bs (some .gt)
  | mixed {as bs : List UInt32} (h : Above as bs) (hother : Above bs as) : Standing as bs none

/-! ## One pass over them -/

theorem compareFrom_self (order : Ordering) (a : UInt32) (as bs : List UInt32) :
    compareFrom order (a :: as) (a :: bs) = compareFrom order as bs := by
  simp [compareFrom]

/-- A component that is behind gives up from `.gt`, and goes on in `.lt` otherwise. -/
theorem compareFrom_of_lt (h : a < b) (order : Ordering) (as bs : List UInt32) :
    compareFrom order (a :: as) (b :: bs) =
      if order = .gt then none else compareFrom .lt as bs := by
  have hhere : Ord.compare a.toNat b.toNat = .lt := Nat.compare_eq_lt.2 h
  cases order <;> simp [compareFrom, hhere]

/-- A component that is ahead gives up from `.lt`, and goes on in `.gt` otherwise. -/
theorem compareFrom_of_gt (h : b < a) (order : Ordering) (as bs : List UInt32) :
    compareFrom order (a :: as) (b :: bs) =
      if order = .lt then none else compareFrom .gt as bs := by
  have hhere : Ord.compare a.toNat b.toNat = .gt := Nat.compare_eq_gt.2 h
  cases order <;> simp [compareFrom, hhere]

/-- `compareFrom` when behind so far: behind as a whole as long as no component is above. -/
theorem compareFrom_lt (hlength : as.length = bs.length) :
    compareFrom .lt as bs = some .lt ∧ AtMost as bs ∨
      compareFrom .lt as bs = none ∧ Above as bs := by
  induction as generalizing bs with
  | nil =>
    obtain rfl : bs = [] := List.eq_nil_of_length_eq_zero hlength.symm
    exact .inl ⟨rfl, atMost_refl []⟩
  | cons a as ih =>
    obtain ⟨b, bs, rfl⟩ := List.exists_cons_of_length_eq_add_one hlength.symm
    have hmore := ih (Nat.succ.inj hlength)
    -- Only a component that is above ends the pass; the others leave things as they are.
    rcases Std.lt_trichotomy a b with hab | rfl | hab
    · rw [compareFrom_of_lt hab, if_neg (by decide)]
      exact hmore.imp (And.imp_right (.cons (UInt32.le_of_lt hab))) (And.imp_right (·.cons a b))
    · rw [compareFrom_self]
      exact hmore.imp (And.imp_right (.cons (UInt32.le_refl a))) (And.imp_right (·.cons a a))
    · rw [compareFrom_of_gt hab, if_pos rfl]
      exact .inr ⟨rfl, above_cons hab⟩

/-- `compareFrom` the other way round gives the other answer. -/
theorem compareFrom_swap (order : Ordering) (as bs : List UInt32) :
    compareFrom order.swap bs as = (compareFrom order as bs).map Ordering.swap := by
  -- By induction over both runs for any state: the states swap places as the components do.
  induction as generalizing order bs with
  | nil => cases bs <;> simp [compareFrom]
  | cons a as ih =>
    cases bs with
    | nil => simp [compareFrom]
    | cons b bs =>
      rcases Std.lt_trichotomy a b with hab | rfl | hab
      · have hmore := ih .lt bs
        rw [compareFrom_of_lt hab, compareFrom_of_gt hab]
        -- A state that gives up does so in either order.
        cases order <;> simp_all
      · rw [compareFrom_self, compareFrom_self, ih]
      · have hmore := ih .gt bs
        rw [compareFrom_of_gt hab, compareFrom_of_lt hab]
        cases order <;> simp_all

/-- `compareFrom` when ahead so far: ahead as a whole as long as no component is below. -/
theorem compareFrom_gt (hlength : as.length = bs.length) :
    compareFrom .gt as bs = some .gt ∧ AtMost bs as ∨
      compareFrom .gt as bs = none ∧ Above bs as := by
  -- The mirror image of `compareFrom_lt`.
  have hswap : compareFrom .gt as bs = (compareFrom .lt bs as).map Ordering.swap :=
    compareFrom_swap .lt bs as
  rw [hswap]
  rcases compareFrom_lt hlength.symm with ⟨hlt, h⟩ | ⟨hnone, h⟩
  · exact .inl ⟨by rw [hlt]; rfl, h⟩
  · exact .inr ⟨by rw [hnone]; rfl, h⟩

/-- `Standing` with the same component in front. -/
theorem Standing.cons {answer : Option Ordering} (h : Standing as bs answer) (a : UInt32) :
    Standing (a :: as) (a :: bs) answer := by
  cases h with
  | same => exact .same _
  | behind h hother => exact .behind (h.cons (UInt32.le_refl a)) (hother.cons a a)
  | ahead h hother => exact .ahead (h.cons (UInt32.le_refl a)) (hother.cons a a)
  | mixed h hother => exact .mixed (h.cons a a) (hother.cons a a)

/-- `compareFrom` answers the `Standing` of two runs of any one length. -/
theorem standing_compareFrom (hlength : as.length = bs.length) :
    Standing as bs (compareFrom .eq as bs) := by
  -- The first component that differs settles who may still be behind in the others.
  induction as generalizing bs with
  | nil =>
    obtain rfl : bs = [] := List.eq_nil_of_length_eq_zero hlength.symm
    exact .same []
  | cons a as ih =>
    obtain ⟨b, bs, rfl⟩ := List.exists_cons_of_length_eq_add_one hlength.symm
    have hmore : as.length = bs.length := Nat.succ.inj hlength
    rcases Std.lt_trichotomy a b with hab | rfl | hab
    · rw [compareFrom_of_lt hab, if_neg (by decide)]
      -- Behind here, so one component above is enough for `mixed`.
      rcases compareFrom_lt hmore with ⟨hlt, h⟩ | ⟨hnone, h⟩
      · rw [hlt]
        exact .behind (h.cons (UInt32.le_of_lt hab)) (above_cons hab)
      · rw [hnone]
        exact .mixed (h.cons a b) (above_cons hab)
    · rw [compareFrom_self]
      exact (ih hmore).cons a
    · rw [compareFrom_of_gt hab, if_neg (by decide)]
      -- Ahead here, and the other way round.
      rcases compareFrom_gt hmore with ⟨hgt, h⟩ | ⟨hnone, h⟩
      · rw [hgt]
        exact .ahead (h.cons (UInt32.le_of_lt hab)) (above_cons hab)
      · rw [hnone]
        exact .mixed (above_cons hab) (h.cons b a)

namespace Standing

variable {answer : Option Ordering}

/-- The answer is `.eq` for the same runs only. -/
theorem eq_iff (h : Standing as bs answer) : answer = some .eq ↔ as = bs := by
  cases h with
  | same => simp
  | behind h hother => simpa using hother.ne.symm
  | ahead h hother => simpa using hother.ne
  | mixed h hother => simpa using h.ne

/-- The answer is `.lt` for a run that is at most the other one, and not it. -/
theorem lt_iff (h : Standing as bs answer) : answer = some .lt ↔ AtMost as bs ∧ as ≠ bs := by
  cases h with
  | same => simp
  | behind h hother => simpa using ⟨h, hother.ne.symm⟩
  | ahead h hother => simpa using fun hle => absurd hother hle.not_above
  | mixed h hother => simpa using fun hle => absurd h hle.not_above

/-- `Standing` has no answer when each run is above the other somewhere. -/
theorem none_iff (h : Standing as bs answer) : answer = none ↔ Above as bs ∧ Above bs as := by
  cases h with
  | same => simpa using fun h => absurd h (atMost_refl as).not_above
  | behind h hother => simpa using fun habove => absurd habove h.not_above
  | ahead h hother => simpa using fun _ => h.not_above
  | mixed h hother => simp [h, hother]

end Standing

/-! ## Records -/

theorem length_components (r : VersionRecord family) :
    r.components.length = family.features.length + 1 := by
  rw [components, List.length_cons, r.length_counters]

theorem components_inj {a b : VersionRecord family} : a.components = b.components ↔ a = b := by
  cases a
  cases b
  simp [components]

/-- A record is at most another when none of its components is above the matching one. -/
instance : PartialOrder (VersionRecord family) where
  le a b := AtMost a.components b.components
  le_refl a := atMost_refl a.components
  le_trans _ _ _ := AtMost.trans
  le_antisymm _ _ hab hba := components_inj.1 (hab.antisymm hba)

theorem le_def {a b : VersionRecord family} : a ≤ b ↔ AtMost a.components b.components := Iff.rfl

/-- `compare` says how the components of two records stand. -/
theorem standing_compare (a b : VersionRecord family) :
    Standing a.components b.components (compare a b) := by
  apply standing_compareFrom
  -- Records of one family have as many components.
  rw [length_components, length_components]

theorem compare_swap (a b : VersionRecord family) :
    compare b a = (compare a b).map Ordering.swap :=
  compareFrom_swap .eq a.components b.components

theorem compare_eq_some_lt {a b : VersionRecord family} :
    compare a b = some .lt ↔ a ≤ b ∧ a ≠ b := by
  rw [(standing_compare a b).lt_iff, le_def, ne_eq, components_inj]

/-- `compare` answers `.eq` for the same record only. -/
theorem compare_eq_some_eq {a b : VersionRecord family} : compare a b = some .eq ↔ a = b := by
  rw [(standing_compare a b).eq_iff, components_inj]

/-- `isSatisfiedBy` is the order, since it takes `.lt` and `.eq`. -/
theorem isSatisfiedBy_iff {a b : VersionRecord family} : a.isSatisfiedBy b ↔ a ≤ b := by
  -- `isSatisfiedBy` looks at the answer of `compare` only.
  have hbehind : a.isSatisfiedBy b ↔ compare a b = some .lt ∨ compare a b = some .eq := by
    unfold isSatisfiedBy
    split <;> simp_all
  rw [hbehind, compare_eq_some_lt, compare_eq_some_eq]
  constructor
  · rintro (⟨hle, -⟩ | rfl)
    · exact hle
    · exact le_refl a
  · intro hle
    by_cases hab : a = b
    · exact .inr hab
    · exact .inl ⟨hle, hab⟩

/-- `compare` goes over the `components` of two records, the revision and every counter.  It
answers `.eq` when all of these are the same, `.lt` when none of the first is above its match and
the records differ, `.gt` the other way round, and `none` when each is above the other somewhere.
So `isSatisfiedBy` is the partial order of the components.  `compareFrom` does this for runs of any
one length. -/
theorem compare_componentwise :
    (∀ as bs : List UInt32, as.length = bs.length → Standing as bs (compareFrom .eq as bs)) ∧
    ∀ {family : Family} (a b c : VersionRecord family),
      (compare a b = some .eq ↔ a = b) ∧
      (compare a b = some .lt ↔ List.Forall₂ (· ≤ ·) a.components b.components ∧ a ≠ b) ∧
      (compare a b = some .gt ↔ compare b a = some .lt) ∧
      (compare a b = none ↔
        (∃ p ∈ a.components.zip b.components, p.2 < p.1) ∧
          ∃ p ∈ a.components.zip b.components, p.1 < p.2) ∧
      compare a a = some .eq ∧
      (a.isSatisfiedBy b → b.isSatisfiedBy a → a = b) ∧
      (a.isSatisfiedBy b → b.isSatisfiedBy c → a.isSatisfiedBy c) ∧
      (compare a b = some .lt → compare b c = some .lt → compare a c = some .lt) ∧
      (a.isSatisfiedBy b ↔ List.Forall₂ (· ≤ ·) a.components b.components) := by
  refine ⟨fun _ _ => standing_compareFrom, ?_⟩
  intro family a b c
  refine ⟨compare_eq_some_eq, compare_eq_some_lt, ?greater, ?mixed, compare_eq_some_eq.2 rfl,
    ?antisymmetric, ?transitive, ?strict, isSatisfiedBy_iff⟩
  case greater =>
    rw [compare_swap a b, Option.map_eq_some_iff]
    constructor
    · intro h
      exact ⟨.gt, h, rfl⟩
    · -- Only `.lt` comes from swapping `.gt`.
      rintro ⟨order, horder, hswap⟩
      cases order with
      | gt => exact horder
      | lt | eq => cases hswap
  case mixed =>
    have hsmaller : Above b.components a.components ↔
        ∃ p ∈ a.components.zip b.components, p.1 < p.2 := above_iff_exists_lt
    rw [(standing_compare a b).none_iff, hsmaller]
    rfl
  case antisymmetric =>
    intro hab hba
    exact le_antisymm (isSatisfiedBy_iff.1 hab) (isSatisfiedBy_iff.1 hba)
  case transitive =>
    intro hab hbc
    exact isSatisfiedBy_iff.2 (le_trans (isSatisfiedBy_iff.1 hab) (isSatisfiedBy_iff.1 hbc))
  case strict =>
    intro hab hbc
    -- Being less is what it is in any partial order.
    rw [compare_eq_some_lt, ← lt_iff_le_and_ne] at *
    exact lt_trans hab hbc

/-- A core record that is behind this build's own in one feature. -/
def olderRecord : VersionRecord .core := .ofCounters .core 1 [1, 0, 1, 1]

/-- A core record that is ahead of it in two, the last of them unsupported. -/
def newerRecord : VersionRecord .core := .ofCounters .core 1 [2, 1, 1, unsupported]

/-- `compare` and `isSatisfiedBy` of three core records in a row, and of two that cannot
be compared. -/
theorem compare_componentwise_core :
    (olderRecord.isSatisfiedBy (ofLocal .core) = true ∧
      (ofLocal .core).isSatisfiedBy newerRecord = true ∧
      olderRecord.isSatisfiedBy newerRecord = true) ∧
    compare olderRecord newerRecord = some .lt ∧
    compare (ofCounters .core 1 [2, 0, 1, 1]) (ofLocal .core) = none ∧
    ([2, 0, 1] : List UInt32).length = ([1, 1, 1] : List UInt32).length ∧
    Standing [2, 0, 1] [1, 1, 1] none := by
  obtain ⟨hruns, h⟩ := compare_componentwise
  -- The records satisfy one another in a row, so the first satisfies the third.
  have hbelow : olderRecord.isSatisfiedBy (ofLocal .core) = true := by decide
  have habove : (ofLocal .core).isSatisfiedBy newerRecord = true := by decide
  obtain ⟨-, -, -, -, -, -, htrans, hstrict, -⟩ := h olderRecord (ofLocal .core) newerRecord
  obtain ⟨-, -, -, hmixed, -⟩ := h (ofCounters .core 1 [2, 0, 1, 1]) (ofLocal .core) newerRecord
  have hstanding : Standing [2, 0, 1] [1, 1, 1] none := hruns [2, 0, 1] [1, 1, 1] rfl
  exact ⟨⟨hbelow, habove, htrans hbelow habove⟩, hstrict (by decide) (by decide),
    hmixed.2 ⟨⟨(2, 1), by decide⟩, ⟨(0, 1), by decide⟩⟩, rfl, hstanding⟩

end VersionRecord

end Storefront
