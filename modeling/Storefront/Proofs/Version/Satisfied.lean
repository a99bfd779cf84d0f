import Storefront.Proofs.Version.Normal
import Storefront.Proofs.Version.Order

/-! # What a cleared record satisfies

Clearing sets every counter to the mark of an unsupported feature, and as a number that mark is above
all others.  So a cleared record is the greatest of its revision: it satisfies every requirement of
the same revision or an earlier one, and with it does every peer that is newer than this build.  What
tells such a peer apart is that its record is not supported, and that no feature in it has a counter
that a message could ask for.

* `le_clear_iff`, `clear_le_iff`   where a cleared record stands among the others
* `exists_clear_of_newer`          a newer record is read as a cleared one
* `newer_satisfies_iff`            which requirements a newer peer satisfies
* `newer_satisfies_local`          it satisfies those of this build
-/

namespace Storefront

namespace VersionRecord

variable {family : Family} {as bs cs : List UInt32} {a b : UInt32}

/-! ## Cleared records -/

/-- The mark of an unsupported feature, `u32::MAX`, is above every counter. -/
theorem le_unsupported (c : UInt32) : c ≤ unsupported :=
  UInt32.le_iff_toNat_le.2 (Nat.le_of_lt_succ c.toNat_lt)

/-- `unsupported` is at most itself only. -/
theorem unsupported_le_iff {c : UInt32} : unsupported ≤ c ↔ c = unsupported := by
  constructor
  · intro h
    exact UInt32.le_antisymm (le_unsupported c) h
  · rintro rfl
    exact UInt32.le_refl unsupported

/-- `AtMost` compares the first counters and then the others. -/
theorem atMost_cons_iff : AtMost (a :: as) (b :: bs) ↔ a ≤ b ∧ AtMost as bs := List.forall₂_cons

/-- Any counters are `AtMost` as many that are `unsupported`. -/
theorem atMost_unsupported (h : as.length = bs.length) :
    AtMost as (bs.map fun _ => unsupported) := by
  induction as generalizing bs with
  | nil =>
    obtain rfl : bs = [] := List.eq_nil_of_length_eq_zero h.symm
    exact atMost_refl []
  | cons a as ih =>
    obtain ⟨b, bs, rfl⟩ := List.exists_cons_of_length_eq_add_one h.symm
    exact (ih (Nat.succ.inj h)).cons (le_unsupported a)

/-- Counters that are `unsupported` are `AtMost` such ones only. -/
theorem unsupported_atMost_iff (h : as.length = bs.length) :
    AtMost (as.map fun _ => unsupported) bs ↔ ∀ c ∈ bs, c = unsupported := by
  induction bs generalizing as with
  | nil =>
    obtain rfl : as = [] := List.eq_nil_of_length_eq_zero h
    simpa using atMost_refl []
  | cons b bs ih =>
    obtain ⟨a, as, rfl⟩ := List.exists_cons_of_length_eq_add_one h
    rw [List.map_cons, atMost_cons_iff, unsupported_le_iff, ih (Nat.succ.inj h),
      List.forall_mem_cons]

/-- `isCleared` looks at every counter. -/
theorem isCleared_iff {r : VersionRecord family} :
    r.isCleared ↔ ∀ c ∈ r.counters, c = unsupported := by
  simp [isCleared]

theorem length_counters_eq (r r' : VersionRecord family) :
    r.counters.length = r'.counters.length := by
  rw [r.length_counters, r'.length_counters]

/-- `clear` of a record is the greatest of its revision. -/
theorem le_clear_iff {r o : VersionRecord family} : r ≤ o.clear ↔ r.version ≤ o.version := by
  have hcounters := atMost_unsupported (r.length_counters_eq o)
  rw [le_def, components_clear, components, atMost_cons_iff, and_iff_left hcounters]

/-- Above it there are records with `isCleared` only. -/
theorem clear_le_iff {r o : VersionRecord family} :
    o.clear ≤ r ↔ o.version ≤ r.version ∧ r.isCleared := by
  rw [le_def, components_clear, components, atMost_cons_iff, isCleared_iff,
    unsupported_atMost_iff (o.length_counters_eq r)]

/-- `counter?` of a feature is one of the `counters`. -/
theorem mem_counters_of_counter? {r : VersionRecord family} {feature : String} {c : UInt32}
    (h : r.counter? feature = some c) : c ∈ r.counters := by
  obtain ⟨front, back, hsplit, -⟩ := List.lookup_eq_some_iff.1 h
  -- `counter?` is a lookup among `namedCounters`, which pair features and counters in order.
  have hmem : (feature, c) ∈ family.features.zip r.counters := by
    rw [← namedCounters, hsplit]
    simp
  exact (List.of_mem_zip hmem).2

/-- `counter?` of a cleared record is below `unsupported` for no feature. -/
theorem counter?_ne_of_isCleared {r : VersionRecord family} (h : r.isCleared) (feature : String)
    {c : UInt32} (hc : c < unsupported) : r.counter? feature ≠ some c := by
  intro hcounter
  have hmark : c = unsupported := isCleared_iff.1 h c (mem_counters_of_counter? hcounter)
  exact UInt32.ne_of_lt hc hmark

/-! ## Newer peers -/

variable {ctx : Context} {body : Bytes} {index : FieldIndex} {r₀ : VersionRecord family}
variable {v : UInt32}

/-- `decode` of a body that gives a newer revision succeeds, whatever else is in it, and makes a
cleared record. -/
theorem exists_clear_of_newer (hindex : (recordType family).index body = .ok index)
    (hv : index.Gives 1 r₀.version v) (hnewer : localMax < v) :
    ∃ o : VersionRecord family, (recordType family).decode ctx body r₀.toFields =
      (o.clear.toFields, .ok ()) ∧ o.version = v := by
  refine ⟨r₀.withVersion v, ?_, rfl⟩
  rw [RecordType.decode, hindex]
  exact decodeIndexed_of_newer hv hnewer

/-- Of a newer peer no feature is taken as supported: `isSupported` is false of its record, and
`counter?` gives no counter that a message may ask for.  But as far as `isSatisfiedBy` goes it
satisfies every requirement of its revision and of those before, which are all that this build
can state, and satisfies none itself but those that ask for nothing and are of its revision or a
later one. -/
theorem newer_satisfies_iff (family : Family) (ctx : Context) (body : Bytes) (index : FieldIndex)
    (r₀ : VersionRecord family) (v : UInt32) (hindex : (recordType family).index body = .ok index)
    (hv : index.Gives 1 r₀.version v) (hnewer : localMax < v) :
    ∃ o : VersionRecord family,
      (recordType family).decode ctx body r₀.toFields = (o.toFields, .ok ()) ∧
      o.version = v ∧ o.isCleared ∧ o.isSupported = false ∧
      (∀ feature c, c < unsupported → o.counter? feature ≠ some c) ∧
      ∀ r : VersionRecord family,
        (r.isSatisfiedBy o ↔ r.version ≤ v) ∧
        (o.isSatisfiedBy r ↔ v ≤ r.version ∧ r.isCleared) := by
  obtain ⟨o, hdecode, rfl⟩ := exists_clear_of_newer hindex hv hnewer
  have hcleared : o.clear.isCleared = true := isCleared_clear o
  refine ⟨o.clear, hdecode, rfl, hcleared, isSupported_clear o, ?_, ?_⟩
  · -- No feature has a counter below the mark.
    intro feature c hc
    exact counter?_ne_of_isCleared hcleared feature hc
  · intro r
    constructor
    · rw [isSatisfiedBy_iff, le_clear_iff]
    · rw [isSatisfiedBy_iff, clear_le_iff]

/-- A core record of a newer revision, as it is left once it has been read. -/
def newerPeer : VersionRecord .core := .ofCounters .core 2 []

/-- Octets that give this revision and nothing else. -/
def newerBody : Bytes := [8, 2]

/-- `newerBody` is what is written of `newerPeer`. -/
theorem index_newerBody : (recordType .core).index newerBody = .ok newerPeer.written := by
  have hbody : newerBody = newerPeer.written.flatMap RawField.octets := by decide
  rw [hbody, index_written]

/-- The record read from `newerBody` satisfies a requirement on features of which it has none. -/
theorem newer_satisfies_iff_core :
    ((recordType .core).index newerBody = .ok newerPeer.written ∧
      newerPeer.written.Gives 1 (ofLocal .core).version 2 ∧ localMax < 2) ∧
    ∃ o : VersionRecord .core,
      (recordType .core).decode .empty newerBody (ofLocal .core).toFields = (o.toFields, .ok ()) ∧
      o.isSupported = false ∧ o.counter? "response" ≠ some 1 ∧
      (ofCounters .core 2 [7, 9, 1, 1]).isSatisfiedBy o = true ∧
      o.isSatisfiedBy (ofCounters .core 2 [7, 9, 1, 1]) = false := by
  have hv := gives_written newerPeer (ofLocal .core)
  have hnewer : localMax < 2 := by decide
  obtain ⟨o, hdecode, -, -, hsupported, hcounters, hall⟩ :=
    newer_satisfies_iff .core .empty newerBody _ (ofLocal .core) 2 index_newerBody hv hnewer
  obtain ⟨hsatisfied, hsatisfies⟩ := hall (ofCounters .core 2 [7, 9, 1, 1])
  refine ⟨⟨index_newerBody, hv, hnewer⟩, o, hdecode, hsupported, hcounters _ 1 (by decide),
    hsatisfied.2 (by decide), ?_⟩
  rw [Bool.eq_false_iff, ne_eq, hsatisfies]
  decide

/-- A newer peer, of which no feature can be taken as supported, satisfies `ofLocal`, what this
build asks for, all the same: `isSatisfiedBy` compares the counters as numbers. -/
theorem newer_satisfies_local :
    (recordType .core).decode .empty newerBody (ofLocal .core).toFields =
        (newerPeer.toFields, .ok ()) ∧
      localMax < newerPeer.version ∧ (∀ c ∈ newerPeer.counters, c = unsupported) ∧
      (∃ c ∈ (ofLocal .core).counters, c < unsupported) ∧
      (ofLocal .core).isSatisfiedBy newerPeer = true := by
  have hv := gives_written newerPeer (ofLocal .core)
  have hnewer : localMax < newerPeer.version := by decide
  have hcleared : newerPeer.isCleared = true := by decide
  have hfirst : (1 : UInt32) ∈ (ofLocal .core).counters := by decide
  have hdecode : (recordType .core).decode .empty newerBody (ofLocal .core).toFields =
      (newerPeer.toFields, .ok ()) := by
    rw [RecordType.decode, index_newerBody]
    exact decodeIndexed_of_newer hv hnewer
  exact ⟨hdecode, hnewer, isCleared_iff.1 hcleared, ⟨1, hfirst, by decide⟩, by decide⟩

end VersionRecord

end Storefront
