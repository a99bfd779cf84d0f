import Mathlib.Data.List.Perm.Basic
import Mathlib.Data.String.Basic
import Storefront.Proofs.Archive.RoundTrip

/-! # Which archives are accepted

What becomes of an archive is settled in order: its kind, then its structural versions, and only
then the record in it (`Verdict`).  So a record of another layout is refused for its versions and
never for its shape, and of several versions that differ the one is reported that is first in the
alphabet.

The document may be spelled in any way (`Describes`).  It is read as a whole before its kind is
looked at, which is why the record in it has to be one that can be held.

* `verdict_of_envelope`   what becomes of an archive once its envelope has been read
* `Verdict.unique`        nothing else does
* `load_verdict`          what this comes to for documents
-/

namespace Storefront

open JsonScan JsonReader JsonGrammar JsonValue

/-! ## What becomes of an archive -/

/-- The version that a list of versions has for a record, which is zero when it has none. -/
def listed (versions : List (String × Nat)) (record : String) : Nat :=
  (versions.lookup record).getD 0

/-- What becomes of an archive with the given kind, versions and record when a record is read. -/
inductive Verdict (r : DomainRecord) (kind : String) (versions : List (String × Nat))
    (value : JsonValue) : Except ArchiveError (List Value) → Prop
  /-- The archive holds another kind of record. -/
  | kind (hkind : kind ≠ r.name) : Verdict r kind versions value (.error (.kind r.name kind))
  /-- Of the records that are expected, this is the first in the alphabet with another version. -/
  | differs {record : String} {version : Nat} (hkind : kind = r.name)
    (hmem : (record, version) ∈ r.versions) (hne : listed versions record ≠ version)
    (hfirst : ∀ x ∈ r.versions, listed versions x.1 ≠ x.2 → record ≤ x.1) :
    Verdict r kind versions value
      (.error (.structuralVersion record version (listed versions record)))
  /-- All of these have their versions, and of the others this is the first in the alphabet. -/
  | surplus {record : String} {found : Nat} (hkind : kind = r.name)
    (hexpected : ∀ x ∈ r.versions, listed versions x.1 = x.2)
    (hmem : (record, found) ∈ versions) (hnew : record ∉ r.versions.map Prod.fst)
    (hfirst : ∀ x ∈ versions, x.1 ∉ r.versions.map Prod.fst → record ≤ x.1) :
    Verdict r kind versions value (.error (.structuralVersion record 0 found))
  /-- The versions are those of the record, and the value is none of it. -/
  | unfit (hkind : kind = r.name) (hversions : versions.Perm r.versions)
    (hvalue : r.type.ofJson? value = none) :
    Verdict r kind versions value (.error (.json .mismatched))
  /-- The versions are those of the record, and the value is one of it. -/
  | loaded (hkind : kind = r.name) (hversions : versions.Perm r.versions) {v : Value}
    (hvalue : r.type.ofJson? value = some v) : Verdict r kind versions value (.ok v.fields)

/-! ## Versions -/

/-- `versions` lists records in the order of the alphabet. -/
theorem DomainRecord.versions_sorted (r : DomainRecord) :
    r.versions.Pairwise (fun x y => x.1 ≤ y.1) := by
  cases r <;> decide +kernel

theorem DomainRecord.version_pos (r : DomainRecord) : ∀ x ∈ r.versions, x.2 ≠ 0 := by
  cases r <;> decide

/-- Where no two versions are of one record, `listed` finds each of them. -/
theorem listed_of_mem {versions : List (String × Nat)} (h : (versions.map Prod.fst).Nodup)
    {x : String × Nat} (hx : x ∈ versions) : listed versions x.1 = x.2 := by
  rw [listed, lookup_of_mem h hx]
  rfl

/-- `Verdict` is a function: only one thing can become of an archive. -/
theorem Verdict.unique {r : DomainRecord} {kind : String} {versions : List (String × Nat)}
    {value : JsonValue} (hnodup : (versions.map Prod.fst).Nodup)
    {x y : Except ArchiveError (List Value)} (hx : Verdict r kind versions value x)
    (hy : Verdict r kind versions value y) : x = y := by
  -- Versions that are those of the record differ nowhere, and none of them is of another record.
  have hagree (hperm : versions.Perm r.versions) : ∀ z ∈ r.versions, listed versions z.1 = z.2 :=
    fun z hz => listed_of_mem hnodup (hperm.mem_iff.2 hz)
  have hknown (hperm : versions.Perm r.versions) : ∀ z ∈ versions, z.1 ∈ r.versions.map Prod.fst :=
    fun z hz => List.mem_map_of_mem (hperm.mem_iff.1 hz)
  cases hx with
  | kind hkind => cases hy <;> first | rfl | contradiction
  | differs hkind hmem hne hfirst =>
    cases hy with
    | kind hkind' => exact absurd hkind hkind'
    | differs _ hmem' hne' hfirst' =>
      obtain rfl := le_antisymm (hfirst _ hmem' hne') (hfirst' _ hmem hne)
      obtain rfl := eq_of_mem_of_nodup r.nodup_versions hmem hmem'
      rfl
    | surplus _ hexpected => exact absurd (hexpected _ hmem) hne
    | unfit _ hperm => exact absurd (hagree hperm _ hmem) hne
    | loaded _ hperm => exact absurd (hagree hperm _ hmem) hne
  | surplus hkind hexpected hmem hnew hfirst =>
    cases hy with
    | kind hkind' => exact absurd hkind hkind'
    | differs _ hmem' hne' => exact absurd (hexpected _ hmem') hne'
    | surplus _ _ hmem' hnew' hfirst' =>
      obtain rfl := le_antisymm (hfirst _ hmem' hnew') (hfirst' _ hmem hnew)
      obtain rfl := eq_of_mem_of_nodup hnodup hmem hmem'
      rfl
    | unfit _ hperm => exact absurd (hknown hperm _ hmem) hnew
    | loaded _ hperm => exact absurd (hknown hperm _ hmem) hnew
  | unfit hkind hperm hvalue =>
    cases hy with
    | kind hkind' => exact absurd hkind hkind'
    | differs _ hmem hne => exact absurd (hagree hperm _ hmem) hne
    | surplus _ _ hmem hnew => exact absurd (hknown hperm _ hmem) hnew
    | unfit => rfl
    | loaded _ _ hvalue' => simp [hvalue] at hvalue'
  | loaded hkind hperm hvalue =>
    cases hy with
    | kind hkind' => exact absurd hkind hkind'
    | differs _ hmem hne => exact absurd (hagree hperm _ hmem) hne
    | surplus _ _ hmem hnew => exact absurd (hknown hperm _ hmem) hnew
    | unfit _ _ hvalue' => simp [hvalue] at hvalue'
    | loaded _ _ hvalue' =>
      obtain rfl := Option.some.inj (hvalue.symm.trans hvalue')
      rfl

namespace ArchiveEnvelope

variable {e : ArchiveEnvelope} {expected : List (String × Nat)}

/-- `version?` takes the last version of a record and `listed` the first, which makes no difference
where no two are of one record. -/
theorem version?_eq (h : (e.versions.map Prod.fst).Nodup) (record : String) :
    (e.version? record).getD 0 = listed e.versions record := by
  rw [version?, listed]
  cases hlookup : e.versions.lookup record with
  | some found =>
    rw [lookup_reverse_of_mem h (mem_of_lookup hlookup)]
  | none =>
    have hreverse : e.versions.reverse.lookup record = none := by
      rw [lookup_eq_none_iff_notMem] at hlookup ⊢
      simpa using hlookup
    rw [hreverse]

/-- `firstName` is one of the names, and none comes before it. -/
theorem firstName_eq_some {names : List String} {name : String} (h : firstName names = some name) :
    name ∈ names ∧ ∀ other ∈ names, name ≤ other := by
  induction names generalizing name with
  | nil => simp [firstName] at h
  | cons first names ih =>
    rw [firstName] at h
    cases hnames : firstName names with
    | none =>
      -- There is only one name.
      obtain rfl := firstName_eq_none hnames
      obtain rfl : first = name := by simpa [hnames] using h
      simp
    | some other =>
      obtain ⟨hmem, hle⟩ := ih hnames
      simp only [hnames, Option.some.injEq] at h
      split at h
      · next hlt =>
        subst h
        exact ⟨List.mem_cons_of_mem _ hmem, List.forall_mem_cons.2 ⟨le_of_lt hlt, hle⟩⟩
      · next hle' =>
        -- The name in front comes first, as it does not come behind the first of the others.
        subst h
        have hfirst : first ≤ other := not_lt.1 hle'
        exact ⟨List.mem_cons_self, List.forall_mem_cons.2
          ⟨le_refl _, fun z hz => le_trans hfirst (hle z hz)⟩⟩

/-- `differing` reports the first of the versions that differ. -/
theorem differing_eq_some {fault : ArchiveError} (hsorted : expected.Pairwise fun x y => x.1 ≤ y.1)
    (h : e.differing expected = some fault) :
    ∃ x ∈ expected, (e.version? x.1).getD 0 ≠ x.2 ∧
      fault = .structuralVersion x.1 x.2 ((e.version? x.1).getD 0) ∧
      ∀ y ∈ expected, (e.version? y.1).getD 0 ≠ y.2 → x.1 ≤ y.1 := by
  induction expected with
  | nil => simp [differing] at h
  | cons x xs ih =>
    obtain ⟨hx, hxs⟩ := List.pairwise_cons.1 hsorted
    rw [differing] at h
    split at h
    · next heq =>
      obtain ⟨y, hy, hne, hfault, hfirst⟩ := ih hxs h
      refine ⟨y, List.mem_cons_of_mem x hy, hne, hfault, fun z hz hne' => ?_⟩
      rcases List.mem_cons.1 hz with rfl | hz
      · exact absurd heq hne'
      · exact hfirst z hz hne'
    · next hne =>
      refine ⟨x, List.mem_cons_self, hne, (Option.some.inj h).symm, fun z hz _ => ?_⟩
      -- What comes later in the list comes later in the alphabet.
      rcases List.mem_cons.1 hz with rfl | hz
      · exact le_refl _
      · exact hx z hz

/-- `surplus` reports the first of the records that are listed and not expected. -/
theorem surplus_eq_some {fault : ArchiveError} (h : e.surplus expected = some fault) :
    ∃ x ∈ e.versions, x.1 ∉ expected.map Prod.fst ∧
      fault = .structuralVersion x.1 0 ((e.version? x.1).getD 0) ∧
      ∀ y ∈ e.versions, y.1 ∉ expected.map Prod.fst → x.1 ≤ y.1 := by
  rw [surplus, Option.map_eq_some_iff] at h
  obtain ⟨name, hname, rfl⟩ := h
  obtain ⟨hmem, hfirst⟩ := firstName_eq_some hname
  simp only [List.mem_filter, Option.isNone_iff_eq_none, lookup_eq_none_iff_notMem] at hmem hfirst
  -- The name is that of a version, as it is taken from their list.
  obtain ⟨x, hx, rfl⟩ := List.mem_map.1 hmem.1
  exact ⟨x, hx, hmem.2, rfl, fun y hy hnew => hfirst y.1 ⟨List.mem_map_of_mem hy, hnew⟩⟩

/-- `versions` are those that are expected, in any order, when each of these is `listed` and no
others are. -/
theorem perm_of_listed {versions : List (String × Nat)} (hnodup : (versions.map Prod.fst).Nodup)
    (hnodup' : (expected.map Prod.fst).Nodup) (hpos : ∀ x ∈ expected, x.2 ≠ 0)
    (hexpected : ∀ x ∈ expected, listed versions x.1 = x.2)
    (hlisted : ∀ x ∈ versions, x.1 ∈ expected.map Prod.fst) : versions.Perm expected := by
  rw [List.perm_ext_iff_of_nodup (List.Nodup.of_map _ hnodup) (List.Nodup.of_map _ hnodup')]
  intro x
  constructor
  · intro hx
    obtain ⟨y, hy, hname⟩ := List.mem_map.1 (hlisted x hx)
    have hversion := hexpected y hy
    rw [hname, listed_of_mem hnodup hx] at hversion
    obtain rfl : y = x := Prod.ext hname hversion.symm
    exact hy
  · intro hx
    have hversion := hexpected x hx
    unfold listed at hversion
    cases hlookup : versions.lookup x.1 with
    | none =>
      -- No version is zero, so it cannot be missing.
      rw [hlookup] at hversion
      exact absurd hversion.symm (hpos x hx)
    | some found =>
      rw [hlookup, Option.getD_some] at hversion
      have hmem := mem_of_lookup hlookup
      rwa [hversion] at hmem

/-- An envelope that passes `check` has the kind and just the versions that are expected. -/
theorem of_check_ok {r : DomainRecord} (h : e.check r = .ok ()) :
    e.kind = r.name ∧ (∀ x ∈ r.versions, (e.version? x.1).getD 0 = x.2) ∧
      ∀ x ∈ e.versions, x.1 ∈ r.versions.map Prod.fst := by
  unfold check at h
  split at h
  · cases h
  · next hkind =>
    cases hdiffering : e.differing r.versions with
    | some fault => simp [hdiffering] at h
    | none =>
      cases hsurplus : e.surplus r.versions with
      | some fault => simp [hdiffering, hsurplus] at h
      | none =>
        -- Neither search has found a version that differs.
        exact ⟨not_not.1 hkind, differing_eq_none_iff.1 hdiffering, surplus_eq_none_iff.1 hsurplus⟩

/-- `check` and `fields` answer the `Verdict` on an envelope that has been read. -/
theorem verdict_of_envelope (r : DomainRecord) (hnodup : (e.versions.map Prod.fst).Nodup) :
    Verdict r e.kind e.versions e.value (do e.check r; e.fields r) := by
  unfold check
  by_cases hkind : e.kind = r.name
  · rw [if_neg (not_not.2 hkind)]
    cases hdiffering : e.differing r.versions with
    | some fault =>
      obtain ⟨x, hx, hne, rfl, hfirst⟩ := differing_eq_some r.versions_sorted hdiffering
      simp only [version?_eq hnodup] at hne hfirst ⊢
      exact .differs hkind hx hne hfirst
    | none =>
      have hexpected := differing_eq_none_iff.1 hdiffering
      simp only [version?_eq hnodup] at hexpected
      cases hsurplus : e.surplus r.versions with
      | some fault =>
        obtain ⟨x, hx, hnew, rfl, hfirst⟩ := surplus_eq_some hsurplus
        rw [version?_eq hnodup, listed_of_mem hnodup hx]
        exact .surplus hkind hexpected hx hnew hfirst
      | none =>
        -- All versions agree in both directions, so what is left is the record.
        have hperm := perm_of_listed hnodup r.nodup_versions r.version_pos hexpected
          (surplus_eq_none_iff.1 hsurplus)
        show Verdict r e.kind e.versions e.value (e.fields r)
        unfold fields
        cases hvalue : r.type.ofJson? e.value with
        | none => exact .unfit hkind hperm hvalue
        | some v => exact .loaded hkind hperm hvalue
  · rw [if_pos hkind]
    exact .kind hkind

end ArchiveEnvelope

/-! ## Documents -/

/-- Octets that spell an archive: an object of which no two members have one name, with a text for a
kind, any value for a record, and versions of 32 bits, of which no two are of one record.  Without
versions there are none.  Members of other names may be anything. -/
inductive Describes : Bytes → String → List (String × Nat) → JsonValue → Prop
  | mk {before octets after : Bytes} {members : List (String × JsonValue)} {kind : String}
    {versions : List (String × Nat)} {value : JsonValue} (hblank : Blank before ∧ Blank after)
    (hspells : Spells octets (.object members)) (hnames : (members.map Prod.fst).Nodup)
    (hkind : ("kind", .text kind) ∈ members)
    (hversions : ("versions", versionsJson versions) ∈ members ∨
      "versions" ∉ members.map Prod.fst ∧ versions = [])
    (hrecords : (versions.map Prod.fst).Nodup) (hwidth : ∀ x ∈ versions, x.2 < 2 ^ 32)
    (hvalue : ("value", value) ∈ members) :
    Describes (before ++ (octets ++ after)) kind versions value

namespace DomainRecord

/-- Once the envelope has been read, `load` checks it and then reads the record. -/
theorem load_eq_of_envelope (r : DomainRecord) {bs : Bytes} {e : ArchiveEnvelope}
    (h : ArchiveEnvelope.ofBytes bs = .ok e) : r.load bs = (do e.check r; e.fields r) := by
  rw [load, h]
  rfl

/-- `load` answers the `Verdict` on a document whose record can be `Held`, and nothing else. -/
theorem verdict_iff_of_describes (r : DomainRecord) {bs : Bytes} {kind : String}
    {versions : List (String × Nat)} {value : JsonValue} (h : Describes bs kind versions value)
    (hheld : Held (ArchiveEnvelope.maxLevels - 1) value) (x : Except ArchiveError (List Value)) :
    Verdict r kind versions value x ↔ r.load bs = x := by
  obtain ⟨hblank, hspells, hnames, hkind, hversions, hnodup, hwidth, hvalue⟩ := h
  have henvelope := ArchiveEnvelope.ofBytes_of_spells (e := ⟨kind, versions, value⟩) hblank hspells
    hnames hkind hversions hwidth hvalue hheld
  have hverdict := ArchiveEnvelope.verdict_of_envelope r (e := ⟨kind, versions, value⟩) hnodup
  rw [← r.load_eq_of_envelope henvelope] at hverdict
  constructor
  · exact hverdict.unique hnodup
  · rintro rfl
    exact hverdict

/-- `load` succeeds, on whatever octets, only if the envelope is of the kind of the record and has
its versions, where of several versions of one record the last one counts. -/
theorem versions_of_load {r : DomainRecord} {bs : Bytes} {fields : List Value}
    (h : r.load bs = .ok fields) :
    ∃ e, ArchiveEnvelope.ofBytes bs = .ok e ∧ e.kind = r.name ∧
      ∀ record, e.version? record = r.versions.lookup record := by
  cases henvelope : ArchiveEnvelope.ofBytes bs with
  | error fault =>
    rw [load, henvelope] at h
    cases h
  | ok e =>
    rw [r.load_eq_of_envelope henvelope] at h
    cases hcheck : e.check r with
    | error fault =>
      rw [hcheck] at h
      cases h
    | ok u =>
      obtain ⟨hkind, hexpected, hlisted⟩ := ArchiveEnvelope.of_check_ok hcheck
      refine ⟨e, rfl, hkind, fun record => ?_⟩
      -- A record is either expected and listed with its version, or neither expected nor listed.
      cases hlookup : r.versions.lookup record with
      | some version =>
        have hmem := mem_of_lookup hlookup
        have hversion := hexpected _ hmem
        cases hfound : e.version? record with
        | some found =>
          rw [hfound] at hversion
          exact congrArg some hversion
        | none =>
          rw [hfound] at hversion
          exact absurd hversion.symm (r.version_pos _ hmem)
      | none =>
        cases hfound : e.version? record with
        | none => rfl
        | some found =>
          have hmem : (record, found) ∈ e.versions := List.mem_reverse.1 (mem_of_lookup hfound)
          exact absurd (hlisted _ hmem) (lookup_eq_none_iff_notMem.1 hlookup)

/-- The envelope that `ofBytes` reads of what `store` writes has the name and the versions of
the record. -/
theorem ofBytes_store (r : DomainRecord) {fields : List Value} (h : r.recordType.holds fields) :
    ArchiveEnvelope.ofBytes (r.store fields) =
      .ok ⟨r.name, r.versions, r.type.toJson (.record fields)⟩ := by
  have hholds : r.type.holds (.record fields) := h
  exact ArchiveEnvelope.ofBytes_write r.name r.version_lt
    (r.type.readable_toJson r.archivable_type hholds)

/-- `load` of one record refuses the kind of what `store` has written of another. -/
theorem load_store_of_ne {r r' : DomainRecord} (hne : r ≠ r') {fields : List Value}
    (h : r'.recordType.holds fields) :
    r.load (r'.store fields) = .error (.kind r.name r'.name) := by
  have hname : r'.name ≠ r.name := by
    cases r <;> cases r' <;> first | exact absurd rfl hne | decide
  rw [r.load_eq_of_envelope (ofBytes_store r' h), ArchiveEnvelope.check, if_pos hname]
  rfl

/-- An archive of a build without versions, in which the record is spelled by the given octets. -/
def bareArchive (octets : Bytes) : Bytes :=
  octet '\x7b' :: (writeText "kind" ++ octet ':' :: (writeText "Build" ++ octet ',' ::
    (writeText "value" ++ octet ':' :: (octets ++ [octet '\x7d']))))

/-- `bareArchive` spells an archive of the kind `Build` with this value. -/
theorem bareArchive_describes {octets : Bytes} {value : JsonValue} (h : Spells octets value) :
    Describes (bareArchive octets) "Build" [] value := by
  have hspells :
      Spells (bareArchive octets) (.object [("kind", .text "Build"), ("value", value)]) := by
    have hnames : ∀ y ∈ [Member.tight "kind" (writeText "Build") (.text "Build"),
        Member.tight "value" octets value], Text y.name.octets y.name.what := by
      simp [Member.tight, Text.written]
    have hvalues : ∀ y ∈ [Member.tight "kind" (writeText "Build") (.text "Build"),
        Member.tight "value" octets value], Spells y.value.octets y.value.what :=
      List.forall_mem_cons.2 ⟨.scalar (.text (.written "Build")), List.forall_mem_singleton.2 h⟩
    have hobject := Spells.object hnames hvalues
    simpa [Member.tight, Member.what, Member.spelled, more, bareArchive] using hobject
  have hdescribes : Describes ([] ++ (bareArchive octets ++ [])) "Build" [] value :=
    .mk ⟨blank_nil, blank_nil⟩ hspells (by simp) List.mem_cons_self (.inr (by simp)) (by simp)
      (by simp) (List.mem_cons_of_mem _ List.mem_cons_self)
  simpa using hdescribes

/-- A number that no double can hold. -/
def hugeNumber : Number where
  negative := false
  whole := ⟨[1], by decide, by decide⟩
  trimmed := by decide
  fraction := none
  exponent := some ⟨false, none, ⟨[9, 9, 9], by decide, by decide⟩⟩

/-- Lists inside each other, of which the innermost one is empty. -/
def stacked : Nat → JsonValue
  | 0 => .list []
  | n + 1 => .list [stacked n]

/-- The octets of lists inside each other. -/
def stackedOctets : Nat → Bytes
  | 0 => [octet '[', octet ']']
  | n + 1 => octet '[' :: (stackedOctets n ++ [octet ']'])

/-- `stackedOctets` spell `stacked`. -/
theorem stackedOctets_spells (n : Nat) : Spells (stackedOctets n) (stacked n) := by
  induction n with
  | zero => exact .emptyList blank_nil
  | succ n ih =>
    have hparts : ∀ y ∈ [Spaced.tight (stackedOctets n) (stacked n)], Spells y.octets y.what :=
      List.forall_mem_singleton.2 ih
    have hlist := Spells.list hparts
    simpa [more, stackedOctets, stacked] using hlist

/-- `load` answers the `Verdict` on what an archive `Describes`: it is settled by the kind, then by
the versions, and then by the value, provided that the value can be `Held`: lists and objects stand
inside each other at most 126 deep, and no number is above what a double can hold.  Whatever octets
`load` has accepted were of the right kind and listed the right versions.  So what `store` writes of
one record is never loaded as another. -/
theorem load_verdict :
    (∀ (r : DomainRecord) (bs : Bytes) (kind : String) (versions : List (String × Nat))
      (value : JsonValue), Describes bs kind versions value → Held 126 value →
        ∀ x, Verdict r kind versions value x ↔ r.load bs = x) ∧
    (∀ (r : DomainRecord) (bs : Bytes) (fields : List Value), r.load bs = .ok fields →
      ∃ e, ArchiveEnvelope.ofBytes bs = .ok e ∧ e.kind = r.name ∧
        ∀ record, e.version? record = r.versions.lookup record) ∧
    ∀ (r r' : DomainRecord) (fields : List Value), r ≠ r' → r'.recordType.holds fields →
      r.load (r'.store fields) = .error (.kind r.name r'.name) :=
  ⟨fun r _ _ _ _ h hheld => r.verdict_iff_of_describes h hheld,
    fun _ _ _ h => versions_of_load h, fun _ _ _ hne h => load_store_of_ne hne h⟩

/-- `Verdict` and `load` on a bare archive of a build, on a picture, and on a picture that is loaded
as a build. -/
theorem load_verdict_picture :
    (Describes (bareArchive (JsonValue.ascii ['n', 'u', 'l', 'l'])) "Build" [] .null ∧
      Held 126 .null ∧
      Verdict build "Build" [] .null
        (build.load (bareArchive (JsonValue.ascii ['n', 'u', 'l', 'l'])))) ∧
    (∃ fields, mediaEntry.load (mediaEntry.store [.text "small", .text "/large"]) = .ok fields ∧
      ∃ e, ArchiveEnvelope.ofBytes (mediaEntry.store [.text "small", .text "/large"]) = .ok e ∧
        e.kind = mediaEntry.name ∧
        ∀ record, e.version? record = mediaEntry.versions.lookup record) ∧
    build ≠ mediaEntry ∧ mediaEntry.recordType.holds [.text "small", .text "/large"] = true ∧
    build.load (mediaEntry.store [.text "small", .text "/large"]) =
      .error (.kind "Build" "MediaEntry") := by
  have hdescribes := bareArchive_describes (.scalar .null)
  have hholds : mediaEntry.recordType.holds [.text "small", .text "/large"] = true := by decide
  have hloaded :
      (mediaEntry.load (mediaEntry.store [.text "small", .text "/large"])).isOk = true := by
    decide +kernel
  have hverdict := (load_verdict.1 build _ _ _ _ hdescribes .null _).2 rfl
  refine ⟨⟨hdescribes, .null, hverdict⟩, ?_, by decide, hholds,
    load_verdict.2.2 build mediaEntry _ (by decide) hholds⟩
  cases h : mediaEntry.load (mediaEntry.store [.text "small", .text "/large"]) with
  | error fault =>
    rw [h] at hloaded
    cases hloaded
  | ok fields => exact ⟨fields, rfl, load_verdict.2.1 mediaEntry _ fields h⟩

/-- Why octets are no envelope. -/
def fault? (bs : Bytes) : Option JsonFault :=
  match ArchiveEnvelope.ofBytes bs with
  | .error fault => some fault
  | .ok _ => none

/-- `ofBytes` fails for the reason that `fault?` gives. -/
theorem ofBytes_of_fault? {bs : Bytes} {fault : JsonFault} (h : fault? bs = some fault) :
    ArchiveEnvelope.ofBytes bs = .error fault := by
  cases hread : ArchiveEnvelope.ofBytes bs with
  | error other =>
    obtain rfl : other = fault := by simpa [fault?, hread] using h
    rfl
  | ok e => simp [fault?, hread] at h

/-- Without `Held` there may be no `Verdict`: `load` of a `Build` whose value has a number above
every double, or one level too many, answers that it is no JSON, and not that it is a `Build`. -/
theorem load_without_verdict :
    (Describes (bareArchive hugeNumber.octets) "Build" [] hugeNumber.value ∧
      ¬ Verdict application "Build" [] hugeNumber.value
        (application.load (bareArchive hugeNumber.octets))) ∧
    (Describes (bareArchive (stackedOctets 126)) "Build" [] (stacked 126) ∧
      ¬ Verdict application "Build" [] (stacked 126)
        (application.load (bareArchive (stackedOctets 126)))) := by
  -- None of the verdicts is that the document is malformed.
  have hmalformed (octets : Bytes) (value : JsonValue)
      (h : fault? (bareArchive octets) = some .malformed) :
      ¬ Verdict application "Build" [] value (application.load (bareArchive octets)) := by
    rw [load, ofBytes_of_fault? h]
    intro hverdict
    cases hverdict
  have hnumber : Spells hugeNumber.octets hugeNumber.value := .scalar (.number hugeNumber)
  exact ⟨⟨bareArchive_describes hnumber, hmalformed _ _ (by decide +kernel)⟩,
    bareArchive_describes (stackedOctets_spells 126), hmalformed _ _ (by decide +kernel)⟩

end DomainRecord

end Storefront
