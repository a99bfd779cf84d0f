import Storefront.Archive.Basic
import Storefront.Proofs.Archive.Envelope

/-! # Archives read back

A record that has been written as an archive is read from it as it was, whatever texts, numbers and
collections it holds: the envelope names the record and the structural versions that this build
expects of it, and what is in the envelope is the record.

* `ofBytes_write`   an envelope is read back without looking into its record
* `load_store`      a record is read back
-/

namespace Storefront

open JsonReader JsonGrammar

/-- `versions` has no record twice. -/
theorem DomainRecord.nodup_versions (r : DomainRecord) : (r.versions.map Prod.fst).Nodup := by
  cases r <;> decide

namespace ArchiveEnvelope

/-! ## Envelopes -/

/-- `ofBytes` reads an envelope back without looking into its record. -/
theorem ofBytes_write (kind : String) {versions : List (String × Nat)}
    (hversions : ∀ x ∈ versions, x.2 < 0x100000000) {value : JsonValue}
    (hvalue : Readable (maxLevels - 1) value) :
    ofBytes (JsonValue.object
      [("kind", .text kind),
        ("versions", .object (versions.map fun x => (x.1, .natural x.2))),
        ("value", value)]).write = .ok ⟨kind, versions, value⟩ := by
  have hkind : Spells (JsonValue.text kind).write (.text kind) := (Scalar.text kind).spells
  have hlisted : Spells (versionsJson versions).write (versionsJson versions) :=
    Spells.object_write <| List.forall_mem_map.2 fun x hx =>
      (Scalar.natural (Nat.lt_trans (hversions x hx) (by decide))).spells
  -- Each of the three members is spelled as it is written.
  have hmembers : ∀ m ∈ [("kind", JsonValue.text kind), ("versions", versionsJson versions),
      ("value", value)], Spells m.2.write m.2 := by
    simp only [List.forall_mem_cons]
    exact ⟨hkind, hlisted, hvalue.spells, nofun⟩
  have hspells := Spells.object_write hmembers
  -- Nothing stands in front of the envelope or behind it.
  have hread := ofBytes_of_spells (e := ⟨kind, versions, value⟩) ⟨blank_nil, blank_nil⟩ hspells
    (by simp) (by simp) (.inl (by simp)) hversions (by simp) hvalue.held
  rw [List.nil_append, List.append_nil] at hread
  exact hread

/-! ## Structural versions -/

variable {e : ArchiveEnvelope} {expected : List (String × Nat)}

/-- `differing` reports nothing when every expected version is listed; one that is not counts
as zero. -/
theorem differing_eq_none_iff :
    e.differing expected = none ↔ ∀ x ∈ expected, (e.version? x.1).getD 0 = x.2 := by
  induction expected with
  | nil => simp [differing]
  | cons x xs ih =>
    rw [differing, List.forall_mem_cons, ← ih]
    by_cases h : (e.version? x.1).getD 0 = x.2 <;> simp [h]

/-- `firstName` answers unless there are no names. -/
theorem firstName_eq_none {names : List String} (h : firstName names = none) : names = [] := by
  cases names with
  | nil => rfl
  | cons first names =>
    rw [firstName] at h
    split at h <;> cases h

/-- `surplus` reports nothing when all records that are listed are expected. -/
theorem surplus_eq_none_iff :
    e.surplus expected = none ↔ ∀ x ∈ e.versions, x.1 ∈ expected.map Prod.fst := by
  have hknown (name : String) :
      ¬ (expected.lookup name).isNone = true ↔ name ∈ expected.map Prod.fst := by
    rw [Option.isNone_iff_eq_none, lookup_eq_none_iff_notMem, not_not]
  rw [surplus, Option.map_eq_none_iff]
  constructor
  · intro h x hx
    have hnone := List.filter_eq_nil_iff.1 (firstName_eq_none h)
    exact (hknown x.1).1 (hnone x.1 (List.mem_map_of_mem hx))
  · intro h
    have hnames : (e.versions.map (·.1)).filter
        (fun name => (expected.lookup name).isNone) = [] := by
      rw [List.filter_eq_nil_iff]
      intro name hname
      obtain ⟨x, hx, rfl⟩ := List.mem_map.1 hname
      exact (hknown x.1).2 (h x hx)
    rw [hnames]
    rfl

/-- `check` passes an envelope with the name and the versions of the record. -/
theorem check_written (r : DomainRecord) (value : JsonValue) :
    check r ⟨r.name, r.versions, value⟩ = .ok () := by
  have hdiffering : differing ⟨r.name, r.versions, value⟩ r.versions = none := by
    refine differing_eq_none_iff.2 fun x hx => ?_
    rw [version?, lookup_reverse_of_mem r.nodup_versions hx]
    rfl
  have hsurplus : surplus ⟨r.name, r.versions, value⟩ r.versions = none :=
    surplus_eq_none_iff.2 fun x hx => List.mem_map_of_mem hx
  simp [check, hdiffering, hsurplus]

end ArchiveEnvelope

namespace DomainRecord

/-- Every type of a record is `archivable` within `maxLevels`. -/
theorem archivable_type (r : DomainRecord) :
    r.type.archivable (ArchiveEnvelope.maxLevels - 1) = true := by
  cases r <;> decide

theorem version_lt (r : DomainRecord) : ∀ x ∈ r.versions, x.2 < 0x100000000 := by
  cases r <;> decide

/-- `load` is a left inverse of `store` on the fields that a record `holds`. -/
theorem load_store (r : DomainRecord) (fields : List Value) (h : r.recordType.holds fields) :
    r.load (r.store fields) = .ok fields := by
  have hholds : r.type.holds (.record fields) := h
  have hvalue := r.type.readable_toJson r.archivable_type hholds
  have henvelope : ArchiveEnvelope.ofBytes (r.store fields) =
      .ok ⟨r.name, r.versions, r.type.toJson (.record fields)⟩ :=
    ArchiveEnvelope.ofBytes_write r.name r.version_lt hvalue
  -- The value of the envelope is what the record was turned into.
  have hfields : ArchiveEnvelope.fields r ⟨r.name, r.versions, r.type.toJson (.record fields)⟩ =
      .ok fields := by
    rw [ArchiveEnvelope.fields, r.type.ofJson?_toJson r.archivable_type hholds]
    rfl
  rw [load, henvelope]
  show (do ArchiveEnvelope.check r _; ArchiveEnvelope.fields r _) = _
  rw [ArchiveEnvelope.check_written]
  exact hfields

/-- A build whose texts hold quotes, a backslash, control characters and a character outside the
basic plane, and which has the largest number among its flags. -/
def quotedBuild : List Value :=
  let shortcut : Value := .record
    [.text "say \"hi\"", .text "C:\\run", .text "tab\tbell\x07end", .text "", .text "😀\n"]
  let media : Value := .record [.text "shots", .list [.record [.text "small", .text "/large"]]]
  let configuration : Value := .record
    [.text "any", .text ".", .number 0xFFFFFFFFFFFFFFFF, .list [.text "linux", .text "mac"],
      .list [.pair (.text "/") (.text "\x7f")], .list [], .list [shortcut], .list [], media]
  [.text "release", .text "", .list [.pair (.text "key") (.text "värde")], .list [],
    .list [configuration]]

/-- `quotedBuild` is a build that is stored and loaded again. -/
theorem load_store_quotedBuild :
    build.recordType.holds quotedBuild = true ∧
      build.load (build.store quotedBuild) = .ok quotedBuild :=
  have h : build.recordType.holds quotedBuild = true := by decide
  ⟨h, load_store build quotedBuild h⟩

end DomainRecord

end Storefront
