import Storefront.Archive.Envelope
import Storefront.Proofs.Archive.Contents
import Storefront.Proofs.Json.Skipped

/-! # Envelopes however spelled

The envelope of a document is what its members say, in whatever order they stand, with blanks
anywhere, and with members of other names among them.  The members are met one after the other, and
each fills its place in a draft.

* `member_read`         a member is read once
* `ofBytes_of_spells`   the envelope of a document is what its members say
-/

namespace Storefront

open JsonScan JsonReader JsonGrammar

/-- Versions in JSON. -/
def versionsJson (versions : List (String × Nat)) : JsonValue :=
  .object (versions.map fun x => (x.1, .natural x.2))

namespace ArchiveEnvelope

/-- `kindReader` reads a text. -/
theorem kindReader_reads {octets : Bytes} {kind : String} (h : Spells octets (.text kind)) :
    kindReader.Reads octets kind := by
  -- A text is neither a list nor an object.
  have hscalar := h.scalar_of_ne nofun nofun
  exact hscalar.reads_scalar (.text kind : Held 0 _) rfl

/-- `natural` reads a number below its limit. -/
theorem natural_reads {octets : Bytes} {n limit : Nat} (h : Spells octets (.natural n))
    (hlt : n < limit) : (JsonReader.natural limit).Reads octets n := by
  have hscalar := h.scalar_of_ne nofun nofun
  exact hscalar.reads_scalar (.natural n : Held 0 _) (if_pos hlt)

/-- `versionsReader` reads versions of 32 bits in order. -/
theorem versionsReader_reads {octets : Bytes} {versions : List (String × Nat)}
    (h : Spells octets (versionsJson versions)) (hwidth : ∀ x ∈ versions, x.2 < 2 ^ 32) :
    versionsReader.Reads octets versions := by
  intro before s hbefore hs
  obtain ⟨hnil, blanks, hblanks, rfl⟩ | ⟨m, ms, hmap, hname, hspells, rfl⟩ := h.object_cases
  · obtain rfl : versions = [] := List.map_eq_nil_iff.1 hnil
    have hread := members_read_empty (entry (.natural 0x100000000)) [] hblanks s
    rw [versionsReader, List.cons_append, container_read_object _ _ hbefore, List.append_assoc]
    exact map_read hread List.reverse
  · -- The members are the versions in order, each with its record for a name.
    have hall : List.Forall₂ (fun (y : Member) x => y.name.what = x.1 ∧
        (JsonReader.natural 0x100000000).Reads y.value.octets x.2) (m :: ms) versions := by
      -- Member by member, what stands in the document is the version in its place.
      have hpairs : List.Forall₂ (fun (y : Member) (x : String × Nat) =>
          y.what = (x.1, .natural x.2)) (m :: ms) versions := by
        have heq : List.Forall₂ (· = ·) ((m :: ms).map Member.what)
            (versions.map fun x => (x.1, .natural x.2)) := by
          rw [List.forall₂_eq_eq_eq]
          exact hmap.symm
        exact List.forall₂_map_right_iff.1 (List.forall₂_map_left_iff.1 heq)
      -- So every number has 32 bits.
      have hbound : ∀ y ∈ m :: ms, ∀ x : String × Nat, y.what = (x.1, .natural x.2) →
          x.2 < 0x100000000 := by
        intro y hy x hx
        have hmem := hmap ▸ List.mem_map_of_mem (f := Member.what) hy
        obtain ⟨x', hx', he⟩ := List.mem_map.1 hmem
        rw [hx, Prod.mk.injEq, JsonValue.natural.injEq] at he
        exact he.2 ▸ hwidth x' hx'
      have hparts : ∀ y ∈ m :: ms, Spells y.value.octets y.value.what ∧ ∀ x : String × Nat,
          y.what = (x.1, .natural x.2) → x.2 < 0x100000000 :=
        fun y hy => ⟨hspells y hy, hbound y hy⟩
      refine ((List.forall₂_and_left _ _).2 ⟨hparts, hpairs⟩).imp ?_
      rintro y x ⟨⟨hy, hlt⟩, hyx⟩
      obtain ⟨hkey, hvalue⟩ := Prod.mk.inj hyx
      rw [hvalue] at hy
      exact ⟨hkey, natural_reads hy (hlt x hyx)⟩
    have hread := JsonGrammar.entries_read hname hall s
    rw [versionsReader, List.cons_append, container_read_object _ _ hbefore, List.append_assoc,
      List.append_assoc]
    exact hread

/-- A draft once the members of the given names have been read. -/
def Draft.filled (d : Draft) (e : ArchiveEnvelope) (names : List String) : Draft where
  kind := if "kind" ∈ names then some e.kind else d.kind
  versions := if "versions" ∈ names then some e.versions else d.versions
  value := if "value" ∈ names then some e.value else d.value

/-- A draft that lacks the members of the given names. -/
structure Draft.Lacks (d : Draft) (names : List String) : Prop where
  kind : "kind" ∈ names → d.kind = none
  versions : "versions" ∈ names → d.versions = none
  value : "value" ∈ names → d.value = none

theorem Draft.Lacks.mono {d : Draft} {names names' : List String} (h : d.Lacks names')
    (hsubset : names ⊆ names') : d.Lacks names :=
  ⟨fun hm => h.kind (hsubset hm), fun hm => h.versions (hsubset hm),
    fun hm => h.value (hsubset hm)⟩

/-- `filled` with one name leaves the places of the others empty. -/
theorem Draft.Lacks.filled {d : Draft} {name : String} {names : List String}
    (h : d.Lacks (name :: names)) (hname : name ∉ names) (e : ArchiveEnvelope) :
    (d.filled e [name]).Lacks names := by
  have hother : ∀ other ∈ names, other ∉ [name] := by
    intro other hmem hin
    rw [List.mem_singleton] at hin
    exact hname (hin ▸ hmem)
  refine ⟨fun hm => ?_, fun hm => ?_, fun hm => ?_⟩
  · rw [Draft.filled, if_neg (hother _ hm)]
    exact h.kind (List.mem_cons_of_mem name hm)
  · rw [Draft.filled, if_neg (hother _ hm)]
    exact h.versions (List.mem_cons_of_mem name hm)
  · rw [Draft.filled, if_neg (hother _ hm)]
    exact h.value (List.mem_cons_of_mem name hm)

/-- `filled` with several names at once is `filled` one by one. -/
theorem Draft.filled_cons (d : Draft) (e : ArchiveEnvelope) (name : String) (names : List String) :
    (d.filled e [name]).filled e names = d.filled e (name :: names) := by
  have hif {α : Type} (key : String) (a b : α) :
      (if key ∈ names then a else if key ∈ [name] then a else b) =
        if key ∈ name :: names then a else b := by
    by_cases hin : key ∈ names
    · simp [hin]
    · simp [hin]
  simp only [Draft.filled, hif]

/-- A member that an envelope may have: under one of the three names it is what the envelope
says. -/
structure Fits (e : ArchiveEnvelope) (m : Member) : Prop where
  name : Text m.name.octets m.name.what
  spells : Spells m.value.octets m.value.what
  kind : m.name.what = "kind" → m.value.what = .text e.kind
  versions : m.name.what = "versions" → m.value.what = versionsJson e.versions
  value : m.name.what = "value" → m.value.what = e.value

variable {e : ArchiveEnvelope} {d : Draft}

/-- The first member named `kind` fills the kind. -/
theorem member_kind (h : d.kind = none) :
    member d "kind" = .memberValue (kindReader.map fun kind => { d with kind := some kind }) := by
  show once d.kind _ _ = _
  rw [h]
  rfl

/-- The first member named `versions` fills the versions. -/
theorem member_versions (h : d.versions = none) :
    member d "versions" =
      .memberValue (versionsReader.map fun versions => { d with versions := some versions }) := by
  show once d.versions _ _ = _
  rw [h]
  rfl

/-- The first member named `value` fills the value. -/
theorem member_value (h : d.value = none) :
    member d "value" =
      .memberValue (valueReader.map fun value => { d with value := some value }) := by
  show once d.value _ _ = _
  rw [h]
  rfl

/-- `member` passes over a member of any other name. -/
theorem member_of_ne {name : String} (hkind : name ≠ "kind") (hversions : name ≠ "versions")
    (hvalue : name ≠ "value") :
    member d name = .memberValue (JsonReader.skipped.map fun () => d) := by
  unfold member
  split
  · exact absurd rfl hkind
  · exact absurd rfl hversions
  · exact absurd rfl hvalue
  · rfl

/-- `member` reads a member once, and fills its place in the draft. -/
theorem member_read {m : Member} (h : e.Fits m) (hlacks : d.Lacks [m.name.what])
    (hwidth : ∀ x ∈ e.versions, x.2 < 2 ^ 32) (hheld : Held (maxLevels - 1) e.value) (s : Bytes)
    (hs : Stops s) :
    (member d m.name.what).read
        (m.name.after ++ octet ':' :: (m.value.before ++ (m.value.octets ++ s))) =
      .ok (d.filled e [m.name.what], s) := by
  have hafter := m.name.blank.2
  have hbefore := m.value.blank.1
  have hspells := h.spells
  -- Under each of the three names the reader is the one that the place calls for.
  by_cases hkind : m.name.what = "kind"
  · rw [h.kind hkind] at hspells
    rw [hkind] at hlacks ⊢
    rw [member_kind (hlacks.kind List.mem_cons_self)]
    exact memberValue_read ((kindReader_reads hspells).map _) hafter hbefore hs
  by_cases hversions : m.name.what = "versions"
  · rw [h.versions hversions] at hspells
    rw [hversions] at hlacks ⊢
    rw [member_versions (hlacks.versions List.mem_cons_self)]
    exact memberValue_read ((versionsReader_reads hspells hwidth).map _) hafter hbefore hs
  by_cases hvalue : m.name.what = "value"
  · rw [h.value hvalue] at hspells
    rw [hvalue] at hlacks ⊢
    rw [member_value (hlacks.value List.mem_cons_self)]
    exact memberValue_read ((hspells.reads hheld).map _) hafter hbefore hs
  · -- A member of another name is passed over.
    have hsame : d.filled e [m.name.what] = d := by
      simp [Draft.filled, Ne.symm hkind, Ne.symm hversions, Ne.symm hvalue]
    rw [member_of_ne hkind hversions hvalue, hsame]
    exact memberValue_read (hspells.reads_skipped.map _) hafter hbefore hs

/-- `Collects` along members with different names: they fill their places one after the other. -/
theorem collects_members {ms : List Member} (h : ∀ m ∈ ms, e.Fits m)
    (hnodup : (ms.map (·.name.what)).Nodup) (hlacks : d.Lacks (ms.map (·.name.what)))
    (hwidth : ∀ x ∈ e.versions, x.2 < 2 ^ 32) (hheld : Held (maxLevels - 1) e.value) :
    Collects member d ms (d.filled e (ms.map (·.name.what))) := by
  induction ms generalizing d with
  | nil => exact .nil d
  | cons m ms ih =>
    rw [List.map_cons, List.nodup_cons] at hnodup
    have hfirst : d.Lacks [m.name.what] :=
      hlacks.mono (List.cons_subset_cons _ (List.nil_subset _))
    have hread := member_read (h m List.mem_cons_self) hfirst hwidth hheld
    -- None of the members behind this one has its name, so all that they fill is still lacking.
    have hmore := ih (fun n hn => h n (List.mem_cons_of_mem m hn)) hnodup.2
      (hlacks.filled hnodup.1 e)
    rw [Draft.filled_cons] at hmore
    exact .cons (h m List.mem_cons_self).name hread hmore

/-- `ofDraft` makes the envelope of a draft that has its kind and its record, and no versions or
those of the envelope. -/
theorem ofDraft_filled {names : List String} (hkind : "kind" ∈ names) (hvalue : "value" ∈ names)
    (hversions : "versions" ∈ names ∨ e.versions = []) :
    ofDraft (Draft.filled {} e names) = .ok e := by
  obtain ⟨kind, versions, value⟩ := e
  simp only [ofDraft, Draft.filled, if_pos hkind, if_pos hvalue]
  -- Versions that are left out are none.
  obtain hin | rfl := hversions
  · rw [if_pos hin]
    rfl
  · split <;> rfl

/-- `ofBytes` of a document is what its members say. -/
theorem ofBytes_of_spells {before octets after : Bytes} {members : List (String × JsonValue)}
    (hblank : Blank before ∧ Blank after) (hspells : Spells octets (.object members))
    (hnames : (members.map Prod.fst).Nodup) (hkind : ("kind", .text e.kind) ∈ members)
    (hversions : ("versions", versionsJson e.versions) ∈ members ∨
      "versions" ∉ members.map Prod.fst ∧ e.versions = [])
    (hwidth : ∀ x ∈ e.versions, x.2 < 2 ^ 32) (hvalue : ("value", e.value) ∈ members)
    (hheld : Held (maxLevels - 1) e.value) : ofBytes (before ++ (octets ++ after)) = .ok e := by
  obtain ⟨rfl, -⟩ | ⟨m, ms, rfl, hname, hparts, rfl⟩ := hspells.object_cases
  · cases hkind
  have hmap : ((m :: ms).map Member.what).map Prod.fst = (m :: ms).map (·.name.what) := by
    simp [Member.what]
  -- Under each of the three names stands what the document says, since no name stands there twice.
  have hfits : ∀ y ∈ m :: ms, e.Fits y := by
    intro y hy
    have hmem : y.what ∈ (m :: ms).map Member.what := List.mem_map_of_mem hy
    refine ⟨hname y hy, hparts y hy, fun hk => ?_, fun hk => ?_, fun hk => ?_⟩
    · rw [Member.what, hk] at hmem
      exact eq_of_mem_of_nodup hnames hmem hkind
    · rw [Member.what, hk] at hmem
      rcases hversions with hversions | ⟨hnone, -⟩
      · exact eq_of_mem_of_nodup hnames hmem hversions
      · exact absurd (List.mem_map_of_mem hmem) hnone
    · rw [Member.what, hk] at hmem
      exact eq_of_mem_of_nodup hnames hmem hvalue
  have hcollects := collects_members (d := {}) hfits (hmap ▸ hnames)
    ⟨fun _ => rfl, fun _ => rfl, fun _ => rfl⟩ hwidth hheld
  have hread := hcollects.members_read after
  have hdraft : ofDraft (Draft.filled {} e ((m :: ms).map (·.name.what))) = .ok e := by
    rw [← hmap]
    refine ofDraft_filled (List.mem_map_of_mem hkind) (List.mem_map_of_mem hvalue) ?_
    exact hversions.imp (fun hin => List.mem_map_of_mem hin) And.right
  have hopen (w : Bytes) : skipBlanks (before ++ octet '\x7b' :: w) = octet '\x7b' :: w :=
    skipBlanks_append_cons hblank.1 rfl w
  -- Nothing but blanks stands behind the document.
  have hend : skipBlanks after = [] := by
    rw [← List.append_nil after, skipBlanks_append hblank.2]
    rfl
  have hne : octet '\x7b' ≠ octet '[' := by decide
  have hcontainer (list : JsonReader Draft) (w : Bytes) :=
    container_read_object list (members member {}) blank_nil w
  simp only [List.nil_append] at hcontainer
  rw [List.cons_append, List.append_assoc, List.append_assoc, List.singleton_append]
  simp only [ofBytes, hopen, if_neg hne, hcontainer, hread, hdraft, bind, Except.bind, pure,
    Except.pure, hend, if_true]

end ArchiveEnvelope

end Storefront
