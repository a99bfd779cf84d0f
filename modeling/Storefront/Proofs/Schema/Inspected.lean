import Storefront.Proofs.Schema.Walk
import Storefront.Proofs.Wire.Contents
import Storefront.Schema.Builder
import Storefront.Schema.Decode
import Storefront.Schema.Inspect

/-! # What is inspected is what is written

A field is present when the guards of all groups around it hold (`Declaration.present`).  Writing and
inspecting a record both come to its present fields and no others, although one sees only where a
field stands and the other keeps a stack of the groups it is in.

* `inspect_eq`       an inspection finds the present fields and leaves its stack as it was
* `walk_eq_present`  a walk comes to the present fields
* `index_encode`     the octets of a record are indexed as the fields that a walk comes to
* `written_as_inspected`   the keys in the octets of a record are those that an inspection lists
-/

namespace Storefront

/-- A declared field and the groups around it, the innermost first. -/
structure Declaration where
  about : FieldMeta
  type : ValueType
  groups : List (String × Guard)

namespace Declaration

/-- True when the guards of all groups around the field hold. -/
def present (fields : List Value) (ctx : Context) (d : Declaration) : Bool :=
  d.groups.all fun (_, guard) => guard fields ctx

/-- What there is to say of a present field.  Its group is the innermost one whose guard holds. -/
def info (fields : List Value) (ctx : Context) (d : Declaration) : FieldInfo :=
  ⟨d.about.tag, d.about.name, d.type.wireType, d.about.maxSize,
    (d.groups.find? fun (_, guard) => guard fields ctx).map fun (name, _) => name⟩

end Declaration

namespace Layout

/-- All fields of a layout that stands within the groups `around`, the innermost of which comes
first. -/
def declarations : Layout → (around : List (String × Guard)) → List Declaration
  | nil, _ => []
  | field about type _ rest, around => ⟨about, type, around⟩ :: declarations rest around
  | group name guard body rest, around =>
    declarations body ((name, guard) :: around) ++ declarations rest around

/-- The fields of a layout that are present. -/
def present (layout : Layout) (around : List (String × Guard)) (fields : List Value)
    (ctx : Context) : List Declaration :=
  (layout.declarations around).filter (·.present fields ctx)

theorem map_declarations : (layout : Layout) → ∀ around,
    (layout.declarations around).map (fun d => (d.about, d.type)) = layout.declared
  | nil, _ => rfl
  | field _ _ _ rest, around => by
    simp only [declarations, declared, List.map_cons, rest.map_declarations]
  | group _ _ body rest, around => by
    simp only [declarations, declared, List.map_append, body.map_declarations,
      rest.map_declarations]

/-- `declarations` keep the groups `around` the layout. -/
theorem subset_groups : (layout : Layout) → ∀ {around},
    ∀ d ∈ layout.declarations around, around ⊆ d.groups
  | nil, _, d, hd => by simp [declarations] at hd
  | field about type initial rest, around, d, hd => by
    rcases List.mem_cons.1 hd with rfl | hd
    · exact List.Subset.refl _
    · exact rest.subset_groups d hd
  | group name guard body rest, around, d, hd => by
    -- a field of `body` has this group around it besides
    rcases List.mem_append.1 hd with hd | hd
    · exact fun g hg => body.subset_groups d hd (List.mem_cons_of_mem _ hg)
    · exact rest.subset_groups d hd

variable {fields : List Value} {ctx : Context} {around : List (String × Guard)}

/-! ## The present fields of a layout -/

theorem present_field {about : FieldMeta} {type : ValueType} {initial : Value} {rest : Layout}
    (hall : ∀ g ∈ around, g.2 fields ctx) :
    (field about type initial rest).present around fields ctx =
      ⟨about, type, around⟩ :: rest.present around fields ctx := by
  -- all guards around the field hold, so the filter keeps it
  have hpresent : Declaration.present fields ctx ⟨about, type, around⟩ := List.all_eq_true.2 hall
  rw [present, declarations, List.filter_cons_of_pos hpresent]
  rfl

/-- `present` fields of a group are there while its guard holds. -/
theorem present_group {name : String} {guard : Guard} {body rest : Layout} :
    (group name guard body rest).present around fields ctx =
      (if guard fields ctx then body.present ((name, guard) :: around) fields ctx else []) ++
        rest.present around fields ctx := by
  rw [present, declarations, List.filter_append]
  congr 1
  split
  · rfl
  · rename_i hguard
    -- The guard of the group is one of those that each of its fields depends on.
    refine List.filter_eq_nil_iff.2 fun d hd hpresent => hguard ?_
    exact List.all_eq_true.1 hpresent (name, guard)
      (body.subset_groups d hd List.mem_cons_self)

/-- `find?` of the innermost group takes the first one, with all guards holding. -/
theorem find?_of_all (hall : ∀ g ∈ around, g.2 fields ctx) :
    (around.find? fun (_, guard) => guard fields ctx) = around.head? := by
  cases around with
  | nil => rfl
  | cons g gs => exact List.find?_cons_of_pos (hall g List.mem_cons_self)

/-- `inspect` within groups whose guards hold finds the present fields, and its stack of groups is
the same afterwards. -/
theorem inspect_eq (fields : List Value) (ctx : Context) : (layout : Layout) →
    ∀ {around : List (String × Guard)}, (∀ g ∈ around, g.2 fields ctx) → ∀ found,
      layout.inspect ctx fields ⟨around.map (·.1), found⟩ =
        ⟨around.map (·.1), found ++ (layout.present around fields ctx).map (·.info fields ctx)⟩
  | nil, around, _, found => by simp [inspect, present, declarations]
  | field about type initial rest, around, hall, found => by
    rw [inspect, Inspection.visit, rest.inspect_eq fields ctx hall, present_field hall]
    -- The top of the stack is the innermost group.
    simp only [List.map_cons, Declaration.info, find?_of_all hall, List.head?_map,
      List.append_assoc, List.singleton_append]
  | group name guard body rest, around, hall, found => by
    rw [inspect, present_group]
    by_cases hguard : guard fields ctx
    · -- The group is put on the stack, and taken off again when all of it has been gone through.
      have hbody := body.inspect_eq fields ctx (List.forall_mem_cons.2 ⟨hguard, hall⟩ :
        ∀ g ∈ (name, guard) :: around, g.2 fields ctx) found
      rw [List.map_cons] at hbody
      simp only [hguard, if_true, Inspection.enter, hbody, Inspection.leave, List.tail_cons]
      rw [rest.inspect_eq fields ctx hall, List.map_append, List.append_assoc]
    · simp only [hguard, Bool.false_eq_true, if_false, List.nil_append]
      exact rest.inspect_eq fields ctx hall found

/-- `walk` within groups whose guards hold comes to the present fields. -/
theorem walk_eq_present (fields : List Value) (ctx : Context) : (layout : Layout) →
    ∀ {around : List (String × Guard)}, (∀ g ∈ around, g.2 fields ctx) → ∀ slot,
      (layout.walk ctx fields slot).map (fun p => (p.about, p.type)) =
        (layout.present around fields ctx).map (fun d => (d.about, d.type))
  | nil, _, _, _ => rfl
  | field about type initial rest, around, hall, slot => by
    rw [walk, present_field hall, List.map_cons, List.map_cons,
      rest.walk_eq_present fields ctx hall]
  | group name guard body rest, around, hall, slot => by
    rw [walk, present_group, List.map_append, List.map_append,
      rest.walk_eq_present fields ctx hall]
    -- what comes behind the group is the same; it remains to compare the group itself
    congr 1
    split
    · rename_i hguard
      exact body.walk_eq_present fields ctx (List.forall_mem_cons.2 ⟨hguard, hall⟩) slot
    · rfl

end Layout

namespace RecordType

variable {r : RecordType} {ctx : Context} {fields : List Value}

theorem inspect_eq (r : RecordType) (ctx : Context) (fields : List Value) :
    r.inspect ctx fields = (r.layout.present [] fields ctx).map (·.info fields ctx) := by
  have h := r.layout.inspect_eq fields ctx (List.forall_mem_nil _) []
  rw [inspect]
  exact congrArg Inspection.found h

/-- `index` finds in the octets of `encode` the fields that `walk` comes to. -/
theorem index_encode (htags : r.layout.distinctTags) (hrange : ∀ v ∈ fields, v.InRange)
    (h : (r.encode ctx fields).result = .ok ()) :
    r.index (r.encode ctx fields).bytes =
      .ok ((r.layout.walk ctx fields 0).map (·.raw ctx fields)) := by
  obtain ⟨hbytes, hwritten⟩ := r.layout.encode_ok (fun _ _ => rfl) h
  -- what stands in a written place is one of the fields, which `hrange` covers
  have hstanding : ∀ p ∈ r.layout.walk ctx fields 0, (p.value fields).InRange :=
    fun p hp => hrange _ (List.mem_of_getElem? (hwritten p hp).standing)
  have hindex := FieldIndex.ofBody_flatMap (Layout.framed_walk htags hstanding hwritten) (by
    rw [List.map_map]
    exact Layout.nodup_tags_walk htags ctx fields 0)
  rw [index, encode, hbytes, hindex]
  rfl

/-- `inspect` lists the keys of the fields that `walk` comes to. -/
theorem inspect_keys (r : RecordType) (ctx : Context) (fields : List Value) :
    (r.inspect ctx fields).map (fun info => (info.tag, info.wireType)) =
      (r.layout.walk ctx fields 0).map fun p => (p.about.tag, p.type.wireType) := by
  -- both are images of the present fields
  have hwalk := congrArg (List.map fun q : FieldMeta × ValueType => (q.1.tag, q.2.wireType))
    (r.layout.walk_eq_present fields ctx (List.forall_mem_nil _) 0)
  rw [List.map_map, List.map_map] at hwalk
  rw [inspect_eq, List.map_map]
  exact hwalk.symm

/-- `inspect` lists declared fields in the order of their declaration. -/
theorem inspect_sublist (r : RecordType) (ctx : Context) (fields : List Value) :
    ((r.inspect ctx fields).map fun info => (info.tag, info.name)).Sublist
      r.layout.declaredTags := by
  have hdeclared : r.layout.declaredTags =
      (r.layout.declarations []).map fun d => (d.about.tag, d.about.name) := by
    rw [Layout.declaredTags, ← r.layout.map_declarations [], List.map_map]
    rfl
  rw [inspect_eq, List.map_map, hdeclared]
  -- `present` filters the declarations
  exact List.filter_sublist.map _

end RecordType

/-- `encode` writes what `inspect` lists.  For a record type with `distinctTags` and a successful
`encode`, `index` accepts the octets; they are fields with the tags and wire types of the list, in
the same order.  The list is a sublist of the `declaredTags`, in the order of their declaration,
and has all the present fields, each with its own bound and the innermost group around it whose
guard holds. -/
theorem written_as_inspected (r : RecordType) (ctx : Context) (fields : List Value)
    (htags : r.layout.distinctTags) (hrange : ∀ v ∈ fields, v.InRange)
    (h : (r.encode ctx fields).result = .ok ()) :
    (∃ written : List Grammar.Field,
      r.index (r.encode ctx fields).bytes = .ok (written.map Grammar.Field.raw) ∧
      written.flatMap Grammar.Field.octets = (r.encode ctx fields).bytes ∧
      written.map (fun f => (f.tag, f.value.type)) =
        (r.inspect ctx fields).map fun info => (info.tag, info.wireType)) ∧
    ((r.inspect ctx fields).map fun info => (info.tag, info.name)).Sublist
      r.layout.declaredTags ∧
    (r.layout.declarations []).map (fun d => (d.about, d.type)) = r.layout.declared ∧
    r.inspect ctx fields =
      ((r.layout.declarations []).filter (·.present fields ctx)).map (·.info fields ctx) := by
  refine ⟨?_, r.inspect_sublist ctx fields, r.layout.map_declarations [],
    r.inspect_eq ctx fields⟩
  have hindex := RecordType.index_encode htags hrange h
  -- Whatever can be indexed is made of fields, and these are the ones in the index.
  cases hbody : FieldIndex.ofBody r.layout.byteBound (r.encode ctx fields).bytes with
  | error e => simp [RecordType.index, hbody, Except.mapError] at hindex
  | ok index =>
    obtain ⟨written, -, hoctets, -, hraw⟩ := FieldIndex.ofBody_eq_ok.1 hbody
    simp only [RecordType.index, hbody, Except.mapError, Except.ok.injEq] at hindex
    refine ⟨written, by simp only [RecordType.index, hbody, Except.mapError, hraw], hoctets, ?_⟩
    have hkeys := congrArg (List.map fun f : RawField => (f.tag, f.type)) (hraw.trans hindex)
    rw [List.map_map, List.map_map] at hkeys
    -- `written` and the walk have the same raw fields, so the keys agree too
    rw [r.inspect_keys]
    exact hkeys

/-- A record with a group inside a group, and one that is never there. -/
def nestedType : RecordType where
  name := "Nested"
  layout := .build [
    .plain 1 "kind" (.unsigned .u32),
    .grouped "outer" (fun fields _ => Layout.number fields 0 == 2) [
      .bounded 4 "label" .text 16,
      .grouped "inner" (fun _ ctx => ctx.has .core) [.bounded 2 "data" .blob 8],
      .plain 3 "done" .flag],
    .grouped "spare" (fun _ _ => false) [.plain 5 "unused" .text],
    .plain 6 "offset" .signed]

/-- `inspect` and `index` of a record with nested groups: what stands behind the inner group is in
the outer one again, and then in none. -/
theorem written_as_inspected_nested :
    nestedType.inspect .ofLocal
        [.number 2, .text "hm", .blob [1, 2, 3], .flag true, .text "", .signed (-1)] =
      [⟨1, "kind", .varint, none, none⟩, ⟨4, "label", .len, some 16, some "outer"⟩,
        ⟨2, "data", .len, some 8, some "inner"⟩, ⟨3, "done", .varint, none, some "outer"⟩,
        ⟨6, "offset", .varint, none, none⟩] ∧
    ∃ written : List Grammar.Field,
      nestedType.index (nestedType.encode .ofLocal
          [.number 2, .text "hm", .blob [1, 2, 3], .flag true, .text "", .signed (-1)]).bytes =
        .ok (written.map Grammar.Field.raw) ∧
      written.map (fun f => (f.tag, f.value.type)) =
        [(1, .varint), (4, .len), (2, .len), (3, .varint), (6, .varint)] := by
  have hinspect : nestedType.inspect .ofLocal
        [.number 2, .text "hm", .blob [1, 2, 3], .flag true, .text "", .signed (-1)] =
      [⟨1, "kind", .varint, none, none⟩, ⟨4, "label", .len, some 16, some "outer"⟩,
        ⟨2, "data", .len, some 8, some "inner"⟩, ⟨3, "done", .varint, none, some "outer"⟩,
        ⟨6, "offset", .varint, none, none⟩] := by decide
  obtain ⟨⟨written, hindex, -, hkeys⟩, -⟩ := written_as_inspected nestedType .ofLocal
    [.number 2, .text "hm", .blob [1, 2, 3], .flag true, .text "", .signed (-1)] (by decide)
    (by simp [Value.InRange, Varint.limit]) (by decide +kernel)
  rw [hinspect] at hkeys
  exact ⟨hinspect, written, hindex, hkeys⟩

end Storefront
