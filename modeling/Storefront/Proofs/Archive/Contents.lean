import Mathlib.Data.List.Nodup
import Storefront.Archive.Value
import Storefront.Proofs.Json.Document
import Storefront.Proofs.Schema.Scalar

/-! # Records in JSON and back

A record is written field by field, each under its name, and every field is found again by its name
as long as no two fields share one.

* `Layout.ofMembers?_toJson`   the fields of a record are found among its members
* `ValueType.ofJson?_toJson`   a value is what its JSON says
* `ValueType.readable_toJson`  the JSON of a value is read back from as many levels as the type has
-/

namespace Storefront

open JsonReader

/-! ## Members -/

/-- `member?` looks a name up from behind; when no two entries share a name, that finds
each entry. -/
theorem lookup_reverse_of_mem {β : Type} {ms : List (String × β)} (hd : (ms.map Prod.fst).Nodup)
    {m : String × β} (h : m ∈ ms) : ms.reverse.lookup m.1 = some m.2 := by
  obtain ⟨before, behind, rfl⟩ := List.append_of_mem h
  rw [List.lookup_eq_some_iff]
  refine ⟨behind.reverse, before.reverse, by simp, ?_⟩
  intro p hp
  rw [List.mem_reverse] at hp
  rw [List.map_append, List.map_cons, List.nodup_append] at hd
  have hm := (List.nodup_cons.1 hd.2.1).1
  -- The last entry of a name counts, and none behind this one has its name.
  rw [bne_iff_ne]
  intro he
  exact hm (List.mem_map.2 ⟨p, hp, he.symm⟩)

/-- `lookup` finds each entry from the front when no two share a name. -/
theorem lookup_of_mem {β : Type} {ms : List (String × β)} (h : (ms.map Prod.fst).Nodup)
    {m : String × β} (hm : m ∈ ms) : ms.lookup m.1 = some m.2 := by
  have hreverse : (ms.reverse.map Prod.fst).Nodup := by
    rw [List.map_reverse]
    exact List.nodup_reverse.2 h
  have hlookup := lookup_reverse_of_mem hreverse (List.mem_reverse.2 hm)
  rwa [List.reverse_reverse] at hlookup

/-- No two values stand under one name. -/
theorem eq_of_mem_of_nodup {β : Type} {ms : List (String × β)} (h : (ms.map Prod.fst).Nodup)
    {key : String} {v w : β} (hv : (key, v) ∈ ms) (hw : (key, w) ∈ ms) : v = w :=
  Option.some.inj ((lookup_of_mem h hv).symm.trans (lookup_of_mem h hw))

theorem mem_of_lookup {β : Type} {ms : List (String × β)} {key : String} {v : β}
    (h : ms.lookup key = some v) : (key, v) ∈ ms := by
  obtain ⟨before, after, rfl, -⟩ := List.lookup_eq_some_iff.1 h
  simp

/-- `lookup` of a name is in vain just when the name stands nowhere. -/
theorem lookup_eq_none_iff_notMem {β : Type} {ms : List (String × β)} {key : String} :
    ms.lookup key = none ↔ key ∉ ms.map Prod.fst := by
  rw [List.lookup_eq_none_iff]
  simp only [List.mem_map, not_exists, not_and, bne_iff_ne]
  exact ⟨fun h m hm he => h m hm he.symm, fun h m hm he => h m hm he.symm⟩

/-! ## Types that archives keep -/

mutual

/-- True for the types whose values archives keep, with lists and objects nested no deeper than so
many levels: numbers, texts, lists, pairs, and records of which every field has its own name. -/
def ValueType.archivable : ValueType → (levels : Nat) → Bool
  | .unsigned _, _ | .text, _ => true
  | .list element, levels + 1 => element.archivable levels
  | .pair a b, levels + 1 => a.archivable levels && b.archivable levels
  | .record _ layout _, levels + 1 =>
    decide (layout.declared.map fun field => field.1.name).Nodup && layout.archivable levels
  | _, _ => false

/-- True when archives keep the values of every field of a record. -/
def Layout.archivable : Layout → (levels : Nat) → Bool
  | .nil, _ => true
  | .field _ type _ rest, levels => type.archivable levels && rest.archivable levels
  | .group _ _ body rest, levels => body.archivable levels && rest.archivable levels

end

namespace Layout

/-- `toJson` names the members of a record as its fields are named. -/
theorem map_fst_toJson : (layout : Layout) → (fields : List Value) →
    (layout.toJson fields).map Prod.fst = layout.declared.map fun field => field.1.name
  | .nil, _ => rfl
  | .field about type _ rest, fields => by
    simp [toJson, declared, rest.map_fst_toJson]
  | .group _ _ body rest, fields => by
    simp [toJson, declared, body.map_fst_toJson, rest.map_fst_toJson]

/-- `toJson` makes no members for what stands behind the fields of a record. -/
theorem toJson_take : (layout : Layout) → (fields : List Value) →
    layout.toJson (fields.take layout.size) = layout.toJson fields
  | .nil, _ => rfl
  | .field about type _ rest, fields => by
    cases fields with
    | nil => rfl
    | cons v vs => simp [toJson, size, rest.toJson_take]
  | .group _ _ body rest, fields => by
    simp only [toJson, size, List.take_take, List.drop_take]
    -- cutting to the whole and then to `body` is cutting to `body`
    rw [Nat.min_eq_left (Nat.le_add_right _ _), Nat.add_sub_cancel_left, rest.toJson_take]

end Layout

/-! ## What comes back -/

/-- A list comes back when every element does. -/
theorem mapM_map_eq_some {α β : Type} {f : α → β} {g : β → Option α} {xs : List α}
    (h : ∀ x ∈ xs, g (f x) = some x) : (xs.map f).mapM g = some xs := by
  induction xs with
  | nil => rfl
  | cons x xs ih =>
    rw [List.map_cons, List.mapM_cons, h x List.mem_cons_self,
      ih fun y hy => h y (List.mem_cons_of_mem x hy)]
    rfl

mutual

/-- `ofJson?` takes back what `toJson` made of a value. -/
theorem ValueType.ofJson?_toJson : (type : ValueType) → {levels : Nat} →
    type.archivable levels → {v : Value} → type.holds v → type.ofJson? (type.toJson v) = some v
  | .unsigned w, _, _, v, hv => by
    -- `holds` leaves one constructor for each type
    cases v <;> simp [ValueType.holds] at hv
    case number n => simp [ValueType.toJson, ValueType.ofJson?, hv]
  | .text, _, _, v, hv => by
    cases v <;> simp [ValueType.holds] at hv
    case text s => rfl
  | .list element, levels + 1, ha, v, hv => by
    cases v <;> simp [ValueType.holds] at hv
    case list items =>
      -- every element comes back, so `mapM` collects them all
      have hitems := mapM_map_eq_some fun v hm => element.ofJson?_toJson ha (hv v hm)
      simp [ValueType.toJson, ValueType.ofJson?, hitems]
  | .pair a b, levels + 1, ha, v, hv => by
    simp only [ValueType.archivable, Bool.and_eq_true] at ha
    cases v <;> simp [ValueType.holds] at hv
    case pair x y =>
      simp [ValueType.toJson, ValueType.ofJson?, a.ofJson?_toJson ha.1 hv.1,
        b.ofJson?_toJson ha.2 hv.2]
  | .record _ layout _, levels + 1, ha, v, hv => by
    simp only [ValueType.archivable, Bool.and_eq_true, decide_eq_true_eq] at ha
    cases v <;> simp [ValueType.holds] at hv
    case record fields =>
      have hd := layout.map_fst_toJson fields ▸ ha.1
      have hfields := layout.ofMembers?_toJson ha.2 hv.2 fun m hm => lookup_reverse_of_mem hd hm
      -- The places from the first one on are all that the record has.
      rw [List.drop_zero, ← hv.1, List.take_length] at hfields
      simp [ValueType.toJson, ValueType.ofJson?, hfields]

/-- `ofMembers?` finds the fields of a record among members that have all of its own. -/
theorem Layout.ofMembers?_toJson : (layout : Layout) → {levels : Nat} →
    layout.archivable levels → {slot : Nat} → {fields : List Value} → layout.holds slot fields →
    {ms : List (String × JsonValue)} →
    (∀ m ∈ layout.toJson (fields.drop slot), JsonValue.member? m.1 ms = some m.2) →
    layout.ofMembers? ms = some ((fields.drop slot).take layout.size)
  | .nil, _, _, _, _, _, _, _ => rfl
  | .field about type initial rest, levels, ha, slot, fields, hv, ms, hms => by
    simp only [Layout.archivable, Bool.and_eq_true] at ha
    obtain ⟨⟨v, hs, ht⟩, hrest⟩ := Layout.holds_field hv
    have hdrop : fields.drop slot = v :: fields.drop (slot + 1) := by
      obtain ⟨hlt, rfl⟩ := List.getElem?_eq_some_iff.1 hs
      exact List.drop_eq_getElem_cons hlt
    rw [hdrop] at hms ⊢
    -- `hms` finds the member under the name of this field
    have hfirst : JsonValue.member? about.name ms = some (type.toJson v) :=
      hms (about.name, type.toJson v) List.mem_cons_self
    have hbehind := rest.ofMembers?_toJson ha.2 hrest fun m hm => hms m (List.mem_cons_of_mem _ hm)
    simp [Layout.ofMembers?, Layout.size, hfirst, type.ofJson?_toJson ha.1 ht, hbehind]
  | .group name guard body rest, levels, ha, slot, fields, hv, ms, hms => by
    simp only [Layout.archivable, Bool.and_eq_true] at ha
    obtain ⟨hbody, hrest⟩ := Layout.holds_group hv
    -- The members of the group stand among those of the record.
    rw [Layout.toJson, Layout.toJson_take, List.drop_drop] at hms
    have hin := body.ofMembers?_toJson ha.1 hbody fun m hm => hms m (List.mem_append_left _ hm)
    have hbehind := rest.ofMembers?_toJson ha.2 hrest fun m hm => hms m (List.mem_append_right _ hm)
    simp [Layout.ofMembers?, Layout.size, hin, hbehind, List.take_add, List.drop_drop]

end

/-! ## How deep it is nested -/

mutual

/-- `toJson` of a value nests no deeper than the levels of its type. -/
theorem ValueType.readable_toJson : (type : ValueType) → {levels : Nat} →
    type.archivable levels → {v : Value} → type.holds v → Readable levels (type.toJson v)
  | .unsigned w, _, _, v, hv => by
    cases v <;> simp [ValueType.holds] at hv
    case number n =>
      -- a width fits 64 bits, and so do the numbers that the reader takes
      exact .scalar (.natural (Width.lt_limit hv))
  | .text, _, _, v, hv => .scalar (.text v.toText)
  | .list element, levels + 1, ha, v, hv => by
    cases v <;> simp [ValueType.holds] at hv
    case list items =>
      apply Readable.list
      intro j hj
      obtain ⟨v, hm, rfl⟩ := List.mem_map.1 hj
      exact element.readable_toJson ha (hv v hm)
  | .pair a b, levels + 1, ha, v, hv => by
    simp only [ValueType.archivable, Bool.and_eq_true] at ha
    cases v <;> simp [ValueType.holds] at hv
    case pair x y =>
      apply Readable.list
      intro j hj
      obtain rfl | rfl : j = a.toJson x ∨ j = b.toJson y := by simpa using hj
      · exact a.readable_toJson ha.1 hv.1
      · exact b.readable_toJson ha.2 hv.2
  | .record _ layout _, levels + 1, ha, v, hv => by
    simp only [ValueType.archivable, Bool.and_eq_true] at ha
    cases v <;> simp [ValueType.holds] at hv
    case record fields => exact .object (layout.readable_toJson ha.2 hv.2)

/-- So does `toJson` of every field of a record. -/
theorem Layout.readable_toJson : (layout : Layout) → {levels : Nat} →
    layout.archivable levels → {slot : Nat} → {fields : List Value} → layout.holds slot fields →
    ∀ m ∈ layout.toJson (fields.drop slot), Readable levels m.2
  | .nil, _, _, _, _, _, m, hm => by simp [Layout.toJson] at hm
  | .field about type initial rest, levels, ha, slot, fields, hv, m, hm => by
    simp only [Layout.archivable, Bool.and_eq_true] at ha
    obtain ⟨⟨v, hs, ht⟩, hrest⟩ := Layout.holds_field hv
    rw [Layout.toJson, List.head?_drop, hs, List.tail_drop] at hm
    cases hm with
    | head => exact type.readable_toJson ha.1 ht
    | tail _ hm => exact rest.readable_toJson ha.2 hrest m hm
  | .group name guard body rest, levels, ha, slot, fields, hv, m, hm => by
    simp only [Layout.archivable, Bool.and_eq_true] at ha
    obtain ⟨hbody, hrest⟩ := Layout.holds_group hv
    -- `m` is a member of the group or of what comes behind it
    rw [Layout.toJson, Layout.toJson_take, List.drop_drop] at hm
    obtain hm | hm := List.mem_append.1 hm
    · exact body.readable_toJson ha.1 hbody m hm
    · exact rest.readable_toJson ha.2 hrest m hm

end

end Storefront
