import Storefront.Proofs.Schema.Walk

/-! # Walks over an indexed body

`Layout.decode` goes through the fields of a layout in order, looks each tag up in the index and
skips the groups whose guards do not hold.  This file says what one step of it does and where it
gets to.

* `decode_frame`                       slots outside of the layout are kept
* `decode_field_ok`, `decode_group_ok` inversion of a successful step
* `visits`                             the places that it comes to, with the values found there
-/

namespace Storefront

namespace Layout

/-- `Layout.decode` keeps the number of fields, and every field outside of its own slots. -/
theorem decode_frame (ctx : Context) (index : FieldIndex) : (layout : Layout) → ∀ slot fields,
    (layout.decode ctx index slot fields).1.length = fields.length ∧
      ∀ i, i < slot ∨ slot + layout.size ≤ i →
        (layout.decode ctx index slot fields).1[i]? = fields[i]?
  | nil, _, _ => ⟨rfl, fun _ _ => rfl⟩
  | field about type initial rest, slot, fields => by
    simp only [size]
    simp only [decode]
    -- the cases of `decode`: no field under the tag, another wire type, a value that fails or not
    split
    · obtain ⟨hl, hframe⟩ := rest.decode_frame ctx index (slot + 1) fields
      exact ⟨hl, fun i hi => hframe i (by omega)⟩
    · split
      · exact ⟨rfl, fun _ _ => rfl⟩
      · -- Only slot `slot` is set, also where reading the value fails.
        split
        · exact ⟨List.length_set, fun i hi => List.getElem?_set_ne (by omega)⟩
        · obtain ⟨hl, hframe⟩ := rest.decode_frame ctx index (slot + 1) (fields.set slot _)
          refine ⟨by rw [hl, List.length_set], fun i hi => ?_⟩
          rw [hframe i (by omega), List.getElem?_set_ne (by omega)]
  | group name guard body rest, slot, fields => by
    simp only [size]
    simp only [decode]
    -- `body` has the slots up to `slot + body.size`, and `rest` those behind it
    obtain ⟨hl, hframe⟩ := body.decode_frame ctx index slot fields
    split
    · split
      · exact ⟨hl, fun i hi => hframe i (by omega)⟩
      · obtain ⟨hl', hframe'⟩ := rest.decode_frame ctx index (slot + body.size)
          (body.decode ctx index slot fields).1
        refine ⟨by rw [hl', hl], fun i hi => ?_⟩
        rw [hframe' i (by omega), hframe i (by omega)]
    · obtain ⟨hl', hframe'⟩ := rest.decode_frame ctx index (slot + body.size) fields
      exact ⟨hl', fun i hi => hframe' i (by omega)⟩

section

variable {ctx : Context} {index : FieldIndex} {slot : Nat} {fields got : List Value} {rest : Layout}

/-- `decode` of the rest does not touch the field in front. -/
theorem getElem?_of_decode {r : Except SchemaError Unit}
    (h : rest.decode ctx index (slot + 1) fields = (got, r)) : got[slot]? = fields[slot]? := by
  have hframe := (rest.decode_frame ctx index (slot + 1) fields).2 slot (.inl (Nat.lt_succ_self slot))
  rwa [h] at hframe

/-- One step of `decode` over a field that is found, with the wire type of its type, and read: the
value is set in its slot, and the rest is read. -/
theorem decode_of_read {about : FieldMeta} {type : ValueType} {initial v : Value} {raw : RawField}
    {c : Cursor} (hfound : index.find? about.tag = some raw) (htype : raw.type = type.wireType)
    (hread : type.decodeBody about ctx (fields[slot]?.getD type.initial) raw.cursor =
      ⟨v, c, .ok ()⟩) :
    (field about type initial rest).decode ctx index slot fields =
      rest.decode ctx index (slot + 1) (fields.set slot v) := by
  have hexpect : raw.expect type.wireType = .ok () := if_pos htype
  simp only [decode, hfound, hexpect, hread]

/-- Inversion of `decode` over a field: the tag is not in the index, or the value under it has the
right wire type, is read, and is set in its slot. -/
theorem decode_field_ok {about : FieldMeta} {type : ValueType} {initial : Value}
    (h : (field about type initial rest).decode ctx index slot fields = (got, .ok ())) :
    (index.find? about.tag = none ∧ rest.decode ctx index (slot + 1) fields = (got, .ok ())) ∨
      ∃ raw, index.find? about.tag = some raw ∧ raw.expect type.wireType = .ok () ∧
        (type.decodeBody about ctx (fields[slot]?.getD type.initial) raw.cursor).result = .ok () ∧
        rest.decode ctx index (slot + 1) (fields.set slot
          (type.decodeBody about ctx (fields[slot]?.getD type.initial) raw.cursor).value) =
            (got, .ok ()) := by
  simp only [decode] at h
  cases hfound : index.find? about.tag with
  | none =>
    simp only [hfound] at h
    exact .inl ⟨rfl, h⟩
  | some raw =>
    simp only [hfound] at h
    -- a wrong wire type and a failed `decodeBody` both contradict the `.ok ()` of `h`
    split at h
    · simp at h
    · next hexpect =>
      split at h
      · simp at h
      · next hread => exact .inr ⟨raw, rfl, hexpect, hread, h⟩

/-- Inversion of `decode` over a group: the guard holds and the body is read before the rest, or the
guard does not hold and the rest is read at once. -/
theorem decode_group_ok {name : String} {guard : Guard} {body : Layout}
    (h : (group name guard body rest).decode ctx index slot fields = (got, .ok ())) :
    (guard fields ctx ∧ ∃ inner, body.decode ctx index slot fields = (inner, .ok ()) ∧
      rest.decode ctx index (slot + body.size) inner = (got, .ok ())) ∨
      (¬ guard fields ctx ∧ rest.decode ctx index (slot + body.size) fields = (got, .ok ())) := by
  simp only [decode] at h
  split at h
  · next hguard =>
    split at h
    · simp at h
    · next hbody => exact .inl ⟨hguard, _, Prod.ext rfl hbody, h⟩
  · next hguard => exact .inr ⟨hguard, h⟩

end

/-- The places that `decode` comes to, each with the value that stands there by then.  After a
failure it comes to no more of them. -/
def visits : Layout → Context → FieldIndex → (slot : Nat) → List Value → List (Place × Value)
  | nil, _, _, _, _ => []
  | field about type _ rest, ctx, index, slot, fields =>
    let old := fields[slot]?.getD type.initial
    (⟨slot, about, type⟩, old) ::
      match index.find? about.tag with
      | none => rest.visits ctx index (slot + 1) fields
      | some raw =>
        match raw.expect type.wireType with
        | .error _ => []
        | .ok () =>
          let x := type.decodeBody about ctx old raw.cursor
          match x.result with
          | .error _ => []
          | .ok () => rest.visits ctx index (slot + 1) (fields.set slot x.value)
  | group _ guard body rest, ctx, index, slot, fields =>
    if guard fields ctx then
      let x := body.decode ctx index slot fields
      body.visits ctx index slot fields ++
        match x.2 with
        | .error _ => []
        | .ok () => rest.visits ctx index (slot + body.size) x.1
    else rest.visits ctx index (slot + body.size) fields

/-- `visits` comes to `places` of the layout only. -/
theorem mem_places_of_visits {ctx : Context} {index : FieldIndex} : (layout : Layout) →
    ∀ {slot : Nat} {fields : List Value}, ∀ x ∈ layout.visits ctx index slot fields,
      x.1 ∈ layout.places slot
  | nil, _, _, x, hx => by simp [visits] at hx
  | field about type initial rest, slot, fields, x, hx => by
    simp only [visits] at hx
    rcases List.mem_cons.1 hx with rfl | hx
    · exact List.mem_cons_self
    · refine List.mem_cons_of_mem _ ?_
      -- Three ways on: not found, wrong wire type, or read; a failure ends the visits.
      split at hx
      · exact rest.mem_places_of_visits x hx
      · split at hx
        · simp at hx
        · split at hx
          · simp at hx
          · exact rest.mem_places_of_visits x hx
  | group name guard body rest, slot, fields, x, hx => by
    simp only [visits] at hx
    split at hx
    · -- `visits` appends as `places` does, with the guard in front
      rcases List.mem_append.1 hx with hx | hx
      · exact List.mem_append_left _ (body.mem_places_of_visits x hx)
      · split at hx
        · simp at hx
        · exact List.mem_append_right _ (rest.mem_places_of_visits x hx)
    · exact List.mem_append_right _ (rest.mem_places_of_visits x hx)

end Layout

end Storefront
