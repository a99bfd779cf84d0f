import Mathlib.Data.List.Forall2
import Storefront.Proofs.Schema.Stream
import Storefront.Schema.Type

/-! # What arrives of a value

A value that has been written and read again is the same value, save for its streams: a sender holds
a source, a receiver what that source yielded (`StreamField.Arrives`).

* `eq_of_arrives`   a value without streams arrives as it was
-/

namespace Storefront

/-! ## Values of a type -/

mutual

/-- True for the values that a field of the type can hold. -/
def ValueType.holds : ValueType → Value → Bool
  | .unsigned w, .number n => w.admits n
  | .status, .number n => Width.u32.admits n
  | .choice e, .number n => (e.member? n).isSome && Width.u8.admits n
  | .options, .number n => n ≤ optionsMask
  | .signed, .signed i => ZigZag.encode i < Varint.limit
  | .flag, .flag _ | .text, .text _ | .secret, .text _ | .blob, .blob _ => true
  | .stream, .stream field => field.declared.all (· < Varint.limit)
  | .list element, .list items => items.all fun v => element.holds v
  | .pair a b, .pair x y => a.holds x && b.holds y
  | .record _ layout _, .record fields => fields.length == layout.size && layout.holds 0 fields
  | _, _ => false

/-- True when the fields of a record, the first of which is number `slot`, can hold what stands in
their places. -/
def Layout.holds : Layout → (slot : Nat) → List Value → Bool
  | .nil, _, _ => true
  | .field _ type _ rest, slot, fields =>
    (fields[slot]?).any (fun v => type.holds v) && rest.holds (slot + 1) fields
  | .group _ _ body rest, slot, fields =>
    body.holds slot fields && rest.holds (slot + body.size) fields

end

/-- True when a record of the type can have the given fields. -/
def RecordType.holds (r : RecordType) (fields : List Value) : Bool :=
  fields.length == r.layout.size && r.layout.holds 0 fields

mutual

/-- True for the types whose values hold no stream. -/
def ValueType.streamFree : ValueType → Bool
  | .stream => false
  | .list element => element.streamFree
  | .pair a b => a.streamFree && b.streamFree
  | .record _ layout _ => layout.streamFree
  | _ => true

/-- True when no field of a record holds a stream. -/
def Layout.streamFree : Layout → Bool
  | .nil => true
  | .field _ type _ rest => type.streamFree && rest.streamFree
  | .group _ _ body rest => body.streamFree && rest.streamFree

end

/-! ## Arrival -/

namespace Value

/-- What arrives of a value that is sent. -/
inductive Arrives : Value → Value → Prop
  | number (n : Nat) : Arrives (number n) (number n)
  | signed (i : Int) : Arrives (signed i) (signed i)
  | flag (b : Bool) : Arrives (flag b) (flag b)
  | text (s : String) : Arrives (text s) (text s)
  | blob (bs : Bytes) : Arrives (blob bs) (blob bs)
  | stream {sent got : StreamField} (h : sent.Arrives got) : Arrives (stream sent) (stream got)
  | list {sent got : List Value} (h : List.Forall₂ Arrives sent got) :
    Arrives (list sent) (list got)
  | pair {x y x' y' : Value} (hx : Arrives x x') (hy : Arrives y y') :
    Arrives (pair x y) (pair x' y')
  | record {sent got : List Value} (h : List.Forall₂ Arrives sent got) :
    Arrives (record sent) (record got)

/-- `toNumber` of a value is the same when it has arrived. -/
theorem Arrives.toNumber_eq {sent got : Value} (h : sent.Arrives got) :
    got.toNumber = sent.toNumber := by
  cases h <;> rfl

end Value

/-- Lists are related by `Forall₂` when each place of them is. -/
theorem forall₂_of_getElem? {α β : Type} {R : α → β → Prop} {as : List α} {bs : List β}
    (hl : as.length = bs.length)
    (h : ∀ (i : Nat) (a : α) (b : β), as[i]? = some a → bs[i]? = some b → R a b) :
    List.Forall₂ R as bs := by
  rw [List.forall₂_iff_get]
  -- Related place by place, as both are of the same length.
  refine ⟨hl, fun i ha hb => h i _ _ ?_ ?_⟩
  · exact List.getElem?_eq_getElem ha
  · exact List.getElem?_eq_getElem hb

/-- Every place of a list has its match in one that is related by `Forall₂`. -/
theorem getElem?_of_forall₂ {α β : Type} {R : α → β → Prop} {as : List α} {bs : List β}
    (h : List.Forall₂ R as bs) {i : Nat} {a : α} (ha : as[i]? = some a) :
    ∃ b, bs[i]? = some b ∧ R a b := by
  obtain ⟨hi, rfl⟩ := List.getElem?_eq_some_iff.1 ha
  have hj : i < bs.length := h.length_eq ▸ hi
  exact ⟨bs[i], List.getElem?_eq_getElem hj, h.get hi hj⟩

namespace Layout

/-- `holds` of a field: its value is in its slot, and the rest `holds` behind it. -/
theorem holds_field {about : FieldMeta} {type : ValueType} {initial : Value} {rest : Layout}
    {slot : Nat} {fields : List Value} (h : (field about type initial rest).holds slot fields) :
    (∃ v, fields[slot]? = some v ∧ type.holds v) ∧ rest.holds (slot + 1) fields := by
  simp only [holds, Bool.and_eq_true, Option.any_eq_true] at h
  exact h

theorem holds_group {name : String} {guard : Guard} {body rest : Layout} {slot : Nat}
    {fields : List Value} (h : (group name guard body rest).holds slot fields) :
    body.holds slot fields ∧ rest.holds (slot + body.size) fields := by
  simp only [holds, Bool.and_eq_true] at h
  exact h

end Layout

/-- When every value of a list arrives as it was, so does the list, by `Forall₂`. -/
theorem eq_of_forall₂_arrives {sent got : List Value} (h : List.Forall₂ Value.Arrives sent got)
    (hv : ∀ v ∈ sent, ∀ w, v.Arrives w → w = v) : got = sent := by
  induction h with
  | nil => rfl
  | cons hxy _ ih =>
    rw [hv _ List.mem_cons_self _ hxy, ih fun v hm => hv v (List.mem_cons_of_mem _ hm)]

mutual

/-- `Arrives` is equality for values without streams. -/
theorem ValueType.eq_of_arrives : (type : ValueType) → type.streamFree → {sent got : Value} →
    type.holds sent → sent.Arrives got → got = sent
  | .list element, hfree, sent, got, hv, h => by
    cases h <;> simp [ValueType.holds] at hv
    case list items got h =>
      rw [eq_of_forall₂_arrives h fun v hm w hw => element.eq_of_arrives hfree (hv v hm) hw]
  | .pair a b, hfree, sent, got, hv, h => by
    simp only [ValueType.streamFree, Bool.and_eq_true] at hfree
    cases h <;> simp [ValueType.holds] at hv
    case pair hx hy => rw [a.eq_of_arrives hfree.1 hv.1 hx, b.eq_of_arrives hfree.2 hv.2 hy]
  | .record _ layout _, hfree, sent, got, hv, h => by
    cases h <;> simp [ValueType.holds] at hv
    case record fields got h =>
      have hl := h.length_eq
      congr 1
      -- Every place of the record belongs to one of its fields, and there is none behind them.
      apply List.ext_getElem?
      intro i
      by_cases hi : i < fields.length
      · exact layout.getElem?_eq_of_arrives hfree hv.2 h i (Nat.zero_le i) (by omega)
      · rw [List.getElem?_eq_none (by omega), List.getElem?_eq_none (by omega)]
  | .stream, hfree, _, _, _, _ => by simp [ValueType.streamFree] at hfree
  | .unsigned _, _, _, _, hv, h | .status, _, _, _, hv, h | .choice _, _, _, _, hv, h
  | .options, _, _, _, hv, h | .signed, _, _, _, hv, h | .flag, _, _, _, hv, h
  | .text, _, _, _, hv, h | .secret, _, _, _, hv, h | .blob, _, _, _, hv, h => by
    cases h <;> first | rfl | simp [ValueType.holds] at hv

/-- `Arrives` is equality, place by place, for the fields of a record without streams. -/
theorem Layout.getElem?_eq_of_arrives : (layout : Layout) → layout.streamFree → {slot : Nat} →
    {sent got : List Value} → layout.holds slot sent → List.Forall₂ Value.Arrives sent got →
    ∀ i, slot ≤ i → i < slot + layout.size → got[i]? = sent[i]?
  | .nil, _, slot, _, _, _, _, i, hlo, hhi => by simp [Layout.size] at hhi; omega
  | .field about type initial rest, hfree, slot, sent, got, hv, h, i, hlo, hhi => by
    simp only [Layout.streamFree, Bool.and_eq_true] at hfree
    simp only [Layout.size] at hhi
    obtain ⟨⟨v, hs, ht⟩, hrest⟩ := Layout.holds_field hv
    -- Either the place is that of this field, or it is one of the others.
    by_cases hi : i = slot
    · subst hi
      obtain ⟨w, hg, hvw⟩ := getElem?_of_forall₂ h hs
      rw [hs, hg, type.eq_of_arrives hfree.1 ht hvw]
    · exact rest.getElem?_eq_of_arrives hfree.2 hrest h i (by omega) (by omega)
  | .group name guard body rest, hfree, slot, sent, got, hv, h, i, hlo, hhi => by
    simp only [Layout.streamFree, Bool.and_eq_true] at hfree
    simp only [Layout.size] at hhi
    obtain ⟨hbody, hrest⟩ := Layout.holds_group hv
    -- Either the place is in the group, or it is behind it.
    by_cases hi : i < slot + body.size
    · exact body.getElem?_eq_of_arrives hfree.1 hbody h i hlo hi
    · exact rest.getElem?_eq_of_arrives hfree.2 hrest h i (by omega) (by omega)

end

end Storefront
