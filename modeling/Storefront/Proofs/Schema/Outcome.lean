import Storefront.Proofs.Schema.Walk
import Storefront.Schema.Body

/-! # How writing ends

Writing comes to the fields of a walk one after the other, and ends as the first of them does that
cannot be written.

* `encode_result`            the outcomes of the fields one after the other
* `encode_stops`             the first field that fails
-/

namespace Storefront

theorem Encoded.andThen_result {α : Type} (x : Encoded α) (f : α → Encoded α) :
    (x.andThen f).result = x.result.bind fun _ => (f x.value).result := by
  cases hx : x.result with
  | error e => simp only [andThen, hx, Except.bind]
  | ok u => simp only [andThen, hx, Except.bind]

/-- How writing the field in a place ends, on its own. -/
def Place.outcome (p : Place) (ctx : Context) (fields : List Value) : Except SchemaError Unit :=
  match Wire.key p.about.tag p.type.wireType, fields[p.slot]? with
  | .error e, _ => .error (.wire e)
  | .ok _, none => .error (.illTyped p.about.tag)
  | .ok _, some v => (p.type.encode p.about ctx v).result

/-- The first failure among outcomes, in order. -/
def firstFailure : List (Except SchemaError Unit) → Except SchemaError Unit
  | [] => .ok ()
  | x :: xs => x.bind fun _ => firstFailure xs

theorem firstFailure_append (xs ys : List (Except SchemaError Unit)) :
    firstFailure (xs ++ ys) = (firstFailure xs).bind fun _ => firstFailure ys := by
  induction xs with
  | nil => rfl
  | cons x xs ih =>
    cases x with
    | error e => rfl
    | ok u => exact ih

/-- `firstFailure` runs past outcomes that are no failures. -/
theorem firstFailure_of_ok {xs : List (Except SchemaError Unit)} (h : ∀ x ∈ xs, x = .ok ())
    (ys : List (Except SchemaError Unit)) : firstFailure (xs ++ ys) = firstFailure ys := by
  induction xs with
  | nil => rfl
  | cons x xs ih =>
    obtain rfl := h x List.mem_cons_self
    exact ih fun y hy => h y (List.mem_cons_of_mem _ hy)

namespace Layout

variable {ctx : Context} {shown : List Value}

/-- `encode` of a field ends as its `outcome` does, and then as the rest does. -/
theorem encode_field_result {about : FieldMeta} {type : ValueType} {initial : Value} {rest : Layout}
    {slot : Nat} {fields : List Value} (hslot : fields[slot]? = shown[slot]?) :
    ∃ v', ((field about type initial rest).encode ctx shown slot fields).result =
      ((Place.mk slot about type).outcome ctx shown).bind fun _ =>
        (rest.encode ctx shown (slot + 1) (fields.set slot v')).result := by
  simp only [encode, Place.outcome, hslot]
  -- `encode` fails with the key, with a missing value, or with the value, in this order
  cases Wire.key about.tag type.wireType with
  | error e => exact ⟨default, rfl⟩
  | ok key =>
    cases shown[slot]? with
    | none => exact ⟨default, rfl⟩
    | some v => exact ⟨_, Encoded.andThen_result _ _⟩

/-- `encode` ends with the `firstFailure` among the fields that `walk` comes to. -/
theorem encode_result : (layout : Layout) → ∀ {slot fields},
    (∀ i, slot ≤ i → fields[i]? = shown[i]?) →
    (layout.encode ctx shown slot fields).result =
      firstFailure ((layout.walk ctx shown slot).map (·.outcome ctx shown))
  | nil, slot, fields, _ => rfl
  | field about type initial rest, slot, fields, hshown => by
    obtain ⟨v', hresult⟩ := encode_field_result (hshown slot (Nat.le_refl _))
    -- The fields that follow have not been touched by writing this one.
    have hfollow : ∀ i, slot + 1 ≤ i → (fields.set slot v')[i]? = shown[i]? := by
      intro i hi
      rw [List.getElem?_set_ne (by omega)]
      exact hshown i (by omega)
    have hrest := rest.encode_result hfollow
    rw [hresult, hrest, walk, List.map_cons, firstFailure]
  | group name guard body rest, slot, fields, hshown => by
    simp only [encode, walk]
    rw [Encoded.andThen_result, List.map_append, firstFailure_append]
    -- the guard sees `shown`, not what writing has made of the fields
    by_cases hguard : guard shown ctx = true
    · rw [if_pos hguard, if_pos hguard, body.encode_result hshown, rest.encode_result fun i hi => ?_]
      rw [body.encode_frame ctx shown _ _ _ hi]
      exact hshown i (by omega)
    · rw [if_neg hguard, if_neg hguard]
      exact rest.encode_result fun i hi => hshown i (by omega)

end Layout

namespace Place

variable {p : Place} {ctx : Context} {fields : List Value}

/-- `outcome` of a place whose tag fits a key is that of its value. -/
theorem outcome_of_tag (htag : p.about.tag ≤ maxTag) {v : Value} (hv : fields[p.slot]? = some v) :
    p.outcome ctx fields = (p.type.encode p.about ctx v).result := by
  have hkey : Wire.key p.about.tag p.type.wireType =
      .ok (Varint.encode (p.about.tag * 8 + p.type.wireType.bits)) := by
    rw [Wire.key, if_neg (Nat.not_lt.2 htag)]
  rw [outcome, hkey, hv]

theorem Written.outcome (h : p.Written ctx fields) : p.outcome ctx fields = .ok () :=
  (outcome_of_tag h.tag h.standing).trans h.result

end Place

namespace RecordType

variable {r : RecordType} {ctx : Context} {fields : List Value}

/-- `encode` ends with the first field that cannot be written, behind others that can. -/
theorem encode_stops {before after : List Place} {p : Place} {e : SchemaError}
    (hwalk : r.layout.walk ctx fields 0 = before ++ p :: after)
    (hbefore : ∀ q ∈ before, q.Written ctx fields) (hp : p.outcome ctx fields = .error e) :
    (r.encode ctx fields).result = .error e := by
  -- `Written` fields have the outcome `.ok ()`, so `firstFailure` runs past them
  have hok : ∀ x ∈ before.map (·.outcome ctx fields), x = .ok () := by
    intro x hx
    obtain ⟨q, hq, rfl⟩ := List.mem_map.1 hx
    exact (hbefore q hq).outcome
  have hresult : (r.encode ctx fields).result =
      firstFailure ((r.layout.walk ctx fields 0).map (·.outcome ctx fields)) :=
    r.layout.encode_result fun _ _ => rfl
  rw [hresult, hwalk, List.map_append, List.map_cons, firstFailure_of_ok hok, firstFailure, hp]
  rfl

end RecordType

end Storefront
