import Storefront.Proofs.Schema.Anywhere
import Storefront.Proofs.Schema.Bounds
import Storefront.Proofs.Wire.Contents

/-! # What a collection is read from

A collection is its count and so many elements, a pair is its two components, and each of these
stands in full.  What is behind them in a body is not looked at: the reader of a collection or a
pair stops where the last of its parts ends, and whoever handed it the body does not ask whether it
has been read to its end.  Texts, blobs and records take their whole body.

* `Composed`, `ComposedOctets`   bodies and elements made up of their parts, at every depth
* `Composed.decodeBody_yields`   what is composed is read
* `composed_of_decodeBody`       what is read is composed
* `read_iff_composed`            collections and pairs, with what is left behind them
-/

namespace Storefront

/-- A read succeeds with a value and leaves octets behind it. -/
structure Decoded.Yields {α : Type} (x : Decoded α) (v : α) (left : Bytes) : Prop where
  result : x.result = .ok ()
  value : x.value = v
  rest : x.cursor.rest = left

namespace ValueType

/-- True for types whose values hold no others. -/
def isLeaf : ValueType → Bool
  | list _ | pair _ _ | record _ _ _ => false
  | _ => true

/-- True for types whose values are others in a row. -/
def isRow : ValueType → Bool
  | list _ | pair _ _ => true
  | _ => false

end ValueType

section

variable (loose : Bytes → Prop)

mutual

/-- The body of a value: its parts one after the other, and the octets `left` behind them.  What is
left behind the parts of a value inside of it is `loose`. -/
inductive ValueType.Composed : ValueType → FieldMeta → Context → (old : Value) → (body : Bytes) →
    Value → (left : Bytes) → Prop
  | leaf {type : ValueType} {about : FieldMeta} {ctx : Context} {old : Value} {body : Bytes}
    {v : Value} (hleaf : type.isLeaf)
    (hread : (type.decodeBody about ctx old (Cursor.start body)).Yields v []) :
    Composed type about ctx old body v []
  /-- A count, within its bound, and so many elements. -/
  | list {element : ValueType} {about : FieldMeta} {ctx : Context} {old : Value} {count : Bytes}
    {parts : List (Bytes × Value)} {left : Bytes} (hcount : Varint.Measures count parts.length)
    (hbound : checkBound about.tag parts.length about.maxSize = .ok ())
    (hparts : ∀ x ∈ parts, ComposedOctets element about.element ctx element.initial x.1 x.2) :
    Composed (.list element) about ctx old (count ++ (parts.flatMap (·.1) ++ left))
      (.list (parts.map (·.2))) left
  /-- Two components, each read into what stands in its place. -/
  | pair {a b : ValueType} {about : FieldMeta} {ctx : Context} {old : Value}
    {first second left : Bytes} {x y : Value}
    (hfirst : ComposedOctets a about.element ctx (old.components a b).1 first x)
    (hsecond : ComposedOctets b about.element ctx (old.components a b).2 second y) :
    Composed (.pair a b) about ctx old (first ++ (second ++ left)) (.pair x y) left
  /-- Fields, of which those that the reader comes to are composed in their turn. -/
  | record {name : String} {layout : Layout} {hook : Option Hook} {about : FieldMeta}
    {ctx : Context} {old : Value} {body : Bytes} {v : Value} {index : FieldIndex}
    (hindex : FieldIndex.ofBody layout.byteBound body = .ok index)
    (hread : ((ValueType.record name layout hook).decodeBody about ctx old
      (Cursor.start body)).Yields v [])
    (hleft : ∀ x ∈ layout.visits ctx index 0 (layout.fieldsOf old), ∀ raw,
      index.find? x.1.about.tag = some raw → ∀ w left,
      (x.1.type.decodeBody x.1.about ctx x.2 raw.cursor).Yields w left → loose left)
    (hfields : ∀ x ∈ layout.visits ctx index 0 (layout.fieldsOf old), ∀ raw,
      index.find? x.1.about.tag = some raw → ∀ w left,
      (x.1.type.decodeBody x.1.about ctx x.2 raw.cursor).Yields w left →
      Composed x.1.type x.1.about ctx x.2 raw.body w left) :
    Composed (.record name layout hook) about ctx old body v []

/-- A value as it stands as an element: its body, behind the length of that if its type asks for
one. -/
inductive ValueType.ComposedOctets : ValueType → FieldMeta → Context → (old : Value) →
    (octets : Bytes) → Value → Prop
  | bare {type : ValueType} {about : FieldMeta} {ctx : Context} {old : Value} {octets : Bytes}
    {v : Value} (hw : type.wireType ≠ .len) (hbody : Composed type about ctx old octets v []) :
    ComposedOctets type about ctx old octets v
  | enclosed {type : ValueType} {about : FieldMeta} {ctx : Context} {old : Value}
    {size body left : Bytes} {v : Value} (hw : type.wireType = .len)
    (hsize : Varint.Measures size body.length) (hbody : Composed type about ctx old body v left)
    (hleft : loose left) : ComposedOctets type about ctx old (size ++ body) v

end

end

namespace Decoded

variable {f : Cursor → Decoded Value}

/-- `all` yields the values of elements that are read one by one. -/
theorem all_yields {parts : List (Bytes × Value)}
    (hf : ∀ x ∈ parts, ∀ p rest, (f ⟨p, x.1 ++ rest⟩).Yields x.2 rest) (done : List Value) (p : Nat)
    (left : Bytes) :
    (all f parts.length done ⟨p, parts.flatMap (·.1) ++ left⟩).Yields
      (done.reverse ++ parts.map (·.2)) left := by
  -- Along the elements: behind each of them stand the others, and then what is left.
  induction parts generalizing done p with
  | nil => exact ⟨rfl, by simp [all], rfl⟩
  | cons x parts ih =>
    have hx := hf x List.mem_cons_self p (parts.flatMap (·.1) ++ left)
    obtain ⟨q, hq⟩ := eq_of_rest hx.rest
    have hmore := ih (fun y hy => hf y (List.mem_cons_of_mem _ hy)) (x.2 :: done) q
    rw [List.flatMap_cons, List.append_assoc, List.length_cons]
    simp only [all, hx.result, hx.value, hq]
    rw [List.map_cons]
    rw [List.reverse_cons, List.append_assoc, List.singleton_append] at hmore
    exact hmore

/-- `all` yields values only of octets that are those of the elements in a row. -/
theorem of_all_yields {P : Bytes → Value → Prop}
    (hf : ∀ c v left, (f c).Yields v left → ∃ octets, octets ++ left = c.rest ∧ P octets v)
    {count : Nat} {done vs : List Value} {c : Cursor} {left : Bytes}
    (h : (all f count done c).Yields vs left) :
    ∃ parts : List (Bytes × Value), parts.length = count ∧
      parts.flatMap (·.1) ++ left = c.rest ∧ vs = done.reverse ++ parts.map (·.2) ∧
      ∀ x ∈ parts, P x.1 x.2 := by
  -- On the count: what the first read leaves is what the others are read from.
  induction count generalizing done c with
  | zero => exact ⟨[], rfl, h.rest.symm, by simp [← h.value, all], nofun⟩
  | succ count ih =>
    cases hresult : (f c).result with
    | error e =>
      have hfails := h.result
      simp [all, hresult] at hfails
    | ok u =>
      obtain ⟨octets, hoctets, hP⟩ := hf c _ _ ⟨hresult, rfl, rfl⟩
      simp only [all, hresult] at h
      obtain ⟨parts, hlength, hrest, hvalues, hparts⟩ := ih h
      refine ⟨(octets, (f c).value) :: parts, by rw [List.length_cons, hlength], ?_, ?_, ?_⟩
      · rw [List.flatMap_cons, List.append_assoc, hrest, hoctets]
      · rw [hvalues, List.reverse_cons, List.append_assoc, List.singleton_append, List.map_cons]
      · intro x hx
        rcases List.mem_cons.1 hx with rfl | hx
        · exact hP
        · exact hparts x hx

end Decoded

/-- `takes_number` with nothing behind the number. -/
theorem Grammar.Number.measures (n : Number) : Varint.Measures n.octets n.value := by
  have htakes := takes_number n 0 []
  rw [List.append_nil] at htakes
  exact ⟨_, htakes⟩

theorem Grammar.Value.spans (v : Grammar.Value) : v.type.Spans v.spelled := by
  have htakes := takes_skipValue v 0 []
  rw [List.append_nil] at htakes
  exact ⟨_, htakes⟩

/-- `ofBody` cuts fields to their values. -/
theorem FieldIndex.spans_of_ofBody {bound : Nat → Option Nat} {body : Bytes} {index : FieldIndex}
    (h : FieldIndex.ofBody bound body = .ok index) :
    ∀ raw ∈ index, raw.type ≠ .len → raw.type.Spans raw.body := by
  obtain ⟨fields, -, -, -, rfl⟩ := ofBody_eq_ok.1 h
  intro raw hraw hw
  obtain ⟨field, -, rfl⟩ := List.mem_map.1 hraw
  -- Only a length stands before a body without being a part of it.
  have hbody : field.value.body = field.value.spelled := by
    cases hv : field.value with
    | number n => rfl
    | octets size body counted => simp [Grammar.Field.raw, hv, Grammar.Value.type] at hw
    | stream declared chunks ending zero => rfl
  show field.value.type.Spans field.value.body
  rw [hbody]
  exact field.value.spans

namespace ValueType

variable {loose : Bytes → Prop} {about : FieldMeta} {ctx : Context} {old : Value}

theorem decode_of_bare {type : ValueType} (hw : type.wireType ≠ .len) (c : Cursor) :
    type.decode about ctx old c = type.decodeBody about ctx old c := by
  unfold decode decodeEnclosed
  split <;> simp_all

/-! ## What is composed is read -/

/-- `decode` of a type without a length yields what `decodeBody` does, where the body is read to
its end. -/
theorem decode_yields_of_bare {type : ValueType} {octets : Bytes} {v : Value}
    (hw : type.wireType ≠ .len)
    (h : (type.decodeBody about ctx old (Cursor.start octets)).Yields v []) (p : Nat)
    (rest : Bytes) :
    (type.decode about ctx old ⟨p, octets ++ rest⟩).Yields v rest := by
  rw [← decode_of_bare hw] at h
  -- `decode` reads what `skipValue` passes over, wherever this stands (`decode_of_skip`)
  obtain ⟨⟨q, left⟩, hskip⟩ := skip_of_decode h.result
  have hagree := decode_of_skip hskip about ctx old 0 p [] rest
  rw [List.append_nil] at hagree
  obtain ⟨⟨hresult, hvalue⟩, hrest⟩ := hagree
  have hstart := hrest h.result
  -- Nothing is left of the octets alone, so what is left of more is the rest.
  obtain rfl : left = [] := by
    rw [List.append_nil] at hstart
    exact hstart.1.symm.trans h.rest
  exact ⟨hresult.1 h.result, (hvalue h.result).symm.trans h.value, hstart.2⟩

/-- `decodeBody` of a list yields the values of its elements. -/
theorem decodeBody_list_yields {element : ValueType} {count : Bytes} {parts : List (Bytes × Value)}
    (hcount : Varint.Measures count parts.length)
    (hbound : checkBound about.tag parts.length about.maxSize = .ok ())
    (hparts : ∀ x ∈ parts, ∀ p rest,
      (element.decode about.element ctx element.initial ⟨p, x.1 ++ rest⟩).Yields x.2 rest)
    (left : Bytes) :
    ((list element).decodeBody about ctx old
      (Cursor.start (count ++ (parts.flatMap (·.1) ++ left)))).Yields
      (.list (parts.map (·.2))) left := by
  obtain ⟨p, hp⟩ := Cursor.varint_of_measures hcount 0 (parts.flatMap (·.1) ++ left)
  -- An element takes an octet at least, so the count is believed.
  have hne : ∀ x ∈ parts, x.1 ≠ [] := by
    intro x hx hnil
    obtain ⟨c', hskip⟩ := skip_of_decode (hparts x hx 0 []).result
    have hlt := Cursor.skipValue_ok hskip
    simp [hnil] at hlt
  have henough : Bytes.hasAtLeast (parts.flatMap (·.1) ++ left) parts.length = true := by
    rw [Bytes.hasAtLeast_iff, List.length_append]
    exact Nat.le_trans (length_le_length_flatMap hne) (Nat.le_add_right _ _)
  have hall := Decoded.all_yields hparts [] p left
  simp only [decodeBody_list, Cursor.start, hp, hbound, henough, if_true]
  exact ⟨hall.result, congrArg Value.list hall.value, hall.rest⟩

/-- `decodeBody` of a pair yields the values of its components. -/
theorem decodeBody_pair_yields {a b : ValueType} {first second : Bytes} {x y : Value}
    (hfirst : ∀ p rest,
      (a.decode about.element ctx (old.components a b).1 ⟨p, first ++ rest⟩).Yields x rest)
    (hsecond : ∀ p rest,
      (b.decode about.element ctx (old.components a b).2 ⟨p, second ++ rest⟩).Yields y rest)
    (left : Bytes) :
    ((pair a b).decodeBody about ctx old (Cursor.start (first ++ (second ++ left)))).Yields
      (.pair x y) left := by
  have hx := hfirst 0 (second ++ left)
  obtain ⟨q, hq⟩ := eq_of_rest hx.rest
  have hy := hsecond q left
  rw [decodeBody_pair]
  simp only [Cursor.start, hx.result, hx.value, hq]
  exact ⟨hy.result, congrArg (Value.pair x) hy.value, hy.rest⟩

mutual

/-- `decodeBody` yields the value that a body is `Composed` of. -/
theorem Composed.decodeBody_yields {type : ValueType} {about : FieldMeta} {ctx : Context}
    {old : Value} {body : Bytes} {v : Value} {left : Bytes} :
    type.Composed loose about ctx old body v left →
    (type.decodeBody about ctx old (Cursor.start body)).Yields v left
  | .leaf _ hread => hread
  | .list hcount hbound hparts =>
    decodeBody_list_yields hcount hbound (fun x hx => (hparts x hx).decode_yields) left
  | .pair hfirst hsecond =>
    decodeBody_pair_yields hfirst.decode_yields hsecond.decode_yields left
  | .record _ hread _ _ => hread

/-- `decode` yields the value of `ComposedOctets` wherever they stand, and what is behind
them stays. -/
theorem ComposedOctets.decode_yields {type : ValueType} {about : FieldMeta} {ctx : Context}
    {old : Value} {octets : Bytes} {v : Value} :
    type.ComposedOctets loose about ctx old octets v → ∀ p rest,
    (type.decode about ctx old ⟨p, octets ++ rest⟩).Yields v rest
  | .bare hw hbody => decode_yields_of_bare hw hbody.decodeBody_yields
  | .enclosed hw hsize hbody _ => by
    intro p rest
    have hread := hbody.decodeBody_yields
    -- the length is taken off, and the body is read on its own
    obtain ⟨p', hp'⟩ := decode_of_measures hw hsize about ctx old p rest
    rw [List.append_assoc, hp']
    exact ⟨hread.result, hread.value, rfl⟩

end

/-! ## What is read is composed -/

/-- `decodeOctets` takes all that there is. -/
theorem rest_of_decodeOctets {f : Bytes → Except Defect Value} {c : Cursor}
    (h : (decodeOctets about f old c).result = .ok ()) :
    (decodeOctets about f old c).cursor.rest = [] := by
  unfold decodeOctets at h ⊢
  split
  · rename_i hbound
    simp [hbound] at h
  · dsimp only
    split <;> rfl

/-- `decodeBody` of a leaf takes its whole body, if that is cut to it. -/
theorem rest_of_leaf {type : ValueType} {body : Bytes} (hleaf : type.isLeaf)
    (hbody : type.wireType ≠ .len → type.wireType.Spans body)
    (h : (type.decodeBody about ctx old (Cursor.start body)).result = .ok ()) :
    (type.decodeBody about ctx old (Cursor.start body)).cursor.rest = [] := by
  by_cases hw : type.wireType = .len
  · -- texts, secrets and blobs
    cases type <;> simp [wireType, isLeaf] at hw hleaf <;> exact rest_of_decodeOctets h
  · -- numbers and streams, which `Spans` cuts off exactly
    obtain ⟨q, hskip⟩ := hbody hw
    have hagree := decode_of_skip hskip about ctx old 0 0 [] []
    rw [List.append_nil, decode_of_bare hw] at hagree
    exact (hagree.2 h).1

/-- `decode` yields the value of `ComposedOctets` in front of the cursor, if bodies
are `Composed`. -/
theorem octets_of_decode {type : ValueType}
    (hbody : ∀ body v left, (type.decodeBody about ctx old (Cursor.start body)).Yields v left →
      (type.isLeaf → left = []) → type.Composed (fun _ => True) about ctx old body v left)
    {c : Cursor} {v : Value} {left : Bytes} (h : (type.decode about ctx old c).Yields v left) :
    ∃ octets, octets ++ left = c.rest ∧
      type.ComposedOctets (fun _ => True) about ctx old octets v := by
  by_cases hw : type.wireType = .len
  · cases hread : Cursor.lenPrefixed none about.tag c with
    | error e c' =>
      have hfails := h.result
      simp [decode, decodeEnclosed, hw, hread] at hfails
    | ok body c' =>
      -- The octets are the length and the body, whatever the reader has left of that.
      obtain ⟨size, hsize, -, hpass⟩ := Grammar.lenPrefixed_of_read hread
      have hmeasures : Varint.Measures size.octets body.length := hsize ▸ size.measures
      obtain ⟨hresult, hvalue, hrest⟩ := h
      simp only [decode, decodeEnclosed, hw, hread] at hresult hvalue hrest
      have hcomposed := hbody body v _ ⟨hresult, hvalue, rfl⟩ fun hleaf =>
        rest_of_leaf hleaf (fun hne => absurd hw hne) hresult
      refine ⟨size.octets ++ body, ?_, .enclosed hw hmeasures hcomposed trivial⟩
      rw [← hrest]
      exact hpass.rest
  · -- Without a length, the octets are those that can be passed over.
    obtain ⟨c', hskip⟩ := skip_of_decode h.result
    obtain ⟨g, hg, hpass⟩ := Grammar.value_of_skip hskip
    have hspans : type.wireType.Spans g.spelled := hg ▸ g.spans
    obtain ⟨q, hcut⟩ := hspans
    have hc : (⟨c.position, g.spelled ++ c'.rest⟩ : Cursor) = c := by rw [hpass.rest]
    have hagree := decode_of_skip hcut about ctx old 0 c.position [] c'.rest
    rw [hc, List.append_nil] at hagree
    obtain ⟨⟨hresult, hvalue⟩, hrest⟩ := hagree
    have hstart := hresult.2 h.result
    obtain ⟨halone, hleft⟩ := hrest hstart
    have hbare : (type.decodeBody about ctx old (Cursor.start g.spelled)).Yields v [] := by
      rw [← decode_of_bare hw]
      exact ⟨hstart, (hvalue hstart).trans h.value, halone⟩
    refine ⟨g.spelled, ?_, .bare hw (hbody _ _ _ hbare fun _ => rfl)⟩
    rw [← hpass.rest, ← h.rest, hleft]
    rfl

/-- `decodeBody` of a list yields values only of a count and so many elements. -/
theorem composed_list {element : ValueType}
    (hitem : ∀ c v left, (element.decode about.element ctx element.initial c).Yields v left →
      ∃ octets, octets ++ left = c.rest ∧
        element.ComposedOctets (fun _ => True) about.element ctx element.initial octets v)
    {body : Bytes} {v : Value} {left : Bytes}
    (h : ((list element).decodeBody about ctx old (Cursor.start body)).Yields v left) :
    (list element).Composed (fun _ => True) about ctx old body v left := by
  obtain ⟨hresult, hvalue, hrest⟩ := h
  -- A read that succeeds has come through all that can refuse a count.
  cases hread : Cursor.varint (Cursor.start body) with
  | error e c' => simp [decodeBody_list, hread] at hresult
  | ok n c' =>
    cases hbound : checkBound about.tag n about.maxSize with
    | error e => simp [decodeBody_list, hread, hbound] at hresult
    | ok u =>
      by_cases henough : c'.rest.hasAtLeast n = true
      · simp only [decodeBody_list, hread, hbound, henough, if_true] at hresult hvalue hrest
        obtain ⟨parts, rfl, hoctets, hvalues, hparts⟩ :=
          Decoded.of_all_yields hitem ⟨hresult, rfl, hrest⟩
        obtain ⟨count, hcount, hpass⟩ := Grammar.number_of_read hread
        have hmeasures : Varint.Measures count.octets parts.length := hcount ▸ count.measures
        have hv : v = .list (parts.map (·.2)) := by
          rw [← hvalue, hvalues]
          rfl
        have hwhole : body = count.octets ++ (parts.flatMap (·.1) ++ left) := by
          rw [hoctets]
          exact hpass.rest.symm
        rw [hv, hwhole]
        exact .list hmeasures hbound hparts
      · simp [decodeBody_list, hread, hbound, henough] at hresult

/-- `decodeBody` of a pair yields a value only of two components. -/
theorem composed_pair {a b : ValueType}
    (hfirst : ∀ c v left, (a.decode about.element ctx (old.components a b).1 c).Yields v left →
      ∃ octets, octets ++ left = c.rest ∧
        a.ComposedOctets (fun _ => True) about.element ctx (old.components a b).1 octets v)
    (hsecond : ∀ c v left, (b.decode about.element ctx (old.components a b).2 c).Yields v left →
      ∃ octets, octets ++ left = c.rest ∧
        b.ComposedOctets (fun _ => True) about.element ctx (old.components a b).2 octets v)
    {body : Bytes} {v : Value} {left : Bytes}
    (h : ((pair a b).decodeBody about ctx old (Cursor.start body)).Yields v left) :
    (pair a b).Composed (fun _ => True) about ctx old body v left := by
  obtain ⟨hresult, hvalue, hrest⟩ := h
  rw [decodeBody_pair] at hresult hvalue hrest
  -- the second component is read where the first one ends, and only if that could be read
  cases hx : (a.decode about.element ctx (old.components a b).1 (Cursor.start body)).result with
  | error e => simp [hx] at hresult
  | ok u =>
    simp only [hx] at hresult hvalue hrest
    obtain ⟨first, hbody, hcomposed⟩ := hfirst _ _ _ ⟨hx, rfl, rfl⟩
    obtain ⟨second, hmore, hcomposed'⟩ := hsecond _ _ _ ⟨hresult, rfl, hrest⟩
    have hwhole : body = first ++ (second ++ left) := by
      rw [hmore]
      exact hbody.symm
    have hpair : (pair a b).Composed (fun _ => True) about ctx old (first ++ (second ++ left)) _
        left := .pair hcomposed hcomposed'
    rwa [← hwhole, hvalue] at hpair

/-- `decodeBody` of a record takes the whole body, which `ofBody` accepts. -/
theorem decodeBody_record_ok {name : String} {layout : Layout} {hook : Option Hook} {body : Bytes}
    (h : ((record name layout hook).decodeBody about ctx old (Cursor.start body)).result = .ok ()) :
    ((record name layout hook).decodeBody about ctx old (Cursor.start body)).cursor.rest = [] ∧
      ∃ index got, FieldIndex.ofBody layout.byteBound body = .ok index ∧
        layout.decode ctx index 0 (layout.fieldsOf old) = (got, .ok ()) := by
  cases hindex : FieldIndex.ofBody layout.byteBound body with
  | error e => simp [decodeBody, Cursor.start, hindex] at h
  | ok index =>
    cases hread : layout.decode ctx index 0 (layout.fieldsOf old) with
    | mk got result =>
      cases result with
      | error e => simp [decodeBody, Cursor.start, hindex, hread] at h
      | ok u =>
        refine ⟨?_, index, got, rfl, hread⟩
        simp only [decodeBody, Cursor.start, hindex, hread]
        -- with a hook or without, the cursor has been moved to the end by then
        split
        · rfl
        · split <;> rfl

end ValueType

mutual

/-- `decodeBody` yields a value only of a body that is `Composed` of its parts, with whatever is
left behind them. -/
theorem ValueType.composed_of_decodeBody : (type : ValueType) → ∀ {about : FieldMeta}
    {ctx : Context} {old : Value} {body : Bytes} {v : Value} {left : Bytes},
    (type.decodeBody about ctx old (Cursor.start body)).Yields v left →
    (type.isLeaf → left = []) → type.Composed (fun _ => True) about ctx old body v left
  | .list element, about, ctx, old, body, v, left, h, _ =>
    ValueType.composed_list
      (fun _ _ _ => ValueType.octets_of_decode fun _ _ _ => element.composed_of_decodeBody) h
  | .pair a b, about, ctx, old, body, v, left, h, _ =>
    ValueType.composed_pair
      (fun _ _ _ => ValueType.octets_of_decode fun _ _ _ => a.composed_of_decodeBody)
      (fun _ _ _ => ValueType.octets_of_decode fun _ _ _ => b.composed_of_decodeBody) h
  | .record name layout hook, about, ctx, old, body, v, left, h, _ => by
    obtain ⟨hempty, index, got, hindex, hread⟩ := ValueType.decodeBody_record_ok h.result
    obtain rfl : left = [] := h.rest.symm.trans hempty
    exact .record hindex h (fun _ _ _ _ _ _ _ => trivial)
      (layout.composed_of_decode (FieldIndex.spans_of_ofBody hindex) hread)
  | .unsigned _, _, _, _, _, _, _, h, hleaf | .status, _, _, _, _, _, _, h, hleaf
  | .choice _, _, _, _, _, _, _, h, hleaf | .options, _, _, _, _, _, _, h, hleaf
  | .signed, _, _, _, _, _, _, h, hleaf | .flag, _, _, _, _, _, _, h, hleaf
  | .text, _, _, _, _, _, _, h, hleaf | .secret, _, _, _, _, _, _, h, hleaf
  | .blob, _, _, _, _, _, _, h, hleaf | .stream, _, _, _, _, _, _, h, hleaf => by
    obtain rfl := hleaf rfl
    exact .leaf rfl h

/-- So does `decode` for every field that it comes to and finds. -/
theorem Layout.composed_of_decode {ctx : Context} {index : FieldIndex}
    (hspans : ∀ raw ∈ index, raw.type ≠ .len → raw.type.Spans raw.body) : (layout : Layout) →
    ∀ {slot : Nat} {fields got : List Value},
    layout.decode ctx index slot fields = (got, .ok ()) →
    ∀ x ∈ layout.visits ctx index slot fields, ∀ raw, index.find? x.1.about.tag = some raw →
      ∀ w left, (x.1.type.decodeBody x.1.about ctx x.2 raw.cursor).Yields w left →
      x.1.type.Composed (fun _ => True) x.1.about ctx x.2 raw.body w left
  | .nil, _, _, _, _, x, hx, _, _, _, _, _ => by simp [Layout.visits] at hx
  | .field about type initial rest, slot, fields, got, h, x, hx, raw, hraw, w, left, hw => by
    simp only [Layout.visits] at hx
    obtain ⟨hfound, h⟩ | ⟨found, hfound, hexpect, hread, h⟩ := Layout.decode_field_ok h
    · simp only [hfound] at hx
      rcases List.mem_cons.1 hx with rfl | hx
      · simp [hfound] at hraw
      · exact rest.composed_of_decode hspans h x hx raw hraw w left hw
    · simp only [hfound, hexpect, hread] at hx
      rcases List.mem_cons.1 hx with rfl | hx
      · obtain rfl : found = raw := Option.some.inj (hfound.symm.trans hraw)
        -- The field that was found is of the type that was asked for, so it is cut to its value.
        have htype : found.type = type.wireType := by
          by_contra hne
          simp [RawField.expect, hne] at hexpect
        have hcut := hspans found (List.mem_of_find?_eq_some hfound)
        rw [htype] at hcut
        exact type.composed_of_decodeBody hw fun hleaf =>
          hw.rest.symm.trans (ValueType.rest_of_leaf hleaf hcut hread)
      · exact rest.composed_of_decode hspans h x hx raw hraw w left hw
  | .group name guard body rest, slot, fields, got, h, x, hx, raw, hraw, w, left, hw => by
    simp only [Layout.visits] at hx
    obtain ⟨hguard, inner, hbody, h⟩ | ⟨hguard, h⟩ := Layout.decode_group_ok h
    · rw [if_pos hguard, hbody] at hx
      rcases List.mem_append.1 hx with hx | hx
      · exact body.composed_of_decode hspans hbody x hx raw hraw w left hw
      · exact rest.composed_of_decode hspans h x hx raw hraw w left hw
    · rw [if_neg hguard] at hx
      exact rest.composed_of_decode hspans h x hx raw hraw w left hw

end

namespace ValueType

theorem isLeaf_of_isRow {type : ValueType} (hrow : type.isRow) : ¬ type.isLeaf := by
  cases type <;> simp_all [isRow, isLeaf]

/-- `decodeBody` of a row yields the same value with anything else behind its parts. -/
theorem yields_of_row {type : ValueType} {about : FieldMeta} {ctx : Context} {old : Value}
    {body : Bytes} {v : Value} {left : Bytes} (hrow : type.isRow)
    (h : (type.decodeBody about ctx old (Cursor.start body)).Yields v left) :
    ∃ used, body = used ++ left ∧
      ∀ more, (type.decodeBody about ctx old (Cursor.start (used ++ more))).Yields v more := by
  have hleaf := isLeaf_of_isRow hrow
  -- The same parts with something else behind them are composed as well.
  cases type.composed_of_decodeBody h (fun h => absurd h hleaf) with
  | leaf hl _ => exact absurd hl hleaf
  | @list _ _ _ _ count parts _ hcount hbound hparts =>
    refine ⟨count ++ parts.flatMap (·.1), (List.append_assoc _ _ _).symm, ?_⟩
    -- the parts are the same, so `decodeBody_yields` applies with `more` for `left`
    intro more
    rw [List.append_assoc]
    exact (Composed.list hcount hbound hparts).decodeBody_yields
  | @pair _ _ _ _ _ first second _ _ _ hfirst hsecond =>
    refine ⟨first ++ second, (List.append_assoc _ _ _).symm, ?_⟩
    intro more
    rw [List.append_assoc]
    exact (Composed.pair hfirst hsecond).decodeBody_yields
  | record => cases hrow

/-- `decodeBody` of a list or a pair yields a value and leaves some octets just when the body is
`Composed` of the parts of that value and those octets, with anything whatever left behind the parts
of the values inside of it.  What is left stays for the reader, and could be any other octets, or
none: `decodeBody` yields the same value.  So a body that is made up of parts alone, at every depth,
is read to its end. -/
theorem read_iff_composed {type : ValueType} (hrow : type.isRow) (about : FieldMeta) (ctx : Context)
    (old : Value) (body : Bytes) (v : Value) (left : Bytes) :
    ((type.decodeBody about ctx old (Cursor.start body)).Yields v left ↔
        type.Composed (fun _ => True) about ctx old body v left) ∧
      ((type.decodeBody about ctx old (Cursor.start body)).Yields v left →
        ∃ used, body = used ++ left ∧
          ∀ more, (type.decodeBody about ctx old (Cursor.start (used ++ more))).Yields v more) ∧
      (type.Composed (· = []) about ctx old body v [] →
        (type.decodeBody about ctx old (Cursor.start body)).Yields v []) := by
  refine ⟨⟨?read, Composed.decodeBody_yields⟩, yields_of_row hrow, Composed.decodeBody_yields⟩
  case read =>
    intro h
    exact type.composed_of_decodeBody h fun hleaf => absurd hleaf (isLeaf_of_isRow hrow)

/-- Lists of numbers. -/
def numbers : ValueType := .list (.unsigned .u8)

/-- `decodeBody` of a list of one number succeeds although an octet is left behind it, with which no
body is `Composed` of the parts of a list.  And a list of an empty list is read to its end with an
octet left behind the parts of the inner one, as it is without that octet. -/
theorem remainder_unnoticed :
    (numbers.decodeBody (.plain 1 "items") .empty (.list [])
        (Cursor.start [1, 5, 9])).Yields (.list [.number 5]) [9] ∧
      (¬ ∃ v, numbers.Composed (· = []) (.plain 1 "items") .empty (.list []) [1, 5, 9] v []) ∧
      ((list numbers).decodeBody (.plain 1 "items") .empty (.list [])
        (Cursor.start [1, 2, 0, 9])).Yields (.list [.list []]) [] ∧
      ((list numbers).decodeBody (.plain 1 "items") .empty (.list [])
        (Cursor.start [1, 1, 0])).Yields (.list [.list []]) [] := by
  have hread : (numbers.decodeBody (.plain 1 "items") .empty (.list [])
      (Cursor.start [1, 5, 9])).Yields (.list [.number 5]) [9] := ⟨rfl, rfl, rfl⟩
  refine ⟨hread, ?composed, ⟨rfl, rfl, rfl⟩, ⟨rfl, rfl, rfl⟩⟩
  case composed =>
    -- What is composed is read to its end, and this body is not.
    rintro ⟨v, h⟩
    have hempty := h.decodeBody_yields.rest
    rw [hread.rest] at hempty
    cases hempty

/-- `decodeBody` of a list of one number with an octet behind it, which may as well be missing. -/
theorem read_iff_composed_numbers :
    (numbers.decodeBody (.plain 1 "items") .empty (.list [])
        (Cursor.start [1, 5, 9])).Yields (.list [.number 5]) [9] ∧
      numbers.Composed (fun _ => True) (.plain 1 "items") .empty (.list []) [1, 5, 9]
        (.list [.number 5]) [9] ∧
      ∃ used, [1, 5, 9] = used ++ [9] ∧ (numbers.decodeBody (.plain 1 "items") .empty (.list [])
        (Cursor.start (used ++ []))).Yields (.list [.number 5]) [] := by
  have hread : (numbers.decodeBody (.plain 1 "items") .empty (.list [])
      (Cursor.start [1, 5, 9])).Yields (.list [.number 5]) [9] := ⟨rfl, rfl, rfl⟩
  have hrow : numbers.isRow := rfl
  obtain ⟨hcomposed, hused, -⟩ := read_iff_composed hrow (.plain 1 "items") .empty (.list [])
    [1, 5, 9] (.list [.number 5]) [9]
  obtain ⟨used, hsplit, hmore⟩ := hused hread
  exact ⟨hread, hcomposed.1 hread, used, hsplit, hmore []⟩

end ValueType

end Storefront
