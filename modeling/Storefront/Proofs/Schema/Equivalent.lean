import Storefront.Proofs.Schema.Edits
import Storefront.Schema.Builder

/-! # Bodies that mean the same

`decodeMessage` depends on the known fields alone: it makes the same of two bodies when one becomes
the other by the edits of `EquivalentBodies`.

* `decode_agree`         `Layout.decode` makes the same of indices that are alike where it looks
* `Edited.matches`       edits keep what there is to read under every tag that is not ignored
* `EquivalentBody.agree` so `decodeBody` makes the same of edited values
* `decodeMessage_congr`  and `decodeMessage` of edited bodies
-/

namespace Storefront

open Grammar (Field)

/-! ## Indexed bodies side by side -/

/-- Two reads of fields come to the same: both succeed with the same fields, or both fail. -/
def Layout.Agree (x y : List Value × Except SchemaError Unit) : Prop :=
  (x.2 = .ok () ↔ y.2 = .ok ()) ∧ (x.2 = .ok () → x.1 = y.1)

namespace Layout.Agree

theorem refl (x : List Value × Except SchemaError Unit) : Agree x x := ⟨Iff.rfl, fun _ => rfl⟩

theorem symm {x y : List Value × Except SchemaError Unit} (h : Agree x y) : Agree y x :=
  ⟨h.1.symm, fun hy => (h.2 (h.1.2 hy)).symm⟩

theorem trans {x y z : List Value × Except SchemaError Unit} (h : Agree x y) (h' : Agree y z) :
    Agree x z :=
  ⟨h.1.trans h'.1, fun hx => (h.2 hx).trans (h'.2 (h.1.1 hx))⟩

end Layout.Agree

/-- What `index` and `index'` have under the tag of `p` reads the same into `old`: nothing, or
fields of one wire type whose bodies agree. -/
def Place.Alike (p : Place) (ctx : Context) (old : Value) (index index' : FieldIndex) : Prop :=
  (index.find? p.about.tag = none ∧ index'.find? p.about.tag = none) ∨
    ∃ raw raw', index.find? p.about.tag = some raw ∧ index'.find? p.about.tag = some raw' ∧
      raw.type = raw'.type ∧
      (p.type.decodeBody p.about ctx old raw.cursor).Agree
        (p.type.decodeBody p.about ctx old raw'.cursor)

/-- `decode` makes the same of two indices that are alike for every place outside of the groups that
are absent for the first one.  `start` are the fields that the whole walk was begun with. -/
theorem Layout.decode_agree {ctx : Context} {index index' : FieldIndex} {start : List Value} :
    (layout : Layout) → ∀ (slot : Nat) (fields : List Value),
    (∀ i, slot ≤ i → fields[i]? = start[i]?) →
    (∀ p ∈ layout.enabled ctx index slot fields,
      p.Alike ctx (start[p.slot]?.getD p.type.initial) index index') →
    Agree (layout.decode ctx index slot fields) (layout.decode ctx index' slot fields)
  | nil, _, fields, _, _ => .refl (fields, .ok ())
  | field about type initial rest, slot, fields, hstart, h => by
    simp only [enabled] at h
    obtain ⟨hhead, htail⟩ := List.forall_mem_cons.1 h
    rw [← hstart slot (Nat.le_refl _)] at hhead
    have hlater : ∀ i, slot + 1 ≤ i → fields[i]? = start[i]? := fun i hi => hstart i (by omega)
    rcases hhead with ⟨hnone, hnone'⟩ | ⟨raw, raw', hsome, hsome', htype, hagree⟩
    · -- Neither index has the tag, so the slot is kept in both walks.
      simp only [decode, hnone] at htail
      simpa only [decode, hnone, hnone'] using rest.decode_agree (slot + 1) fields hlater htail
    · by_cases hw : raw.type = type.wireType
      · have hexpect : raw.expect type.wireType = .ok () := if_pos hw
        have hexpect' : raw'.expect type.wireType = .ok () := if_pos (htype ▸ hw)
        rcases failed_or_ok hagree.1 with ⟨e, e', hx, hx'⟩ | ⟨hx, hx'⟩
        · simp [decode, hsome, hsome', hexpect, hexpect', hx, hx', Agree]
        · -- Both have the same value set in this slot and go on from there.
          simp only [decode, hsome, hexpect, hx] at htail
          -- Only slot `slot` has changed since `start`.
          have hrest := rest.decode_agree (slot + 1) _
            (fun i hi => by rw [List.getElem?_set_ne (by omega), hlater i hi]) htail
          simpa only [decode, hsome, hsome', hexpect, hexpect', hx, hx', ← hagree.2 hx] using hrest
      · -- The wire type is wrong in both bodies.
        have hexpect : raw.expect type.wireType = .error _ := if_neg hw
        have hexpect' : raw'.expect type.wireType = .error _ := if_neg (htype ▸ hw)
        simp [decode, hsome, hsome', hexpect, hexpect', Agree]
  | group name guard body rest, slot, fields, hstart, h => by
    have hbehind : ∀ i, slot + body.size ≤ i → fields[i]? = start[i]? := fun i hi =>
      hstart i (by omega)
    by_cases hguard : guard fields ctx
    · simp only [enabled, hguard, if_true] at h
      obtain ⟨hin, hout⟩ := List.forall_mem_append.1 h
      obtain ⟨hresult, hvalue⟩ := body.decode_agree slot fields hstart hin
      simp only [decode, hguard, if_true]
      rcases failed_or_ok hresult with ⟨e, e', hx, hx'⟩ | ⟨hx, hx'⟩
      · simp [hx, hx', Agree]
      · -- The body of the group leaves the same fields behind, so the walks meet again.
        have hrest := rest.decode_agree (slot + body.size) (body.decode ctx index slot fields).1
          (fun i hi => by
            rw [(body.decode_frame ctx index slot fields).2 i (.inr hi), hbehind i hi]) hout
        simpa only [hx, hx', ← hvalue hx] using hrest
    · -- The guard looks at the same fields on both sides, so both walks pass the group.
      simp only [enabled, hguard, Bool.false_eq_true, if_false] at h
      simpa only [decode, hguard, Bool.false_eq_true, if_false] using
        rest.decode_agree (slot + body.size) fields hbehind h

namespace ValueType

/-- `EquivalentOctets` are one octet at least on both sides, that of a length or a number. -/
theorem EquivalentOctets.ne_nil {type : ValueType} {about : FieldMeta} {ctx : Context} {old : Value}
    {octets octets' : Bytes} (h : type.EquivalentOctets about ctx old octets octets') :
    octets ≠ [] ∧ octets' ≠ [] := by
  cases h with
  | refl h => exact ⟨Cursor.ne_nil_of_spans h, Cursor.ne_nil_of_spans h⟩
  | enclosed _ hsize hsize' _ =>
    exact ⟨List.append_ne_nil_of_left_ne_nil (Cursor.ne_nil_of_measures hsize) _,
      List.append_ne_nil_of_left_ne_nil (Cursor.ne_nil_of_measures hsize') _⟩

variable {about : FieldMeta} {ctx : Context} {old : Value}

/-- `decodeBody` makes the same of two lists when `decode` makes the same of their elements.  The
count may speak of `more` elements than `parts`; these are in `tail` on both sides. -/
theorem agree_list {element : ValueType} {count : Bytes} {parts : List (Bytes × Bytes)}
    (more : Nat) (tail : Bytes) (hcount : Varint.Measures count (parts.length + more))
    (hparts : ∀ x ∈ parts, element.EquivalentOctets about.element ctx element.initial x.1 x.2)
    (hread : ∀ x ∈ parts, ∀ p p' rest rest',
      (element.decode about.element ctx element.initial ⟨p, x.1 ++ rest⟩).AgreeUpTo
        (element.decode about.element ctx element.initial ⟨p', x.2 ++ rest'⟩) rest rest') :
    ((list element).decodeBody about ctx old
        (Cursor.start (count ++ (parts.flatMap (·.1) ++ tail)))).Agree
      ((list element).decodeBody about ctx old
        (Cursor.start (count ++ (parts.flatMap (·.2) ++ tail)))) := by
  obtain ⟨p, hp⟩ := Cursor.varint_of_measures hcount 0 (parts.flatMap (·.1) ++ tail)
  obtain ⟨p', hp'⟩ := Cursor.varint_of_measures hcount 0 (parts.flatMap (·.2) ++ tail)
  have htail := element.decode_anywhere about.element ctx element.initial
  obtain ⟨⟨hresult, hvalue⟩, hmore⟩ := Decoded.all_agree hread
    (fun done p p' => Decoded.all_anywhere (fun p p' octets => htail p p' octets) more done p p' tail)
    [] p p'
  -- A count is refused for too few octets only where reading the elements would run out of them.
  have henough : more ≤ tail.length →
      Bytes.hasAtLeast (parts.flatMap (·.1) ++ tail) (parts.length + more) = true := by
    intro hle
    rw [Bytes.hasAtLeast_iff, List.length_append]
    exact Nat.add_le_add (length_le_length_flatMap fun x hx => (hparts x hx).ne_nil.1) hle
  have henough' : more ≤ tail.length →
      Bytes.hasAtLeast (parts.flatMap (·.2) ++ tail) (parts.length + more) = true := by
    intro hle
    rw [Bytes.hasAtLeast_iff, List.length_append]
    exact Nat.add_le_add (length_le_length_flatMap fun x hx => (hparts x hx).ne_nil.2) hle
  -- The bound is held against the count, which is the same.
  cases hb : checkBound about.tag (parts.length + more) about.maxSize with
  | error e => simp [decodeBody_list, Cursor.start, hp, hp', hb, Decoded.Agree]
  | ok u =>
    simp only [decodeBody_list, Cursor.start, hp, hp', hb]
    by_cases hle : more ≤ tail.length
    · simp only [henough hle, henough' hle, if_true]
      exact ⟨hresult, fun hok => congrArg Value.list (hvalue hok)⟩
    · -- There are fewer octets behind the elements than elements are left, so both reads fail.
      have hfail : (Decoded.all (element.decode about.element ctx element.initial)
          (parts.length + more) [] ⟨p, parts.flatMap (·.1) ++ tail⟩).result ≠ .ok () :=
        fun hok => hle (hmore hok)
      have hfail' := fun hok => hfail (hresult.2 hok)
      refine .of_failed (fun hok => ?_) fun hok => ?_
      · split at hok
        · exact hfail hok
        · cases hok
      · split at hok
        · exact hfail' hok
        · cases hok

/-- `decodeBody` makes the same of two pairs when `decode` makes the same of the first components,
and of whatever is behind them. -/
theorem agree_pair {a b : ValueType} {first first' tail tail' : Bytes}
    (hfirst : ∀ p p' rest rest',
      (a.decode about.element ctx (old.components a b).1 ⟨p, first ++ rest⟩).AgreeUpTo
        (a.decode about.element ctx (old.components a b).1 ⟨p', first' ++ rest'⟩) rest rest')
    (hsecond : ∀ p p',
      (b.decode about.element ctx (old.components a b).2 ⟨p, tail⟩).Agree
        (b.decode about.element ctx (old.components a b).2 ⟨p', tail'⟩)) :
    ((pair a b).decodeBody about ctx old (Cursor.start (first ++ tail))).Agree
      ((pair a b).decodeBody about ctx old (Cursor.start (first' ++ tail'))) := by
  obtain ⟨⟨hresult, hvalue⟩, hcursor⟩ := hfirst 0 0 tail tail'
  rw [decodeBody_pair, decodeBody_pair]
  simp only [Cursor.start]
  rcases failed_or_ok hresult with ⟨e, e', hx, hx'⟩ | ⟨hx, hx'⟩
  · simp [hx, hx', Decoded.Agree]
  · -- The second components stand right behind the first, which are of different lengths.
    obtain ⟨hrest, hrest'⟩ := hcursor hx
    obtain ⟨q, hq⟩ := eq_of_rest hrest
    obtain ⟨q', hq'⟩ := eq_of_rest hrest'
    obtain ⟨hresult', hvalue'⟩ := hsecond q q'
    simp only [hx, hx', hvalue hx, hq, hq']
    exact ⟨hresult', fun hok => congrArg (Value.pair _) (hvalue' hok)⟩

/-- `decodeBody` makes the same of two records when `decode` makes the same of their fields: the
hook is called with these alone. -/
theorem agree_record {name : String} {layout : Layout} {hook : Option Hook} {body body' : Bytes}
    {index index' : FieldIndex} (hindex : FieldIndex.ofBody layout.byteBound body = .ok index)
    (hindex' : FieldIndex.ofBody layout.byteBound body' = .ok index')
    (h : Layout.Agree (layout.decode ctx index 0 (layout.fieldsOf old))
      (layout.decode ctx index' 0 (layout.fieldsOf old))) :
    ((record name layout hook).decodeBody about ctx old (Cursor.start body)).Agree
      ((record name layout hook).decodeBody about ctx old (Cursor.start body')) := by
  simp only [decodeBody, Cursor.start, hindex, hindex']
  rcases failed_or_ok h.1 with ⟨e, e', hx, hx'⟩ | ⟨hx, hx'⟩
  · simp [hx, hx', Decoded.Agree]
  · -- The hook is a function of the fields, and these are equal.
    rw [hx, hx', h.2 hx]
    cases hook with
    | none => exact ⟨Iff.rfl, fun _ => rfl⟩
    | some hook =>
      simp only
      cases hook (layout.decode ctx index' 0 (layout.fieldsOf old)).1 ctx with
      | error e => simp [Decoded.Agree]
      | ok fields => exact ⟨Iff.rfl, fun _ => rfl⟩

end ValueType

/-! ## What edits keep -/

/-- Every field of `fs` with the tag of `p` has a counterpart in `fs'` that reads the same into
`old`, and there are no others with that tag in `fs'`. -/
structure Place.Matches (p : Place) (ctx : Context) (old : Value) (fs fs' : List Field) : Prop where
  forth : ∀ f ∈ fs, f.tag = p.about.tag → ∃ f' ∈ fs', f'.tag = p.about.tag ∧
    f.value.type = f'.value.type ∧
    (p.type.decodeBody p.about ctx old (Cursor.start f.value.body)).Agree
      (p.type.decodeBody p.about ctx old (Cursor.start f'.value.body))
  back : ∀ f' ∈ fs', f'.tag = p.about.tag → ∃ f ∈ fs, f.tag = p.about.tag

namespace Place.Matches

variable {p : Place} {ctx : Context} {old : Value} {f f' : Field} {fs fs' gs gs' : List Field}

theorem nil : p.Matches ctx old [] [] :=
  ⟨fun _ hf => absurd hf List.not_mem_nil, fun _ hf => absurd hf List.not_mem_nil⟩

/-- A field and its counterpart in front.  Only fields with the tag of `p` have to read the same. -/
theorem cons (htag : f.tag = f'.tag) (htype : f.value.type = f'.value.type)
    (hbody : f.tag = p.about.tag →
      (p.type.decodeBody p.about ctx old (Cursor.start f.value.body)).Agree
        (p.type.decodeBody p.about ctx old (Cursor.start f'.value.body)))
    (h : p.Matches ctx old fs fs') : p.Matches ctx old (f :: fs) (f' :: fs') := by
  constructor
  case forth =>
    intro g hg hp
    rcases List.mem_cons.1 hg with rfl | hg
    · exact ⟨f', List.mem_cons_self, htag ▸ hp, htype, hbody hp⟩
    · obtain ⟨g', hg', hrest⟩ := h.forth g hg hp
      exact ⟨g', List.mem_cons_of_mem _ hg', hrest⟩
  case back =>
    intro g' hg' hp
    rcases List.mem_cons.1 hg' with rfl | hg'
    · exact ⟨f, List.mem_cons_self, htag.trans hp⟩
    · obtain ⟨g, hg, hrest⟩ := h.back g' hg' hp
      exact ⟨g, List.mem_cons_of_mem _ hg, hrest⟩

/-- `Matches` allows a field with another tag to be added on the right. -/
theorem added (hother : f'.tag ≠ p.about.tag) (h : p.Matches ctx old fs fs') :
    p.Matches ctx old fs (f' :: fs') := by
  constructor
  case forth =>
    intro g hg hp
    obtain ⟨g', hg', hrest⟩ := h.forth g hg hp
    exact ⟨g', List.mem_cons_of_mem _ hg', hrest⟩
  case back =>
    intro g' hg' hp
    rcases List.mem_cons.1 hg' with rfl | hg'
    · exact absurd hp hother
    · exact h.back g' hg' hp

/-- `Matches` allows a field with another tag to be removed on the left. -/
theorem removed (hother : f.tag ≠ p.about.tag) (h : p.Matches ctx old fs fs') :
    p.Matches ctx old (f :: fs) fs' := by
  constructor
  case forth =>
    intro g hg hp
    rcases List.mem_cons.1 hg with rfl | hg
    · exact absurd hp hother
    · exact h.forth g hg hp
  case back =>
    intro g' hg' hp
    obtain ⟨g, hg, hrest⟩ := h.back g' hg' hp
    exact ⟨g, List.mem_cons_of_mem _ hg, hrest⟩

/-- The order of the fields plays no part in `Matches`, which speaks of members alone. -/
theorem of_perm (hperm : fs.Perm gs) (hperm' : gs'.Perm fs') (h : p.Matches ctx old gs gs') :
    p.Matches ctx old fs fs' := by
  constructor
  case forth =>
    intro f hf hp
    obtain ⟨f', hf', hrest⟩ := h.forth f (hperm.mem_iff.1 hf) hp
    exact ⟨f', hperm'.mem_iff.1 hf', hrest⟩
  case back =>
    intro f' hf' hp
    obtain ⟨f, hf, hrest⟩ := h.back f' (hperm'.mem_iff.2 hf') hp
    exact ⟨f, hperm.mem_iff.2 hf, hrest⟩

/-- With one field at most under every tag, `find?` gets to the counterparts. -/
theorem alike (hnodup : (fs.map Field.tag).Nodup) (hnodup' : (fs'.map Field.tag).Nodup)
    (h : p.Matches ctx old fs fs') :
    p.Alike ctx old (fs.map Field.raw) (fs'.map Field.raw) := by
  have hraws : ((fs.map Field.raw).map RawField.tag).Nodup := by rwa [List.map_map]
  have hraws' : ((fs'.map Field.raw).map RawField.tag).Nodup := by rwa [List.map_map]
  by_cases hf : ∃ f ∈ fs, f.tag = p.about.tag
  · obtain ⟨f, hf, htag⟩ := hf
    obtain ⟨f', hf', htag', htype, hagree⟩ := h.forth f hf htag
    exact .inr ⟨f.raw, f'.raw,
      (FieldIndex.find?_eq_some_iff hraws).2 ⟨List.mem_map_of_mem hf, htag⟩,
      (FieldIndex.find?_eq_some_iff hraws').2 ⟨List.mem_map_of_mem hf', htag'⟩, htype, hagree⟩
  · -- Neither list has the tag, by `back`.
    have hf' : ¬ ∃ f' ∈ fs', f'.tag = p.about.tag := fun ⟨f', hf', htag'⟩ =>
      hf (h.back f' hf' htag')
    exact .inl ⟨FieldIndex.find?_raw_eq_none hf, FieldIndex.find?_raw_eq_none hf'⟩

end Place.Matches

mutual

/-- `decodeBody` makes the same of equivalent bodies of values. -/
theorem ValueType.EquivalentBody.agree {type : ValueType} {about : FieldMeta} {ctx : Context}
    {old : Value} {body body' : Bytes} : type.EquivalentBody about ctx old body body' →
    (type.decodeBody about ctx old (Cursor.start body)).Agree
      (type.decodeBody about ctx old (Cursor.start body'))
  | .refl body => Decoded.Agree.refl _
  | .symm h => h.agree.symm
  | .trans h h' => h.agree.trans h'.agree
  | .list more tail hcount hparts =>
    ValueType.agree_list more tail hcount hparts fun x hx => (hparts x hx).agree
  | .first tail hfirst => ValueType.agree_pair hfirst.agree fun p p' => by
    obtain ⟨left, hagree, -⟩ := ValueType.decode_anywhere _ _ ctx _ p p' tail
    exact hagree.1
  | .pair tail hfirst hsecond =>
    ValueType.agree_pair hfirst.agree fun p p' => (hsecond.agree p p' tail tail).1
  | .record hindexed hindexed' hedited => by
    -- Both bodies are indexed as their fields, by `Indexed.ofBody`.
    refine ValueType.agree_record hindexed.ofBody hindexed'.ofBody ?_
    refine Layout.decode_agree _ 0 _ (fun _ _ => rfl) fun p hp => ?_
    -- A place that the walk comes to is one of the layout, and its tag is not ignored.
    have hmatches := hedited.matches p (Layout.mem_places_of_enabled _ hp) fun h => h p hp rfl
    exact hmatches.alike hindexed.nodup hindexed'.nodup

/-- `decode` makes the same of equivalent values, wherever they stand. -/
theorem ValueType.EquivalentOctets.agree {type : ValueType} {about : FieldMeta} {ctx : Context}
    {old : Value} {octets octets' : Bytes} : type.EquivalentOctets about ctx old octets octets' →
    ∀ p p' rest rest', (type.decode about ctx old ⟨p, octets ++ rest⟩).AgreeUpTo
      (type.decode about ctx old ⟨p', octets' ++ rest'⟩) rest rest'
  | .refl h, p, p', rest, rest' => by
    obtain ⟨q, hq⟩ := h
    exact ValueType.decode_of_skip hq about ctx old p p' rest rest'
  | .enclosed hw hsize hsize' hbody, p, p', rest, rest' => by
    obtain ⟨q, hq⟩ := ValueType.decode_of_measures hw hsize about ctx old p rest
    obtain ⟨q', hq'⟩ := ValueType.decode_of_measures hw hsize' about ctx old p' rest'
    -- `decode` takes the length off and hands the body to `decodeBody`, on both sides.
    rw [List.append_assoc, List.append_assoc, hq, hq']
    exact ⟨hbody.agree, fun _ => ⟨rfl, rfl⟩⟩

/-- `Edited` lists match for every place of the layout whose tag is not ignored. -/
theorem Layout.Edited.matches {layout : Layout} {ctx : Context} {fields : List Value}
    {ignored : Nat → Prop} {fs fs' : List Field} : layout.Edited ctx fields ignored fs fs' →
    ∀ p ∈ layout.places 0, ¬ ignored p.about.tag →
      p.Matches ctx (fields[p.slot]?.getD p.type.initial) fs fs'
  | .done, _, _, _ => .nil
  | .kept hraw h, p, hp, hkept => by
    obtain ⟨htag, htype, hbody⟩ := RawField.mk.inj hraw
    refine .cons htag htype (fun _ => ?_) (h.matches p hp hkept)
    exact hbody ▸ Decoded.Agree.refl _
  | .inside htag htype hbody h, p, hp, hkept =>
    .cons htag htype (fun hf => (hbody p hp hf.symm).agree) (h.matches p hp hkept)
  | .added hignored h, p, hp, hkept =>
    .added (fun htag => hkept (htag ▸ hignored)) (h.matches p hp hkept)
  | .removed hignored h, p, hp, hkept =>
    .removed (fun htag => hkept (htag ▸ hignored)) (h.matches p hp hkept)
  | .reordered hperm hperm' h, p, hp, hkept => .of_perm hperm hperm' (h.matches p hp hkept)

end

/-! ## Bodies of messages -/

theorem map_recordFields (fs : List Field) :
    FieldIndex.without (fs.map Field.raw) formatVersionTag = (recordFields fs).map Field.raw := by
  rw [FieldIndex.without, List.filter_map]
  rfl

/-- The format version is looked at in `versionFields` alone. -/
theorem find?_versionFields (fs : List Field) :
    FieldIndex.find? ((versionFields fs).map Field.raw) formatVersionTag =
      FieldIndex.find? (fs.map Field.raw) formatVersionTag := by
  have hfilter : (versionFields fs).map Field.raw =
      (fs.map Field.raw).filter (·.tag == formatVersionTag) := by
    rw [List.filter_map]
    rfl
  -- The filter lets through what `find?` asks for.
  rw [hfilter, FieldIndex.find?, FieldIndex.find?, List.find?_filter]
  simp only [and_self, Bool.decide_eq_true]

/-- `decodeIndexed` makes the same of two indices when `decode` does: the hook is called with the
fields alone. -/
theorem RecordType.decodeIndexed_congr {r : RecordType} {ctx : Context} {index index' : FieldIndex}
    {fields : List Value}
    (h : Layout.Agree (r.layout.decode ctx index 0 fields) (r.layout.decode ctx index' 0 fields)) :
    Layout.Agree (r.decodeIndexed ctx index fields) (r.decodeIndexed ctx index' fields) := by
  obtain ⟨hresult, hfields⟩ := h
  simp only [Layout.Agree, decodeIndexed]
  rcases failed_or_ok hresult with ⟨e, e', hx, hx'⟩ | ⟨hx, hx'⟩
  · simp [hx, hx']
  · -- Equal fields are handed to the same hook.
    rw [hx, hx', hfields hx]
    cases r.hook with
    | none => exact ⟨by simp [hx, hx'], fun _ => hfields hx⟩
    | some hook =>
      simp only
      cases hook (r.layout.decode ctx index' 0 fields).1 ctx with
      | error e => simp
      | ok got => simp

/-- `decodeMessage` agrees after one round of edits: the version is looked at in the same field, and
the rest is matched. -/
theorem RecordType.decodeMessage_of_edited {r : RecordType} {ctx : Context} {fields : List Value}
    {fs fs' : List Field} (hindexed : r.layout.Indexed fs) (hindexed' : r.layout.Indexed fs')
    (hversion : (versionFields fs).map Field.raw = (versionFields fs').map Field.raw)
    (hedited : r.layout.Edited ctx fields (r.layout.Ignores ctx (recordFields fs) fields)
      (recordFields fs) (recordFields fs')) :
    Layout.Agree (r.decodeMessage ctx (fs.flatMap Field.octets) fields)
      (r.decodeMessage ctx (fs'.flatMap Field.octets) fields) := by
  have hindex : r.index (fs.flatMap Field.octets) = .ok (fs.map Field.raw) := by
    rw [RecordType.index, hindexed.ofBody]
    rfl
  have hindex' : r.index (fs'.flatMap Field.octets) = .ok (fs'.map Field.raw) := by
    rw [RecordType.index, hindexed'.ofBody]
    rfl
  have hcheck : checkFormatVersion (fs.map Field.raw) = checkFormatVersion (fs'.map Field.raw) := by
    rw [checkFormatVersion, checkFormatVersion, ← find?_versionFields fs, hversion,
      find?_versionFields]
  -- Filtering out the version leaves one field at most under every tag.
  have hnodup : ((recordFields fs).map Field.tag).Nodup :=
    ((List.filter_sublist.map _).nodup hindexed.nodup)
  have hnodup' : ((recordFields fs').map Field.tag).Nodup :=
    ((List.filter_sublist.map _).nodup hindexed'.nodup)
  simp only [RecordType.decodeMessage, hindex, hindex', hcheck, map_recordFields]
  cases checkFormatVersion (fs'.map Field.raw) with
  | error e => simp [Layout.Agree]
  | ok u =>
    refine decodeIndexed_congr (Layout.decode_agree _ 0 _ (fun _ _ => rfl) fun p hp => ?_)
    have hmatches := hedited.matches p (Layout.mem_places_of_enabled _ hp) fun h => h p hp rfl
    exact hmatches.alike hnodup hnodup'

/-- `decodeMessage` makes the same of equivalent bodies, by induction on the rounds of edits. -/
theorem RecordType.EquivalentBodies.agree {r : RecordType} {ctx : Context} {fields : List Value}
    {body body' : Bytes} (h : r.EquivalentBodies ctx fields body body') :
    Layout.Agree (r.decodeMessage ctx body fields) (r.decodeMessage ctx body' fields) := by
  induction h with
  | edited hindexed hindexed' hversion hedited =>
    exact decodeMessage_of_edited hindexed hindexed' hversion hedited
  | symm _ ih => exact ih.symm
  | trans _ _ ih ih' => exact ih.trans ih'

/-- `decodeMessage` is a function of the known fields.  When one body becomes the other by edits, in
which fields are reordered and ignored ones are added and removed at the top level and in the
records inside, then `decodeMessage` succeeds on both or on neither, and the fields that it returns
in the first case are equal. -/
theorem decodeMessage_congr {r : RecordType} {ctx : Context} {fields : List Value}
    {body body' : Bytes} (h : r.EquivalentBodies ctx fields body body') :
    ((r.decodeMessage ctx body fields).2 = .ok () ↔
        (r.decodeMessage ctx body' fields).2 = .ok ()) ∧
      ((r.decodeMessage ctx body fields).2 = .ok () →
        (r.decodeMessage ctx body fields).1 = (r.decodeMessage ctx body' fields).1) :=
  h.agree

/-- Where no field has a bound, different tags are all that `ofBody` asks for. -/
theorem Layout.indexed_of_unbounded {layout : Layout}
    (hfree : ∀ d ∈ layout.declared, d.1.maxSize = none) {fs : List Field}
    (hnodup : (fs.map Field.tag).Nodup) : layout.Indexed fs := by
  refine ⟨hnodup, fun f _ => ?_⟩
  have hbound : layout.byteBound f.tag = none := by
    unfold byteBound
    cases hfind : layout.declared.find? (·.1.tag == f.tag) with
    | none => rfl
    | some d => simp [hfree d (List.mem_of_find?_eq_some hfind)]
  rw [hbound]
  exact f.value.within_none

section

variable (tag : Fin 16)

/-- The key of a small tag is below `Varint.limit`. -/
theorem small_key_lt (type : WireType) : tag * 8 + type.bits < Varint.limit := by
  have hbits := type.bits_lt
  have htag := tag.isLt
  simp only [Varint.limit]
  omega

theorem small_tag_le : tag ≤ maxTag := by
  have htag := tag.isLt
  simp only [maxTag]
  omega

/-- Zero, which ends a stream, is below `Varint.limit`. -/
theorem zero_lt_limit : 0 < Varint.limit := by decide

/-- A number as it is written under a small tag. -/
def numberField (n : Nat) (hn : n < Varint.limit) : Field :=
  ⟨.written (small_key_lt tag .varint), tag, .number (.written hn), small_tag_le tag, rfl⟩

/-- Octets as they are written under a small tag. -/
def octetsField (body : Bytes) (hsize : body.length < Varint.limit) : Field :=
  ⟨.written (small_key_lt tag .len), tag, .octets (.written hsize) body rfl, small_tag_le tag, rfl⟩

/-- A stream of one chunk as it is written under a small tag. -/
def streamField (chunk : Bytes) (hsize : chunk.length < Varint.limit) (hne : chunk ≠ []) : Field :=
  ⟨.written (small_key_lt tag .stream), tag,
    .stream (.written hsize) [⟨.written hsize, chunk, rfl, hne⟩] (.written zero_lt_limit) rfl,
    small_tag_le tag, rfl⟩

end

/-- The fields of an item. -/
def itemLayout : Layout := .build [.plain 1 "name" .text, .plain 2 "size" (.unsigned .u64)]

/-- An item as a value. -/
def itemType : ValueType := .record "Item" itemLayout none

/-- The name of an item. -/
def nameField : Field := octetsField 1 [0x61] (by decide)

/-- The size of an item. -/
def sizeField : Field := numberField 2 4 (by decide)

/-- A field that no item has. -/
def noteField : Field := octetsField 8 [0x7A] (by decide)

/-- `EquivalentBody` with the name put last, and the unknown field in front of it. -/
theorem itemBody_equivalent (about : FieldMeta) (old : Value) :
    itemType.EquivalentBody about .empty old ([nameField, sizeField].flatMap Field.octets)
      ([sizeField, noteField, nameField].flatMap Field.octets) := by
  have hnote : itemLayout.Ignores .empty [nameField, sizeField] (itemLayout.fieldsOf old) 8 :=
    Layout.ignores_of_undeclared (by decide) _ _ _
  have hperm : ([nameField] ++ [sizeField, noteField]).Perm ([sizeField, noteField] ++ [nameField]) :=
    List.perm_append_comm
  exact .record (Layout.indexed_of_unbounded (by decide) (by decide))
    (Layout.indexed_of_unbounded (by decide) (by decide))
    (.reordered (.refl _) hperm (.kept rfl (.kept rfl (.added hnote .done))))

/-- Number 5 of a shelf, twice: with either body of its item, and the lengths that go with them. -/
def numberedItem : Bytes × Bytes :=
  ([7] ++ ([5] ++ (([5] ++ [nameField, sizeField].flatMap Field.octets) ++ [])),
    [10] ++ ([5] ++ (([8] ++ [sizeField, noteField, nameField].flatMap Field.octets) ++ [])))

/-- The two octet strings of `numberedItem` are equivalent: the item inside the pair is edited, and
both lengths are adjusted. -/
theorem numberedItem_equivalent (about : FieldMeta) :
    (ValueType.pair (.unsigned .u32) itemType).EquivalentOctets about .empty
      (.pair (.number 0) itemType.initial) numberedItem.1 numberedItem.2 :=
  .enclosed rfl ⟨1, rfl⟩ ⟨1, rfl⟩ (.pair [] (.refl ⟨1, rfl⟩)
    (.enclosed rfl ⟨1, rfl⟩ ⟨1, rfl⟩ (itemBody_equivalent _ _)))

/-- A record with a file for kind 2 only, and with numbered items. -/
def shelfType : RecordType where
  name := "Shelf"
  layout := .build [
    .plain 1 "kind" (.unsigned .u32),
    .grouped "file" (fun fields _ => Layout.number fields 0 == 2) [.plain 2 "file" .stream],
    .plain 3 "items" (.list (.pair (.unsigned .u32) itemType))]

/-- The format version. -/
def versionField : Field := numberField 0 1 (by decide)

/-- The kind of a shelf, for which there is no file. -/
def kindField : Field := numberField 1 7 (by decide)

/-- The items of a shelf. -/
def itemsField : Field := octetsField 3 ([1] ++ numberedItem.1) (by decide)

/-- The same items, with their fields in another order and one field more. -/
def newerItemsField : Field := octetsField 3 ([1] ++ numberedItem.2) (by decide)

/-- A file, which only a shelf of kind 2 has. -/
def fileField : Field := streamField 2 [0x78] (by decide) (by decide)

/-- A field that no shelf has. -/
def lateField : Field := numberField 9 5 (by decide)

/-- A shelf of kind 7 with one item. -/
def shelf : List Field := [versionField, kindField, itemsField]

/-- The same shelf from a newer writer, in another order. -/
def newerShelf : List Field := [fileField, newerItemsField, lateField, kindField, versionField]

/-- `EquivalentBodies` between the two, with an edit of every sort. -/
theorem shelf_equivalent :
    shelfType.EquivalentBodies .empty shelfType.initials (shelf.flatMap Field.octets)
      (newerShelf.flatMap Field.octets) := by
  -- The guard of the file does not hold, so tag 2 is outside of what is enabled.
  have henabled : (shelfType.layout.enabled .empty ((recordFields shelf).map Field.raw) 0
      shelfType.initials).map (·.about.tag) = [1, 3] := by decide +kernel
  have hfile : shelfType.layout.Ignores .empty (recordFields shelf) shelfType.initials 2 := by
    intro p hp htag
    have hmem : p.about.tag ∈ [1, 3] := henabled ▸ List.mem_map_of_mem hp
    rw [htag] at hmem
    exact absurd hmem (by decide)
  have hlate : shelfType.layout.Ignores .empty (recordFields shelf) shelfType.initials 9 :=
    Layout.ignores_of_undeclared (by decide) _ _ _
  have hitems : ∀ about old, (ValueType.list (.pair (.unsigned .u32) itemType)).EquivalentBody
      about .empty old itemsField.value.body newerItemsField.value.body := by
    intro about old
    have h : (ValueType.list (.pair (.unsigned .u32) itemType)).EquivalentBody about .empty old
        ([1] ++ ([numberedItem].flatMap (·.1) ++ [])) ([1] ++ ([numberedItem].flatMap (·.2) ++ [])) :=
      .list 0 [] ⟨1, rfl⟩ (List.forall_mem_singleton.2 (numberedItem_equivalent about.element))
    rw [List.append_nil, List.append_nil, List.flatMap_singleton, List.flatMap_singleton] at h
    exact h
  have hinside : ∀ p ∈ shelfType.layout.places 0, p.about.tag = itemsField.tag →
      p.type.EquivalentBody p.about .empty
        (shelfType.initials[p.slot]?.getD p.type.initial) itemsField.value.body
        newerItemsField.value.body := by
    intro p hp htag
    rcases hp with _ | ⟨_, _ | ⟨_, _ | ⟨_, hnone⟩⟩⟩
    case head | tail.head => exact absurd htag (by decide)
    case tail.tail.head => exact hitems _ _
    case tail.tail.tail => cases hnone
  have hperm : ([kindField] ++ [fileField, newerItemsField, lateField]).Perm
      ([fileField, newerItemsField, lateField] ++ [kindField]) := List.perm_append_comm
  exact .edited (Layout.indexed_of_unbounded (by decide) (by decide))
    (Layout.indexed_of_unbounded (by decide) (by decide)) rfl
    (.reordered (.refl _) hperm
      (.kept rfl (.added hfile (.inside rfl rfl hinside (.added hlate .done)))))

/-- `decodeMessage` reads `shelf` and `newerShelf` as the same shelf. -/
theorem decodeMessage_congr_shelf :
    (shelfType.decodeMessage .empty (newerShelf.flatMap Field.octets) shelfType.initials).2 =
        .ok () ∧
      (shelfType.decodeMessage .empty (shelf.flatMap Field.octets) shelfType.initials).1 =
        (shelfType.decodeMessage .empty (newerShelf.flatMap Field.octets) shelfType.initials).1 :=
  have hok : (shelfType.decodeMessage .empty (shelf.flatMap Field.octets) shelfType.initials).2 =
      .ok () := by decide +kernel
  ⟨(decodeMessage_congr shelf_equivalent).1.1 hok, (decodeMessage_congr shelf_equivalent).2 hok⟩

end Storefront
