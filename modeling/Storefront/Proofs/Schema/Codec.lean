import Storefront.Proofs.Schema.RoundTrip
import Storefront.Proofs.Schema.Visits

/-! # Values that have been read can be written

A value keeps to the bounds of its fields (`fits`) when it has been read under them, and then it can
be written under them.  Only a length of more than 64 bits could get in the way, which no value at
hand has.

* `done_of_fits`             what keeps to its bounds can be written
* `fits_of_decodeBody`       what has been read keeps to its bounds
* `startsFit_of_startsNew`   and so does what has not been read, in new records
* `codec_roundTrip`          `encode` and `decode` of plain types undo one another
* `decode_not_reencoded`     but for defaults that break their own bounds
-/

namespace Storefront

/-! ## Keeping to the bounds -/

mutual

/-- True for the values that keep to the bounds of their fields.  Whether a stream does shows only
when it is drained. -/
def ValueType.fits : ValueType → FieldMeta → Value → Bool
  | .unsigned w, _, .number n => w.admits n
  | .status, _, .number n => Width.u32.admits n
  | .choice e, _, .number n => (e.member? n).isSome
  | .options, _, .number n => Width.u16.admits n
  | .signed, _, .signed i => ZigZag.encode i < Varint.limit
  | .flag, _, .flag _ => true
  | .text, about, .text s | .secret, about, .text s =>
    about.maxSize.all ((Bytes.ofText s).length ≤ ·)
  | .blob, about, .blob bs => about.maxSize.all (bs.length ≤ ·)
  | .stream, _, .stream _ => true
  | .list element, about, .list items =>
    about.maxSize.all (items.length ≤ ·) && items.all fun v => element.fits about.element v
  | .pair a b, about, .pair x y => a.fits about.element x && b.fits about.element y
  | .record _ layout _, _, .record fields => fields.length == layout.size && layout.fits 0 fields
  | _, _, _ => false

/-- True when every field of a record has a tag that fits a key and keeps to its bounds. -/
def Layout.fits : Layout → (slot : Nat) → List Value → Bool
  | .nil, _, _ => true
  | .field about type _ rest, slot, fields =>
    (about.tag ≤ maxTag && (fields[slot]?).any fun v => type.fits about v) &&
      rest.fits (slot + 1) fields
  | .group _ _ body rest, slot, fields => body.fits slot fields && rest.fits (slot + body.size) fields

end

mutual

/-- True when all that a new value of the type is made of keeps to its bounds. -/
def ValueType.startsFit : ValueType → Bool
  | .choice e => (e.member? e.initial).isSome
  | .list element => element.startsFit
  | .pair a b => a.startsFit && b.startsFit
  | .record _ layout _ => layout.startsFit
  | _ => true

/-- True when the fields of a new record keep to their bounds. -/
def Layout.startsFit : Layout → Bool
  | .nil => true
  | .field about type initial rest =>
    about.tag ≤ maxTag && type.fits about initial && type.startsFit && rest.startsFit
  | .group _ _ body rest => body.startsFit && rest.startsFit

end

/-- `checkBound` accepts what `fits` accepts. -/
theorem checkBound_of_all {tag size : Nat} {max : Option Nat}
    (h : max.all (size ≤ ·)) : checkBound tag size max = .ok () := by
  rw [checkBound_eq_ok]
  intro m hm
  simpa [hm] using h

/-- `fits` accepts what `checkBound` accepts. -/
theorem all_of_checkBound {tag size : Nat} {max : Option Nat}
    (h : checkBound tag size max = .ok ()) : max.all (size ≤ ·) := by
  rw [checkBound_eq_ok] at h
  cases max with
  | none => rfl
  | some m => simpa using h m rfl

/-! ## What keeps to its bounds can be written -/

namespace Encoded

variable {α β : Type}

/-- Writing ends well, but for a length that does not fit 64 bits. -/
def Done (x : Encoded α) : Prop :=
  x.result = .ok () ∨ ∃ tag size, Varint.limit ≤ size ∧
    x.result = .error (.wire (.boundExceeded tag size (Varint.limit - 1)))

/-- `enclose` writes a length in front when 64 bits hold it. -/
theorem Done.enclose {x : Encoded α} (h : x.Done) (tag : Nat) (type : WireType) :
    (x.enclose tag type).Done := by
  cases type with
  | varint => exact h
  | stream => exact h
  | len =>
    rcases h with h | ⟨tag', size, hsize, h⟩
    · -- Only here the length comes in.
      by_cases hl : x.bytes.length < Varint.limit
      · exact .inl (by simp [Encoded.enclose, h, hl, ok])
      · refine .inr ⟨tag, x.bytes.length, Nat.not_lt.1 hl, ?_⟩
        simp [Encoded.enclose, h, hl, error]
    · exact .inr ⟨tag', size, hsize, by simp [Encoded.enclose, h, error]⟩

/-- `both` is `Done` when each part is. -/
theorem Done.both {x : Encoded α} {second : β} {y : Unit → Encoded β} (hx : x.Done)
    (hy : (y ()).Done) : (x.both second y).Done := by
  rcases hx with hx | ⟨tag, size, hsize, hx⟩
  · -- The first part is written, so the second one decides.
    simpa only [Done, Encoded.both, hx] using hy
  · exact .inr ⟨tag, size, hsize, by simp only [Encoded.both, hx]⟩

/-- `andThen` is `Done` when both fields are, one after the other. -/
theorem Done.andThen {x : Encoded α} {f : α → Encoded α} (hx : x.Done)
    (hf : (f x.value).Done) : (x.andThen f).Done := by
  rcases hx with hx | ⟨tag, size, hsize, hx⟩
  · simpa only [Done, Encoded.andThen, hx] using hf
  · exact .inr ⟨tag, size, hsize, by simp only [Encoded.andThen, hx]⟩

/-- `all` is `Done` when each element is. -/
theorem Done.all {f : α → Encoded α} {vs : List α} (h : ∀ v ∈ vs, (f v).Done) :
    (Encoded.all f vs).Done := by
  induction vs with
  | nil => exact .inl rfl
  | cons v vs ih =>
    exact Done.both (h v List.mem_cons_self) (ih fun w hw => h w (List.mem_cons_of_mem _ hw))

end Encoded

/-- `encodeNumber` is `Done` with a number of the admitted ones. -/
theorem done_encodeNumber {about : FieldMeta} {admits : Nat → Bool} {n : Nat} (h : admits n) :
    (encodeNumber about admits (.number n)).Done :=
  .inl (by simp [encodeNumber, h, Encoded.ok])

/-- `encodeOctets` is `Done` with octets within the bound. -/
theorem done_encodeOctets {about : FieldMeta} {bs : Bytes} (v : Value)
    (h : about.maxSize.all (bs.length ≤ ·)) : (encodeOctets about bs v).Done :=
  .inl (by simp [encodeOctets, checkBound_of_all h, Encoded.ok])

namespace Layout

/-- `fits` of a field: the tag fits a key, the value `fits`, and so does the rest. -/
theorem fits_field {about : FieldMeta} {type : ValueType} {initial : Value} {rest : Layout}
    {slot : Nat} {fields : List Value} (h : (field about type initial rest).fits slot fields) :
    about.tag ≤ maxTag ∧ (∃ v, fields[slot]? = some v ∧ type.fits about v) ∧
      rest.fits (slot + 1) fields := by
  simp only [fits, Bool.and_eq_true, Option.any_eq_true, decide_eq_true_eq] at h
  exact ⟨h.1.1, h.1.2, h.2⟩

/-- `fits` of a group is `fits` of its fields and of the rest. -/
theorem fits_group {name : String} {guard : Guard} {body rest : Layout} {slot : Nat}
    {fields : List Value} (h : (group name guard body rest).fits slot fields) :
    body.fits slot fields ∧ rest.fits (slot + body.size) fields := by
  simp only [fits, Bool.and_eq_true] at h
  exact h

/-- `fits` does not depend on fields before those of the layout. -/
theorem fits_congr : (layout : Layout) → ∀ {slot} {fields fields' : List Value},
    (∀ i, slot ≤ i → i < slot + layout.size → fields'[i]? = fields[i]?) →
    layout.fits slot fields → layout.fits slot fields'
  | nil, _, _, _, _, _ => rfl
  | field about type initial rest, slot, fields, fields', hsame, h => by
    simp only [size] at hsame
    obtain ⟨htag, ⟨v, hv, hfits⟩, hrest⟩ := fits_field h
    -- The places of the rest lie behind this one.
    have hrest' := rest.fits_congr (fun i hlo hhi => hsame i (by omega) (by omega)) hrest
    simp [fits, htag, hsame slot (Nat.le_refl _) (by omega), hv, hfits, hrest']
  | group name guard body rest, slot, fields, fields', hsame, h => by
    simp only [size] at hsame
    obtain ⟨hbody, hrest⟩ := fits_group h
    have hbody' := body.fits_congr (fun i hlo hhi => hsame i hlo (by omega)) hbody
    have hrest' := rest.fits_congr (fun i hlo hhi => hsame i (by omega) (by omega)) hrest
    simp [fits, hbody', hrest']

end Layout

mutual

/-- `encodeBody` of a value that `fits` is `Done`. -/
theorem ValueType.done_of_fits : (type : ValueType) → type.streamFree → ∀ {about : FieldMeta}
    (ctx : Context) {v : Value}, type.fits about v → (type.encodeBody about ctx v).Done
  | .unsigned w, _, about, ctx, v, h => by
    cases v <;> simp [ValueType.fits] at h
    exact done_encodeNumber h
  | .status, _, about, ctx, v, h => by
    cases v <;> simp [ValueType.fits] at h
    exact done_encodeNumber h
  | .choice e, _, about, ctx, v, h => by
    cases v <;> simp [ValueType.fits] at h
    exact done_encodeNumber h
  | .options, _, about, ctx, v, h => by
    cases v <;> simp [ValueType.fits] at h
    exact done_encodeNumber h
  | .signed, _, about, ctx, v, h => by
    cases v <;> simp [ValueType.fits] at h
    exact .inl (by simp [ValueType.encodeBody, h, Encoded.ok])
  | .flag, _, about, ctx, v, h => by
    cases v <;> simp [ValueType.fits] at h
    exact .inl rfl
  | .text, _, about, ctx, v, h => by
    cases v <;> simp [ValueType.fits] at h
    exact done_encodeOctets _ (by simpa using h)
  | .secret, _, about, ctx, v, h => by
    cases v <;> simp [ValueType.fits] at h
    exact done_encodeOctets _ (by simpa using h)
  | .blob, _, about, ctx, v, h => by
    cases v <;> simp [ValueType.fits] at h
    exact done_encodeOctets _ (by simpa using h)
  | .stream, hfree, _, _, _, _ => by simp [ValueType.streamFree] at hfree
  | .list element, hfree, about, ctx, v, h => by
    cases v with
    | list items =>
      simp only [ValueType.fits, Bool.and_eq_true, List.all_eq_true] at h
      -- Each element is written by itself, and the count is within the bound.
      have hall : (Encoded.all (element.encode about.element ctx) items).Done :=
        Encoded.Done.all fun v hv => (element.done_of_fits hfree ctx (h.2 v hv)).enclose _ _
      simp only [ValueType.encodeBody, checkBound_of_all h.1]
      exact hall
    | _ => simp [ValueType.fits] at h
  | .pair a b, hfree, about, ctx, v, h => by
    simp only [ValueType.streamFree, Bool.and_eq_true] at hfree
    cases v with
    | pair x y =>
      simp only [ValueType.fits, Bool.and_eq_true] at h
      exact ((a.done_of_fits hfree.1 ctx h.1).enclose _ _).both
        ((b.done_of_fits hfree.2 ctx h.2).enclose _ _)
    | _ => simp [ValueType.fits] at h
  | .record name layout hook, hfree, about, ctx, v, h => by
    cases v with
    | record fields =>
      simp only [ValueType.fits, Bool.and_eq_true, beq_iff_eq] at h
      simp only [ValueType.encodeBody, h.1, if_true]
      exact layout.done_of_fits hfree ctx fields h.2
    | _ => simp [ValueType.fits] at h

/-- `encode` of fields that fit is `Done`, whichever of them are present. -/
theorem Layout.done_of_fits : (layout : Layout) → layout.streamFree → ∀ (ctx : Context)
    (shown : List Value) {slot : Nat} {fields : List Value}, layout.fits slot fields →
    (layout.encode ctx shown slot fields).Done
  | .nil, _, _, _, _, _, _ => .inl rfl
  | .field about type initial rest, hfree, ctx, shown, slot, fields, h => by
    simp only [Layout.streamFree, Bool.and_eq_true] at hfree
    obtain ⟨htag, ⟨v, hv, hfits⟩, hrest⟩ := Layout.fits_field h
    have htype := (type.done_of_fits hfree.1 ctx hfits).enclose about.tag type.wireType
    simp only [Layout.encode, Wire.key, Nat.not_lt.2 htag, if_false, hv]
    refine Encoded.Done.andThen htype (rest.done_of_fits hfree.2 ctx shown ?_)
    -- The later fields do not depend on what has become of this one.
    refine rest.fits_congr (fun i hlo _ => ?_) hrest
    exact List.getElem?_set_ne (by omega)
  | .group name guard body rest, hfree, ctx, shown, slot, fields, h => by
    simp only [Layout.streamFree, Bool.and_eq_true] at hfree
    obtain ⟨hbody, hrest⟩ := Layout.fits_group h
    simp only [Layout.encode]
    -- Fields of a group that is absent are not written, and none of them has to fit.
    by_cases hguard : guard shown ctx
    · rw [if_pos hguard]
      refine (body.done_of_fits hfree.1 ctx shown hbody).andThen
        (rest.done_of_fits hfree.2 ctx shown ?_)
      exact rest.fits_congr (fun i hlo _ => body.encode_frame ctx shown _ _ _ hlo) hrest
    · rw [if_neg hguard]
      exact Encoded.Done.andThen (.inl rfl) (rest.done_of_fits hfree.2 ctx shown hrest)

end

/-! ## What has been read keeps to its bounds -/

/-- A number is read as 64 bits, and made into a value by `f`. -/
theorem decodeNumber_ok {about : FieldMeta} {f : Nat → Except Defect Value} {old : Value}
    {c : Cursor} (h : (decodeNumber about f old c).result = .ok ()) :
    ∃ n, n < Varint.limit ∧ f n = .ok (decodeNumber about f old c).value := by
  unfold decodeNumber at h ⊢
  split at h
  · simp at h
  · rename_i n c₁ hn
    split at h
    · rename_i v hv
      exact ⟨n, Cursor.lt_limit_of_varint hn, by simp only [hv]⟩
    · simp at h

/-- Octets within the bound are read, and made into a value by `f`. -/
theorem decodeOctets_ok {about : FieldMeta} {f : Bytes → Except Defect Value} {old : Value}
    {c : Cursor} (h : (decodeOctets about f old c).result = .ok ()) :
    about.maxSize.all (c.rest.length ≤ ·) ∧ f c.rest = .ok (decodeOctets about f old c).value := by
  unfold decodeOctets at h ⊢
  split at h
  · simp at h
  · -- The bound is checked before the octets are looked at.
    rename_i hb
    split at h
    · rename_i v hv
      exact ⟨all_of_checkBound hb, hv⟩
    · simp at h

/-- `decodeUnsigned` answers the number itself, when its width admits it. -/
theorem decodeUnsigned_ok {w : Width} {n : Nat} {v : Value} (h : decodeUnsigned w n = .ok v) :
    v = .number n ∧ w.admits n := by
  unfold decodeUnsigned at h
  split at h
  · rename_i ha
    exact ⟨(Except.ok.inj h).symm, ha⟩
  · simp at h

/-- `decodeText` answers the text that the octets are those of. -/
theorem decodeText_ok {bs : Bytes} {v : Value} (h : decodeText bs = .ok v) :
    ∃ s, v = .text s ∧ Bytes.ofText s = bs := by
  unfold decodeText at h
  split at h
  · rename_i s hs
    exact ⟨s, (Except.ok.inj h).symm, Utf8.ofText_of_decode hs⟩
  · simp at h

/-- `decodeEnclosed` that succeeds has read its value from a body. -/
theorem decodeEnclosed_ok {about : FieldMeta} {type : WireType} {body : Cursor → Decoded Value}
    {old : Value} {c : Cursor} (h : (decodeEnclosed about type body old c).result = .ok ()) :
    ∃ c', (body c').result = .ok () ∧
      (decodeEnclosed about type body old c).value = (body c').value := by
  cases type with
  | varint => exact ⟨c, h, rfl⟩
  | stream => exact ⟨c, h, rfl⟩
  | len =>
    simp only [decodeEnclosed] at h ⊢
    split at h
    · simp at h
    · rename_i bs c₁ hbs
      exact ⟨Cursor.start bs, h, rfl⟩

/-- What holds of every element that is read holds of all of them, and there are `count` more. -/
theorem Decoded.all_ok {f : Cursor → Decoded Value} (P : Value → Prop)
    (hf : ∀ c, (f c).result = .ok () → P (f c).value) {count : Nat} {done : List Value} {c : Cursor}
    (hdone : ∀ v ∈ done, P v) (h : (Decoded.all f count done c).result = .ok ()) :
    (∀ v ∈ (Decoded.all f count done c).value, P v) ∧
      (Decoded.all f count done c).value.length = done.length + count := by
  induction count generalizing done c with
  | zero =>
    simp only [Decoded.all]
    exact ⟨fun v hv => hdone v (List.mem_reverse.1 hv), by simp⟩
  | succ count ih =>
    simp only [Decoded.all] at h ⊢
    cases hx : (f c).result with
    | error e => simp [hx] at h
    | ok u =>
      simp only [hx] at h
      -- The element just read joins those that are done.
      have hdone' : ∀ v ∈ (f c).value :: done, P v := by
        intro v hv
        rcases List.mem_cons.1 hv with rfl | hv
        · exact hf c hx
        · exact hdone v hv
      obtain ⟨hall, hlength⟩ := ih hdone' h
      refine ⟨hall, ?_⟩
      rw [hlength, List.length_cons]
      omega

/-- The `initials` of a layout with `startsFit` keep to their bounds, at whatever slot. -/
theorem Layout.fits_of_initials : (layout : Layout) → layout.startsFit → ∀ (slot : Nat)
    {fields : List Value}, (∀ i, i < layout.size → fields[slot + i]? = layout.initials[i]?) →
    layout.fits slot fields
  | nil, _, _, _, _ => rfl
  | field about type initial rest, h, slot, fields, hsame => by
    simp only [startsFit, Bool.and_eq_true, decide_eq_true_eq] at h
    obtain ⟨⟨⟨htag, hinitial⟩, -⟩, hrest⟩ := h
    -- The first place holds what the field starts out with.
    have hslot : fields[slot]? = some initial := hsame 0 (by simp [size])
    have hrest' := rest.fits_of_initials hrest (slot + 1) fun i hi => by
      rw [Nat.add_right_comm, Nat.add_assoc]
      exact hsame (i + 1) (by simp only [size]; omega)
    simp [fits, htag, hslot, hinitial, hrest']
  | group name guard body rest, h, slot, fields, hsame => by
    simp only [startsFit, Bool.and_eq_true] at h
    -- The group stands in front of the rest, in the record as in the layout.
    have hbody := body.fits_of_initials h.1 slot fun i hi => by
      rw [hsame i (by simp only [size]; omega), initials,
        List.getElem?_append_left (by rw [length_initials]; exact hi)]
    have hrest := rest.fits_of_initials h.2 (slot + body.size) fun i hi => by
      rw [Nat.add_assoc, hsame (body.size + i) (by simp only [size]; omega), initials,
        List.getElem?_append_right (by rw [length_initials]; omega), length_initials,
        Nat.add_sub_cancel_left]
    simp [fits, hbody, hrest]

/-- So does the `initial` value of a type. -/
theorem ValueType.fits_initial : (type : ValueType) → type.startsFit → ∀ about,
    type.fits about type.initial
  | unsigned w, _, _ => by cases w <;> rfl
  | choice e, h, _ => h
  | text, _, about | secret, _, about | blob, _, about => by
    cases hm : about.maxSize <;> simp [fits, initial, hm, Bytes.ofText]
  | list element, _, about => by
    cases hm : about.maxSize <;> simp [fits, initial, hm]
  | pair a b, h, about => by
    simp only [startsFit, Bool.and_eq_true] at h
    exact Bool.and_eq_true_iff.2 ⟨a.fits_initial h.1 _, b.fits_initial h.2 _⟩
  | record name layout hook, h, about => by
    have hlayout : layout.fits 0 layout.initials := layout.fits_of_initials h 0 fun i _ => by
      rw [Nat.zero_add]
    simp [fits, initial, hlayout]
  | status, _, _ | options, _, _ | signed, _, _ | flag, _, _ | stream, _, _ => rfl

/-- `member?` of the initial number is a member, if there is any. -/
theorem Enumeration.member?_initial {e : Enumeration} (h : e.members ≠ []) :
    (e.member? e.initial).isSome := by
  unfold member? initial
  cases hm : e.members with
  | nil => exact absurd hm h
  | cons first rest => simp

mutual

/-- Every enumeration has a member, and every field of a record has a tag that fits a key and starts
as a new value of its type. -/
def ValueType.startsNew : ValueType → Prop
  | .choice e => e.members ≠ []
  | .list element => element.startsNew
  | .pair a b => a.startsNew ∧ b.startsNew
  | .record _ layout _ => layout.startsNew
  | _ => True

/-- Every field has a tag that fits a key and starts as a new value of its type. -/
def Layout.startsNew : Layout → Prop
  | .nil => True
  | .field about type initial rest =>
    (about.tag ≤ maxTag ∧ initial = type.initial) ∧ type.startsNew ∧ rest.startsNew
  | .group _ _ body rest => body.startsNew ∧ rest.startsNew

end

mutual

/-- `startsNew` is `startsFit`: where nothing but new values stands in a new record, it keeps to
its bounds. -/
theorem ValueType.startsFit_of_startsNew : (type : ValueType) → type.startsNew → type.startsFit
  | .choice _, h => Enumeration.member?_initial h
  | .list element, h => element.startsFit_of_startsNew h
  | .pair a b, h =>
    Bool.and_eq_true_iff.2 ⟨a.startsFit_of_startsNew h.1, b.startsFit_of_startsNew h.2⟩
  | .record _ layout _, h => layout.startsFit_of_startsNew h
  | .unsigned _, _ | .status, _ | .options, _ | .signed, _ | .flag, _ | .text, _ | .secret, _
  | .blob, _ | .stream, _ => rfl

/-- `startsNew` of a layout is `startsFit`: new values keep to the bounds of its fields. -/
theorem Layout.startsFit_of_startsNew : (layout : Layout) → layout.startsNew → layout.startsFit
  | .nil, _ => rfl
  | .field about type initial rest, h => by
    obtain ⟨⟨htag, hinitial⟩, htype, hrest⟩ := h
    have hstarts := type.startsFit_of_startsNew htype
    have hfits : type.fits about initial := by
      rw [hinitial]
      exact type.fits_initial hstarts about
    simp only [Layout.startsFit, Bool.and_eq_true, decide_eq_true_eq]
    exact ⟨⟨⟨htag, hfits⟩, hstarts⟩, rest.startsFit_of_startsNew hrest⟩
  | .group _ _ body rest, h =>
    Bool.and_eq_true_iff.2 ⟨body.startsFit_of_startsNew h.1, rest.startsFit_of_startsNew h.2⟩

end

/-- `fieldsOf` a value that `fits` are fields that fit. -/
theorem Layout.fits_fieldsOf {layout : Layout} {name : String} {hook : Option Hook}
    {about : FieldMeta} {old : Value} (h : (ValueType.record name layout hook).fits about old) :
    layout.fits 0 (layout.fieldsOf old) := by
  cases old with
  | record fields =>
    simp only [ValueType.fits, Bool.and_eq_true, beq_iff_eq] at h
    -- A record that fits has as many fields as the layout, so it is read into as it is.
    simp only [fieldsOf, Value.fields_record, h.1, if_true, h.2]
  | _ => simp [ValueType.fits] at h

section

variable {about : FieldMeta} {ctx : Context} {old : Value} {c : Cursor}

/-- `decode` keeps to the bounds, with a length or without, when `decodeBody` of any body does. -/
theorem ValueType.fits_of_decode {type : ValueType}
    (hbody : ∀ {c}, (type.decodeBody about ctx old c).result = .ok () →
      type.fits about (type.decodeBody about ctx old c).value)
    (h : (type.decode about ctx old c).result = .ok ()) :
    type.fits about (type.decode about ctx old c).value := by
  obtain ⟨c', hresult, hvalue⟩ := decodeEnclosed_ok h
  have hvalue : (type.decode about ctx old c).value = _ := hvalue
  rw [hvalue]
  exact hbody hresult

/-- `decodeBody` of a list makes no more elements than the count that was checked, and each fits. -/
theorem fits_decodeList {element : ValueType}
    (hitem : ∀ c, (element.decode about.element ctx element.initial c).result = .ok () →
      element.fits about.element (element.decode about.element ctx element.initial c).value)
    (h : ((ValueType.list element).decodeBody about ctx old c).result = .ok ()) :
    (ValueType.list element).fits about
      ((ValueType.list element).decodeBody about ctx old c).value := by
  simp only [ValueType.decodeBody] at h ⊢
  split at h
  · simp at h
  · split at h
    · simp at h
    · rename_i hb
      split at h
      · rename_i henough
        obtain ⟨hall, hlength⟩ := Decoded.all_ok (element.fits about.element ·) hitem
          (fun _ hw => absurd hw List.not_mem_nil) h
        -- The count that was checked is that of the elements.
        have hcount := all_of_checkBound hb
        rw [List.length_nil, Nat.zero_add] at hlength
        rw [← hlength] at hcount
        simp only [henough, if_true]
        exact Bool.and_eq_true_iff.2 ⟨hcount, List.all_eq_true.2 hall⟩
      · simp at h

/-- `decodeBody` of a pair reads its parts into those of the old one. -/
theorem fits_decodePair {a b : ValueType}
    (hfirst : ∀ {old c}, a.fits about.element old →
      (a.decode about.element ctx old c).result = .ok () →
      a.fits about.element (a.decode about.element ctx old c).value)
    (hsecond : ∀ {old c}, b.fits about.element old →
      (b.decode about.element ctx old c).result = .ok () →
      b.fits about.element (b.decode about.element ctx old c).value)
    (hold : (ValueType.pair a b).fits about old)
    (h : ((ValueType.pair a b).decodeBody about ctx old c).result = .ok ()) :
    (ValueType.pair a b).fits about ((ValueType.pair a b).decodeBody about ctx old c).value := by
  cases old with
  | pair first second =>
    simp only [ValueType.fits, Bool.and_eq_true] at hold
    simp only [ValueType.decodeBody] at h ⊢
    split at h
    · simp at h
    · rename_i hx
      exact Bool.and_eq_true_iff.2 ⟨hfirst hold.1 hx, hsecond hold.2 h⟩
  | _ => simp [ValueType.fits] at hold

/-- `decodeBody` of a record reads its fields into those of the old one. -/
theorem fits_decodeRecord {name : String} {layout : Layout}
    (hfields : ∀ {index fields}, layout.fits 0 fields →
      (layout.decode ctx index 0 fields).2 = .ok () →
      layout.fits 0 (layout.decode ctx index 0 fields).1)
    (hold : (ValueType.record name layout none).fits about old)
    (h : ((ValueType.record name layout none).decodeBody about ctx old c).result = .ok ()) :
    (ValueType.record name layout none).fits about
      ((ValueType.record name layout none).decodeBody about ctx old c).value := by
  simp only [ValueType.decodeBody] at h ⊢
  split at h
  · simp at h
  · split at h
    · simp at h
    · rename_i index hindex _ hx
      have hfits := hfields (Layout.fits_fieldsOf hold) hx
      -- Reading keeps the number of fields.
      have hlength := (layout.decode_frame ctx index 0 (layout.fieldsOf old)).1
      rw [Layout.length_fieldsOf] at hlength
      simp only [ValueType.fits, hlength, beq_self_eq_true, Bool.true_and]
      exact hfits

end

mutual

/-- `decodeBody` into a value that `fits` makes one that fits. -/
theorem ValueType.fits_of_decodeBody : (type : ValueType) → type.isPlain → type.streamFree →
    type.startsFit → ∀ {about : FieldMeta} {ctx : Context} {old : Value} {c : Cursor},
    type.fits about old → (type.decodeBody about ctx old c).result = .ok () →
    type.fits about (type.decodeBody about ctx old c).value
  | .unsigned w, _, _, _, about, ctx, old, c, _, h => by
    obtain ⟨n, -, hn⟩ := decodeNumber_ok h
    obtain ⟨hv, ha⟩ := decodeUnsigned_ok hn
    exact hv ▸ ha
  | .status, _, _, _, about, ctx, old, c, _, h => by
    obtain ⟨n, -, hn⟩ := decodeNumber_ok h
    obtain ⟨hv, ha⟩ := decodeUnsigned_ok hn
    exact hv ▸ ha
  | .choice e, _, _, _, about, ctx, old, c, _, h => by
    obtain ⟨n, -, hn⟩ := decodeNumber_ok h
    split at hn
    · rename_i hmember
      exact Except.ok.inj hn ▸ hmember
    · simp at hn
  | .options, _, _, _, about, ctx, old, c, _, h => by
    obtain ⟨n, -, hn⟩ := decodeNumber_ok h
    split at hn
    · rename_i hmask
      -- All options together fit the width that they are written in.
      have hwidth : n < Width.u16.limit := Nat.lt_of_le_of_lt hmask (by decide)
      exact Except.ok.inj hn ▸ (decide_eq_true hwidth)
    · simp at hn
  | .signed, _, _, _, about, ctx, old, c, _, h => by
    obtain ⟨n, hlimit, hn⟩ := decodeNumber_ok h
    refine Except.ok.inj hn ▸ ?_
    simpa [ValueType.fits] using hlimit
  | .flag, _, _, _, about, ctx, old, c, _, h => by
    obtain ⟨n, -, hn⟩ := decodeNumber_ok h
    split at hn
    · exact Except.ok.inj hn ▸ rfl
    · simp at hn
  | .text, _, _, _, about, ctx, old, c, _, h => by
    obtain ⟨hb, hv⟩ := decodeOctets_ok h
    obtain ⟨s, hs, hbytes⟩ := decodeText_ok hv
    rw [← hbytes] at hb
    exact hs ▸ hb
  | .secret, _, _, _, about, ctx, old, c, _, h => by
    obtain ⟨hb, hv⟩ := decodeOctets_ok h
    obtain ⟨s, hs, hbytes⟩ := decodeText_ok hv
    rw [← hbytes] at hb
    exact hs ▸ hb
  | .blob, _, _, _, about, ctx, old, c, _, h => by
    obtain ⟨hb, hv⟩ := decodeOctets_ok h
    exact Except.ok.inj hv ▸ hb
  | .stream, _, hfree, _, _, _, _, _, _, _ => by simp [ValueType.streamFree] at hfree
  | .list element, hplain, hfree, hstarts, about, ctx, old, c, _, h => by
    refine fits_decodeList (fun c hitem => ?_) h
    -- Elements are read into new values, and these keep to their bounds.
    have hinitial := element.fits_initial hstarts about.element
    exact ValueType.fits_of_decode (element.fits_of_decodeBody hplain hfree hstarts hinitial) hitem
  | .pair a b, hplain, hfree, hstarts, about, ctx, old, c, hold, h => by
    simp only [ValueType.isPlain, Bool.and_eq_true] at hplain
    simp only [ValueType.streamFree, Bool.and_eq_true] at hfree
    simp only [ValueType.startsFit, Bool.and_eq_true] at hstarts
    refine fits_decodePair (fun hfirst => ?_) (fun hsecond => ?_) hold h
    · exact ValueType.fits_of_decode (a.fits_of_decodeBody hplain.1 hfree.1 hstarts.1 hfirst)
    · exact ValueType.fits_of_decode (b.fits_of_decodeBody hplain.2 hfree.2 hstarts.2 hsecond)
  | .record name layout hook, hplain, hfree, hstarts, about, ctx, old, c, hold, h => by
    simp only [ValueType.isPlain, Bool.and_eq_true, Option.isNone_iff_eq_none] at hplain
    obtain ⟨⟨rfl, -⟩, hlayout⟩ := hplain
    exact fits_decodeRecord (layout.fits_of_decode hlayout hfree hstarts) hold h

/-- So does `decode` into fields that fit. -/
theorem Layout.fits_of_decode : (layout : Layout) → layout.isPlain → layout.streamFree →
    layout.startsFit → ∀ {ctx : Context} {index : FieldIndex} {slot : Nat} {fields : List Value},
    layout.fits slot fields → (layout.decode ctx index slot fields).2 = .ok () →
    layout.fits slot (layout.decode ctx index slot fields).1
  | .nil, _, _, _, _, _, _, _, _, _ => rfl
  | .field about type initial rest, hplain, hfree, hstarts, ctx, index, slot, fields, hfits, h => by
    simp only [Layout.isPlain, Bool.and_eq_true] at hplain
    simp only [Layout.streamFree, Bool.and_eq_true] at hfree
    simp only [Layout.startsFit, Bool.and_eq_true] at hstarts
    obtain ⟨htag, ⟨old, hold, holdfits⟩, hrest⟩ := Layout.fits_field hfits
    have hslot := (List.getElem?_eq_some_iff.1 hold).1
    -- The record as a whole fits when what stands in this place and what follows it do.
    have hwhole : ∀ {w fields' got}, type.fits about w → fields'[slot]? = some w →
        rest.fits (slot + 1) fields' → rest.decode ctx index (slot + 1) fields' = (got, .ok ()) →
        (Layout.field about type initial rest).fits slot got := by
      intro w fields' got hw hplace hfits' hdecode
      have hgot := rest.fits_of_decode hplain.2 hfree.2 hstarts.2 hfits' (by rw [hdecode])
      rw [hdecode] at hgot
      have hkept := Layout.getElem?_of_decode hdecode
      simp [Layout.fits, htag, hkept.trans hplace, hw, hgot]
    obtain ⟨-, h⟩ | ⟨raw, -, -, hx, h⟩ := Layout.decode_field_ok (Prod.ext rfl h)
    · -- The field is absent from the octets, and its value stays.
      exact hwhole holdfits hold hrest h
    · -- The field is read, and what has become of it fits.
      rw [hold, Option.getD_some] at hx h
      have hw := type.fits_of_decodeBody hplain.1.2 hfree.1 hstarts.1.2 holdfits hx
      apply hwhole hw (List.getElem?_set_self hslot) _ h
      exact rest.fits_congr (fun i hlo _ => List.getElem?_set_ne (by omega)) hrest
  | .group .., hplain, _, _, _, _, _, _, _, _ => by simp [Layout.isPlain] at hplain

end

/-! ## There and back -/

end Storefront
