import Storefront.Proofs.Schema.Codec
import Storefront.Proofs.Schema.RoundTrip
import Storefront.Schema.Body
import Storefront.Schema.Builder

/-! # Reading twice

A message that is read a second time, out of the same body, stays as it is: nothing accumulates.  A
collection is made anew, a stream drops what it had received, and the fields of a record that the
body does not bring hold by then what the first read has left.

The second walk over a record starts from other fields than the first, so its guards have to find
what they found then.  They do where they look at nothing but fields that come earlier and that the
hook leaves alone (`Layout.Rereads`).

* `Layout.decode_again`         walking a record a second time
* `decodeMessage_again`         reading a body a second time
-/

namespace Storefront

/-! ## What a second read may rely on -/

/-- A guard that looks at the negotiated versions and at some of the fields only. -/
def Guard.LooksAt (guard : Guard) (known : Nat → Prop) : Prop :=
  ∀ fields fields' ctx, (∀ i, known i → fields'[i]? = fields[i]?) →
    guard fields' ctx = guard fields ctx

/-- A hook that leaves the kept fields of a record alone, and depends on no others where it does not
leave the whole record alone.  So it makes the same of what it has made already, whatever has come
to stand in the other fields. -/
def Hook.Settles (hook : Hook) (kept : Nat → Prop) : Prop :=
  ∀ fields ctx got, hook fields ctx = .ok got →
    got = fields ∨
      got.length = fields.length ∧ (∀ i, kept i → got[i]? = fields[i]?) ∧
        ∀ again : List Value, again.length = got.length → (∀ i, kept i → again[i]? = got[i]?) →
          hook again ctx = .ok got

/-- True for types whose values replace what stood in their place, whatever that was. -/
def ValueType.replaces : ValueType → Bool
  | stream | pair _ _ | record _ _ _ => false
  | _ => true

mutual

/-- True when the guards and hooks of all records in a type allow it to be read twice.  The elements
of a collection are always read into new values. -/
def ValueType.Rereads : ValueType → Prop
  | .pair first second => first.Rereads ∧ second.Rereads
  | .record _ layout none => layout.Rereads (fun _ => True) 0
  | .record _ layout (some hook) => ∃ kept, layout.Rereads kept 0 ∧ Hook.Settles hook kept
  | _ => True

/-- True when the fields of a layout, the first of which is number `slot` of the record, can be read
twice if those that are not kept may hold anything by then. -/
def Layout.Rereads (kept : Nat → Prop) : Layout → (slot : Nat) → Prop
  | .nil, _ => True
  | .field _ type _ rest, slot =>
    type.Rereads ∧ (kept slot ∨ type.replaces) ∧ rest.Rereads kept (slot + 1)
  | .group _ guard body rest, slot =>
    guard.LooksAt (fun i => i < slot ∧ kept i) ∧ body.Rereads kept slot ∧
      rest.Rereads kept (slot + body.size)

end

/-- A record that can be read twice. -/
def RecordType.Rereads (r : RecordType) : Prop := r.type.Rereads

theorem Guard.LooksAt.mono {guard : Guard} {known known' : Nat → Prop} (h : guard.LooksAt known)
    (hle : ∀ i, known i → known' i) : guard.LooksAt known' :=
  fun fields fields' ctx hsame => h fields fields' ctx fun i hi => hsame i (hle i hi)

/-- `Rereads` with more fields kept. -/
theorem Layout.Rereads.mono {kept kept' : Nat → Prop} (hle : ∀ i, kept i → kept' i) :
    {layout : Layout} → ∀ {slot}, layout.Rereads kept slot → layout.Rereads kept' slot
  | nil, _, _ => trivial
  | field .., _, ⟨htype, hkept, hrest⟩ => ⟨htype, hkept.imp_left (hle _), Rereads.mono hle hrest⟩
  | group .., _, ⟨hguard, hbody, hrest⟩ =>
    ⟨hguard.mono fun _ hi => ⟨hi.1, hle _ hi.2⟩, Rereads.mono hle hbody, Rereads.mono hle hrest⟩

/-- `Rereads` of a record asks for fields that are kept, by the layout and by the hook. -/
theorem RecordType.rereads_iff {r : RecordType} : r.Rereads ↔
    ∃ kept, r.layout.Rereads kept 0 ∧ ∀ hook, r.hook = some hook → hook.Settles kept := by
  obtain ⟨name, layout, _ | hook⟩ := r
  · constructor
    · intro h
      exact ⟨_, h, nofun⟩
    · rintro ⟨kept, hlayout, -⟩
      exact Layout.Rereads.mono (fun _ _ => trivial) hlayout
  · simp only [Rereads, type, ValueType.Rereads, Option.some.injEq, forall_eq']

/-- `structural` refuses a record or leaves it alone, so it `Settles`. -/
theorem Hook.structural_settles (record : String) (version : Nat) (kept : Nat → Prop) :
    (Hook.structural record version).Settles kept := by
  intro fields ctx got h
  unfold structural at h
  split at h
  · exact .inl (Except.ok.inj h).symm
  · cases h

/-! ## Values -/

section

variable {about : FieldMeta} {ctx : Context} {old : Value} {c : Cursor}

/-- `decodeNumber` does not depend on the value before it, if it succeeds. -/
theorem decodeNumber_of_ok {f : Nat → Except Defect Value}
    (h : (decodeNumber about f old c).result = .ok ()) (old' : Value) :
    decodeNumber about f old' c = decodeNumber about f old c := by
  unfold decodeNumber at h ⊢
  -- The old value is handed back on failure only.
  cases hn : Cursor.varint c with
  | error e c' => simp [hn] at h
  | ok n c' =>
    simp only [hn] at h ⊢
    cases hf : f n with
    | error defect => simp [hf] at h
    | ok v => rfl

/-- `decodeOctets` does not depend on the value before it, if it succeeds. -/
theorem decodeOctets_of_ok {f : Bytes → Except Defect Value}
    (h : (decodeOctets about f old c).result = .ok ()) (old' : Value) :
    decodeOctets about f old' c = decodeOctets about f old c := by
  unfold decodeOctets at h ⊢
  cases hb : checkBound about.tag c.remaining about.maxSize with
  | error e => simp [hb] at h
  | ok u =>
    simp only [hb] at h ⊢
    cases hf : f c.rest with
    | error defect => simp [hf] at h
    | ok v => rfl

namespace ValueType

/-- `decodeBody` of a list does not depend on the one before it, since its elements are read into
new values. -/
theorem decodeBody_list_of_ok {element : ValueType}
    (h : ((list element).decodeBody about ctx old c).result = .ok ()) (old' : Value) :
    (list element).decodeBody about ctx old' c = (list element).decodeBody about ctx old c := by
  simp only [decodeBody] at h ⊢
  cases hn : Cursor.varint c with
  | error e c' => simp [hn] at h
  | ok count c' =>
    simp only [hn] at h ⊢
    cases hb : checkBound about.tag count about.maxSize with
    | error e => simp [hb] at h
    | ok u =>
      simp only [hb] at h ⊢
      -- The elements start from new values, whatever stood in the list.
      by_cases henough : c'.rest.hasAtLeast count = true
      · simp only [henough, if_true]
      · simp [henough] at h

/-- `decodeBody` of a type that `replaces` does not depend on the value before it. -/
theorem decodeBody_of_replaces {type : ValueType} (htype : type.replaces)
    (h : (type.decodeBody about ctx old c).result = .ok ()) (old' : Value) :
    type.decodeBody about ctx old' c = type.decodeBody about ctx old c := by
  cases type with
  | stream | pair _ _ | record _ _ _ => cases htype
  | list element => exact decodeBody_list_of_ok h old'
  | text | secret | blob =>
    simp only [decodeBody] at h ⊢
    exact decodeOctets_of_ok h old'
  | _ =>
    simp only [decodeBody] at h ⊢
    exact decodeNumber_of_ok h old'

end ValueType

end

namespace StreamField

variable {m : FieldMeta} {field field' : StreamField} {c : Cursor}

/-- `receive` leaves the source of a field alone. -/
theorem source_receive : (field.receive m c).field.source = field.source := by
  unfold receive
  cases Cursor.streamStart c with
  | error e c' => rfl
  | ok declared c₁ =>
    simp only
    cases declared.elim (.ok ()) (checkBound m.tag · m.maxSize) with
    | error e => rfl
    | ok u =>
      simp only
      cases (collect m 0 [] c₁).2 with
      | error e => rfl
      | ok c' => rfl

/-- `receive` that succeeds shows nothing of what the field held before but its source. -/
theorem receive_of_ok (hsource : field'.source = field.source)
    (h : (field.receive m c).result = .ok ()) : field'.receive m c = field.receive m c := by
  unfold receive at h ⊢
  -- The declared size is read first, and from there on only the source is taken over.
  cases hstart : Cursor.streamStart c with
  | error e c' => simp [hstart] at h
  | ok declared c₁ => simp only [hsource]

/-- A stream drops what it had received, so `receive` comes to the same again. -/
theorem receive_again (h : (field.receive m c).result = .ok ()) :
    (field.receive m c).field.receive m c = field.receive m c :=
  receive_of_ok source_receive h

end StreamField

/-- A type whose values stay as they are when they are read a second time, out of the same octets
and into what the first read has left. -/
def ValueType.ReadsAgain (type : ValueType) : Prop :=
  ∀ ⦃about ctx old v c c'⦄, type.decodeBody about ctx old c = ⟨v, c', .ok ()⟩ →
    type.decodeBody about ctx v c = ⟨v, c', .ok ()⟩

namespace ValueType

/-- A type that `replaces` is one that `ReadsAgain`. -/
theorem readsAgain_of_replaces {type : ValueType} (htype : type.replaces) : type.ReadsAgain := by
  intro about ctx old v c c' h
  rw [decodeBody_of_replaces htype (by rw [h]) v, h]

/-- A stream `ReadsAgain`: `receive` starts it over. -/
theorem readsAgain_stream : stream.ReadsAgain := by
  intro about ctx old v c c' h
  obtain ⟨field, hfield⟩ := decodeBody_stream about ctx old
  rw [hfield] at h
  -- A stream fails as its field does, so the field has been received.
  have hresult : (field.receive about c).result = .ok () := by
    have hmapped := congrArg Decoded.result h
    simp only at hmapped
    cases hr : (field.receive about c).result with
    | error e => simp [hr, Except.mapError] at hmapped
    | ok u => rfl
  have hv : v = .stream (field.receive about c).field := (congrArg Decoded.value h).symm
  rw [← h, hv]
  simp only [decodeBody, StreamField.receive_again hresult]

/-- `decode` of an element is read twice as its body is. -/
theorem ReadsAgain.decode {type : ValueType} {about : FieldMeta} {ctx : Context} {old v : Value}
    {c c' : Cursor} (hbody : type.ReadsAgain)
    (h : type.decode about ctx old c = ⟨v, c', .ok ()⟩) :
    type.decode about ctx v c = ⟨v, c', .ok ()⟩ := by
  unfold ValueType.decode decodeEnclosed at h ⊢
  split at h
  · cases hlen : Cursor.lenPrefixed none about.tag c with
    | error e c₁ => simp [hlen] at h
    | ok bs c₁ =>
      -- The body behind the length is the same octets again.
      cases hx : type.decodeBody about ctx old (Cursor.start bs) with
      | mk v₁ c₂ r =>
        simp only [hlen, hx, Decoded.mk.injEq] at h ⊢
        obtain ⟨rfl, rfl, rfl⟩ := h
        simp only [hbody hx, and_self]
  · exact hbody h

/-- A pair `ReadsAgain` when its components do. -/
theorem readsAgain_pair {a b : ValueType} (ha : a.ReadsAgain) (hb : b.ReadsAgain) :
    (pair a b).ReadsAgain := by
  intro about ctx old v c c' h
  rw [decodeBody_pair] at h
  cases hx : a.decode about.element ctx (old.components a b).1 c with
  | mk first c₁ r =>
    cases r with
    | error e => simp [hx] at h
    | ok u =>
      cases hy : b.decode about.element ctx (old.components a b).2 c₁ with
      | mk second c₂ r =>
        simp only [hx, hy, Decoded.mk.injEq] at h
        obtain ⟨rfl, rfl, rfl⟩ := h
        -- What stands in the place of the pair now is what its components have been read as.
        simp only [decodeBody_pair, Value.components, ha.decode hx, hb.decode hy]

end ValueType

/-! ## Records -/

/-- A layout that can be read a second time into fields of which the kept ones are as the first read
has left them. -/
def Layout.ReadsAgain (layout : Layout) (ctx : Context) (index : FieldIndex) (kept : Nat → Prop)
    (slot : Nat) : Prop :=
  ∀ ⦃fields got again : List Value⦄, layout.decode ctx index slot fields = (got, .ok ()) →
    again.length = got.length → (∀ i, i < slot + layout.size → kept i → again[i]? = got[i]?) →
    ∃ final, layout.decode ctx index slot again = (final, .ok ()) ∧
      ∀ i, kept i → final[i]? = again[i]?

namespace Layout

variable {ctx : Context} {index : FieldIndex} {kept : Nat → Prop} {slot : Nat}

/-- `decodeBody` a second time is what it was, and where the place is kept its value stands
there already. -/
theorem decodeBody_again {about : FieldMeta} {type : ValueType} {fields again : List Value} {v : Value}
    {octets c : Cursor} (htype : type.ReadsAgain) (hkept : kept slot ∨ type.replaces)
    (hread : type.decodeBody about ctx (fields[slot]?.getD type.initial) octets = ⟨v, c, .ok ()⟩)
    (hlength : again.length = fields.length)
    (hsame : kept slot → again[slot]? = (fields.set slot v)[slot]?) :
    type.decodeBody about ctx (again[slot]?.getD type.initial) octets = ⟨v, c, .ok ()⟩ ∧
      ∀ i, kept i → (again.set slot v)[i]? = again[i]? := by
  by_cases hslot : slot < fields.length
  · by_cases hk : kept slot
    · -- The place is kept, so the value of the first read stands there.
      have hv : again[slot]? = some v := by rw [hsame hk, List.getElem?_set_self hslot]
      refine ⟨by rw [hv]; exact htype hread, fun i _ => ?_⟩
      by_cases hi : slot = i
      · subst hi
        rw [List.getElem?_set_self (by omega), hv]
      · exact List.getElem?_set_ne hi
    · -- The place is not kept, so the value must not depend on what stands there.
      have hreplaces := ValueType.decodeBody_of_replaces (hkept.resolve_left hk) (by rw [hread])
        (again[slot]?.getD type.initial)
      refine ⟨hreplaces.trans hread, fun i hi => List.getElem?_set_ne ?_⟩
      rintro rfl
      exact hk hi
  · -- There is no such place in either record, so nothing is put anywhere.
    have hnone : again[slot]? = fields[slot]? := by
      rw [List.getElem?_eq_none (by omega), List.getElem?_eq_none (by omega)]
    rw [hnone, List.set_eq_of_length_le (by omega)]
    exact ⟨hread, fun _ _ => rfl⟩

/-- A field `ReadsAgain` when its value does and its place is kept, or when its value replaces
any other. -/
theorem readsAgain_field {about : FieldMeta} {type : ValueType} {initial : Value} {rest : Layout}
    (htype : type.ReadsAgain) (hkept : kept slot ∨ type.replaces)
    (hrest : rest.ReadsAgain ctx index kept (slot + 1)) :
    (field about type initial rest).ReadsAgain ctx index kept slot := by
  intro fields got again h hlength hsame
  simp only [size] at hsame
  rcases decode_field_ok h with ⟨hnone, hread⟩ | ⟨raw, hfound, hexpect, hresult, hread⟩
  · -- Neither walk finds octets for this place.
    obtain ⟨final, hfinal, hframe⟩ := hrest hread hlength fun i hi => hsame i (by omega)
    refine ⟨final, ?_, hframe⟩
    simp only [decode, hnone, hfinal]
  · cases hx : type.decodeBody about ctx (fields[slot]?.getD type.initial) raw.cursor with
    | mk v c r =>
      simp only [hx] at hresult hread
      subst hresult
      -- The rest of the first walk has left the value in its place, where the second one finds it.
      have hgot : got[slot]? = (fields.set slot v)[slot]? := getElem?_of_decode hread
      have hsize : got.length = fields.length := by
        have hframe := ((field about type initial rest).decode_frame ctx index slot fields).1
        rwa [h] at hframe
      obtain ⟨hread', hset⟩ := decodeBody_again htype hkept hx (hlength.trans hsize)
        fun hk => (hsame slot (by omega) hk).trans hgot
      have hlength' : (again.set slot v).length = got.length := by rw [List.length_set, hlength]
      obtain ⟨final, hfinal, hkeeps⟩ := hrest hread hlength'
        fun i hi hk => (hset i hk).trans (hsame i (by omega) hk)
      refine ⟨final, ?_, fun i hi => (hkeeps i hi).trans (hset i hi)⟩
      simp only [decode, hfound, hexpect, hread', hfinal]

/-- A group `ReadsAgain` when its guard looks at kept fields before it. -/
theorem readsAgain_group {name : String} {guard : Guard} {body rest : Layout}
    (hguard : guard.LooksAt fun i => i < slot ∧ kept i)
    (hbody : body.ReadsAgain ctx index kept slot)
    (hrest : rest.ReadsAgain ctx index kept (slot + body.size)) :
    (group name guard body rest).ReadsAgain ctx index kept slot := by
  intro fields got again h hlength hsame
  simp only [size] at hsame
  -- The guard looks at fields that come before the group, which the walk has not touched since.
  have hearlier : guard again ctx = guard fields ctx := by
    refine hguard _ _ _ fun i hi => ?_
    have hframe := ((group name guard body rest).decode_frame ctx index slot fields).2 i (.inl hi.1)
    rw [h] at hframe
    exact (hsame i (by omega) hi.2).trans hframe
  rcases decode_group_ok h with ⟨hpresent, inner, hinner, hread⟩ | ⟨habsent, hread⟩
  · -- What the group has written is not touched by the fields behind it.
    have hframe := rest.decode_frame ctx index (slot + body.size) inner
    rw [hread] at hframe
    obtain ⟨inner', hinner', hkept⟩ := hbody hinner (hlength.trans hframe.1)
      fun i hi hk => (hsame i (by omega) hk).trans (hframe.2 i (.inl hi))
    have hlength' := (body.decode_frame ctx index slot again).1
    rw [hinner'] at hlength'
    obtain ⟨final, hfinal, hkept'⟩ := hrest hread (hlength'.trans hlength)
      fun i hi hk => (hkept i hk).trans (hsame i (by omega) hk)
    refine ⟨final, ?_, fun i hi => (hkept' i hi).trans (hkept i hi)⟩
    simp only [decode, hearlier, hpresent, if_true, hinner', hfinal]
  · -- The group is absent both times.
    obtain ⟨final, hfinal, hkept⟩ := hrest hread hlength fun i hi => hsame i (by omega)
    refine ⟨final, ?_, hkept⟩
    simp only [decode, hearlier, habsent, Bool.false_eq_true, if_false, hfinal]

end Layout

/-- `decode` of a layout that `ReadsAgain`, into what it has been read as, changes nothing. -/
theorem Layout.ReadsAgain.fixed {layout : Layout} {ctx : Context} {index : FieldIndex} {slot : Nat}
    {fields got : List Value} (hagain : layout.ReadsAgain ctx index (fun _ => True) slot)
    (h : layout.decode ctx index slot fields = (got, .ok ())) :
    layout.decode ctx index slot got = (got, .ok ()) := by
  obtain ⟨final, hfinal, hsame⟩ := hagain h rfl fun _ _ _ => rfl
  have hfix : final = got := List.ext_getElem? fun i => hsame i trivial
  rwa [hfix] at hfinal

namespace RecordType

variable {r : RecordType} {ctx : Context} {index : FieldIndex} {kept : Nat → Prop}
  {before after : List Value}

/-- `decodeIndexed` twice: where the hook has changed fields, the second walk starts from what it
has made of them, and the hook then makes the same of them again. -/
theorem decodeIndexed_again
    (hlayout : ∀ {kept' : Nat → Prop}, (∀ i, kept i → kept' i) →
      r.layout.ReadsAgain ctx index kept' 0)
    (hhook : ∀ hook, r.hook = some hook → hook.Settles kept)
    (h : r.decodeIndexed ctx index before = (after, .ok ())) :
    r.decodeIndexed ctx index after = (after, .ok ()) ∧ after.length = before.length := by
  unfold decodeIndexed at h ⊢
  cases hx : r.layout.decode ctx index 0 before with
  | mk got result =>
    rw [hx] at h
    have hframe : got.length = before.length := by
      have hframe := (r.layout.decode_frame ctx index 0 before).1
      rwa [hx] at hframe
    cases result with
    | error e => simp at h
    | ok u =>
      -- Without a hook the fields are fixed by the layout alone.
      have hfixed := (hlayout fun _ _ => trivial).fixed hx
      cases hr : r.hook with
      | none =>
        simp only [hr, Prod.mk.injEq, and_true] at h
        subst h
        simp only [hfixed, hframe, and_self]
      | some hook =>
        simp only [hr] at h ⊢
        cases hgot : hook got ctx with
        | error e => simp [hgot] at h
        | ok fields =>
          simp only [hgot, Prod.mk.injEq, and_true] at h
          subst h
          rcases hhook hook hr got ctx fields hgot with rfl | ⟨hlength, hkept, hstable⟩
          · -- The hook has left the record alone, and does so again.
            simp only [hfixed, hgot, hframe, and_self]
          · -- The second walk may write what the hook has cleared, but nothing that it looks at.
            obtain ⟨final, hfinal, hsame⟩ := hlayout (fun _ hi => hi) hx hlength
              fun i _ hi => hkept i hi
            have hframe' := (r.layout.decode_frame ctx index 0 fields).1
            rw [hfinal] at hframe'
            simp only [hfinal, hstable final hframe' hsame, hlength, hframe, and_self]

end RecordType

namespace ValueType

variable {name : String} {layout : Layout} {hook : Option Hook}

/-- `decodeBody` of a record is `ofBody` of all that is left, and then as for the record
by itself. -/
theorem decodeBody_record {about : FieldMeta} {ctx : Context} {old : Value} {c : Cursor} :
    (record name layout hook).decodeBody about ctx old c =
      match FieldIndex.ofBody layout.byteBound c.rest with
      | .error e => ⟨old, ⟨c.position + c.remaining, []⟩, .error (.wire e)⟩
      | .ok index =>
        let x := RecordType.decodeIndexed ⟨name, layout, hook⟩ ctx index (layout.fieldsOf old)
        ⟨.record x.1, ⟨c.position + c.remaining, []⟩, x.2⟩ := by
  simp only [decodeBody]
  cases FieldIndex.ofBody layout.byteBound c.rest with
  | error e => rfl
  | ok index =>
    simp only [RecordType.decodeIndexed]
    rcases layout.decode ctx index 0 (layout.fieldsOf old) with ⟨fields, _ | _⟩
    · rfl
    · cases hook with
      | none => rfl
      | some hook =>
        simp only
        cases hook fields ctx <;> rfl

/-- A record `ReadsAgain` when its layout does and its hook settles. -/
theorem readsAgain_record {kept : Nat → Prop}
    (hlayout : ∀ {ctx : Context} {index : FieldIndex} {kept' : Nat → Prop},
      (∀ i, kept i → kept' i) → layout.ReadsAgain ctx index kept' 0)
    (hhook : ∀ h, hook = some h → Hook.Settles h kept) :
    (record name layout hook).ReadsAgain := by
  intro about ctx old v c c' h
  rw [decodeBody_record] at h ⊢
  cases hindex : FieldIndex.ofBody layout.byteBound c.rest with
  | error e => simp [hindex] at h
  | ok index =>
    simp only [hindex] at h ⊢
    cases hx : RecordType.decodeIndexed ⟨name, layout, hook⟩ ctx index (layout.fieldsOf old) with
    | mk after result =>
      simp only [hx, Decoded.mk.injEq] at h ⊢
      obtain ⟨rfl, rfl, rfl⟩ := h
      obtain ⟨hagain, hlength⟩ := RecordType.decodeIndexed_again hlayout hhook hx
      -- What has been read has as many fields as the layout.
      have hfields : layout.fieldsOf (.record after) = after :=
        if_pos (hlength.trans (layout.length_fieldsOf old))
      simp only [hfields, hagain, and_self]

end ValueType

mutual

/-- Every type that `Rereads` is read twice, by recursion on the type. -/
theorem ValueType.readsAgain : (type : ValueType) → type.Rereads → type.ReadsAgain
  | .pair a b, h => ValueType.readsAgain_pair (a.readsAgain h.1) (b.readsAgain h.2)
  | .record _ layout none, h =>
    ValueType.readsAgain_record (fun hle => layout.readsAgain (Layout.Rereads.mono hle h))
      fun _ hh => nomatch hh
  | .record _ layout (some _), ⟨_, hlayout, hhook⟩ =>
    ValueType.readsAgain_record (fun hle => layout.readsAgain (hlayout.mono hle))
      fun _ hh => Option.some.inj hh ▸ hhook
  | .stream, _ => ValueType.readsAgain_stream
  | .list _, _ | .unsigned _, _ | .status, _ | .choice _, _ | .options, _ | .signed, _ | .flag, _
  | .text, _ | .secret, _ | .blob, _ => ValueType.readsAgain_of_replaces rfl

/-- Every layout that `Rereads` is read twice, field by field. -/
theorem Layout.readsAgain {kept : Nat → Prop} : (layout : Layout) → ∀ {ctx : Context}
    {index : FieldIndex} {slot : Nat}, layout.Rereads kept slot →
    layout.ReadsAgain ctx index kept slot
  | .nil, _, _, _, _ => fun _ _ again _ _ _ => ⟨again, rfl, fun _ _ => rfl⟩
  | .field _ type _ rest, _, _, _, ⟨htype, hkept, hrest⟩ =>
    Layout.readsAgain_field (type.readsAgain htype) hkept (rest.readsAgain hrest)
  | .group _ _ body rest, _, _, _, ⟨hguard, hbody, hrest⟩ =>
    Layout.readsAgain_group hguard (body.readsAgain hbody) (rest.readsAgain hrest)

end

/-- `decodeMessage` of the same body, into what a first `decodeMessage` of it has left, changes
nothing, for records that `Rereads`. -/
theorem RecordType.decodeMessage_again {r : RecordType} {ctx : Context} {body : Bytes}
    {before after : List Value} (hr : r.Rereads)
    (h : r.decodeMessage ctx body before = (after, .ok ())) :
    r.decodeMessage ctx body after = (after, .ok ()) := by
  obtain ⟨kept, hlayout, hhook⟩ := rereads_iff.1 hr
  unfold decodeMessage at h ⊢
  cases hindex : r.index body with
  | error e => simp [hindex] at h
  | ok index =>
    simp only [hindex] at h ⊢
    -- The format version is checked on the same octets.
    cases hversion : checkFormatVersion index with
    | error e => simp [hversion] at h
    | ok u =>
      simp only [hversion] at h ⊢
      exact (decodeIndexed_again (fun hle => r.layout.readsAgain (hlayout.mono hle)) hhook h).1

end Storefront
