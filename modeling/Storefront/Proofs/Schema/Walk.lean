import Mathlib.Data.List.Nodup
import Storefront.Proofs.Schema.Scalar

/-! # Walks over a record

A walk goes through the fields of a record in order and into the groups whose guards hold.  A body
is what a walk over the record has written, field by field.

* `encode_ok`       a body is made of the fields that a walk comes to
* `framed_walk`     of which each can be told from the next
* `find?_of_mem_walk`, `find?_of_not_mem_walk`  and which are found again, and no others
-/

namespace Storefront

/-- A field of a record and where it stands. -/
structure Place where
  slot : Nat
  about : FieldMeta
  type : ValueType

namespace Layout

/-- All fields of a layout, the first of which is number `slot`. -/
def places : Layout → (slot : Nat) → List Place
  | nil, _ => []
  | field about type _ rest, slot => ⟨slot, about, type⟩ :: places rest (slot + 1)
  | group _ _ body rest, slot => places body slot ++ places rest (slot + body.size)

/-- The fields that a walk over a record comes to. -/
def walk : Layout → Context → (shown : List Value) → (slot : Nat) → List Place
  | nil, _, _, _ => []
  | field about type _ rest, ctx, shown, slot =>
    ⟨slot, about, type⟩ :: walk rest ctx shown (slot + 1)
  | group _ guard body rest, ctx, shown, slot =>
    (if guard shown ctx then walk body ctx shown slot else []) ++
      walk rest ctx shown (slot + body.size)

/-- `walk` comes to `places` of the layout, in their order. -/
theorem walk_sublist (ctx : Context) (shown : List Value) : (layout : Layout) → ∀ slot,
    (layout.walk ctx shown slot).Sublist (layout.places slot)
  | nil, _ => .slnil
  | field _ _ _ rest, slot => (rest.walk_sublist ctx shown (slot + 1)).cons_cons _
  | group _ guard body rest, slot => by
    simp only [walk, places]
    -- A walk that passes a group leaves out all of its fields.
    refine List.Sublist.append ?_ (rest.walk_sublist ctx shown _)
    split
    · exact body.walk_sublist ctx shown slot
    · exact List.nil_sublist _

/-- `places` of a layout are its `declared` fields. -/
theorem map_places : (layout : Layout) → ∀ slot,
    (layout.places slot).map (fun p => (p.about, p.type)) = layout.declared
  | nil, _ => rfl
  | field _ _ _ rest, slot => by simp only [places, declared, List.map_cons, rest.map_places]
  | group _ _ body rest, slot => by
    simp only [places, declared, List.map_append, body.map_places, rest.map_places]

/-- The slots of `places` follow each other. -/
theorem slots_places : (layout : Layout) → ∀ slot,
    (layout.places slot).map (·.slot) = List.range' slot layout.size
  | nil, _ => rfl
  | field _ _ _ rest, slot => by
    simp only [places, size, List.map_cons, rest.slots_places, List.range'_succ]
  | group _ _ body rest, slot => by
    simp only [places, size, List.map_append, body.slots_places, rest.slots_places]
    rw [List.range'_append_1]

/-- The places of a layout lie in as many slots from `slot` on. -/
theorem slot_of_mem_places {layout : Layout} {slot : Nat} {p : Place}
    (h : p ∈ layout.places slot) : slot ≤ p.slot ∧ p.slot < slot + layout.size := by
  have hp : p.slot ∈ (layout.places slot).map (·.slot) := List.mem_map_of_mem h
  rw [slots_places, List.mem_range'_1] at hp
  exact hp

/-- Every slot of a layout is that of one of its `places`. -/
theorem exists_place {layout : Layout} {slot i : Nat} (hlo : slot ≤ i)
    (hhi : i < slot + layout.size) : ∃ p ∈ layout.places slot, p.slot = i := by
  -- The slots of the places are all those of the layout.
  have hi : i ∈ (layout.places slot).map (·.slot) := by
    rw [slots_places, List.mem_range'_1]
    exact ⟨hlo, hhi⟩
  simpa using List.mem_map.1 hi

/-- The field of one of the `places` is `declared`. -/
theorem declared_of_mem_places {layout : Layout} {slot : Nat} {p : Place}
    (h : p ∈ layout.places slot) : (p.about, p.type) ∈ layout.declared := by
  rw [← map_places layout slot]
  exact List.mem_map_of_mem (f := fun p => (p.about, p.type)) h

end Layout

/-! ## What a walk writes -/

namespace Encoded

variable {α : Type}

/-- `andThen` that succeeds has the second part behind the first. -/
theorem andThen_ok {x : Encoded α} {f : α → Encoded α} (h : (x.andThen f).result = .ok ()) :
    x.result = .ok () ∧ (f x.value).result = .ok () ∧
      (x.andThen f).bytes = x.bytes ++ (f x.value).bytes := by
  cases hx : x.result with
  | error e => simp [andThen, hx] at h
  | ok u =>
    simp only [andThen, hx] at h
    exact ⟨rfl, h, by simp only [andThen, hx]⟩

/-- `andThen` keeps what both parts keep. -/
theorem andThen_value {P : α → Prop} {x : Encoded α} {f : α → Encoded α} (hx : P x.value)
    (hf : ∀ v, P v → P (f v).value) : P (x.andThen f).value := by
  unfold andThen
  split
  · exact hx
  · exact hf _ hx

end Encoded

namespace Place

/-- What stands in the place. -/
def value (p : Place) (fields : List Value) : Value := fields[p.slot]?.getD default

/-- The field that is written for the place. -/
def raw (p : Place) (ctx : Context) (fields : List Value) : RawField :=
  ⟨p.about.tag, p.type.wireType, (p.type.encodeBody p.about ctx (p.value fields)).bytes⟩

/-- The place could be written. -/
structure Written (p : Place) (ctx : Context) (fields : List Value) : Prop where
  tag : p.about.tag ≤ maxTag
  standing : fields[p.slot]? = some (p.value fields)
  result : (p.type.encode p.about ctx (p.value fields)).result = .ok ()

end Place

namespace Layout

/-- `encode` does not touch the fields behind the layout. -/
theorem encode_frame (ctx : Context) (shown : List Value) : (layout : Layout) →
    ∀ slot fields i, slot + layout.size ≤ i →
      (layout.encode ctx shown slot fields).value[i]? = fields[i]?
  | nil, _, _, _, _ => by simp [encode, Encoded.ok]
  | field about type initial rest, slot, fields, i, hi => by
    simp only [size] at hi
    simp only [encode]
    split
    · rfl
    · rfl
    · refine Encoded.andThen_value (P := fun v => v[i]? = fields[i]?) ?_ ?_
      · exact List.getElem?_set_ne (by omega)
      · intro v hv
        rw [rest.encode_frame ctx shown _ _ _ (by omega), hv]
  | group name guard body rest, slot, fields, i, hi => by
    simp only [size] at hi
    simp only [encode]
    -- Neither the group, present or not, nor what follows it reaches that far.
    refine Encoded.andThen_value (P := fun v => v[i]? = fields[i]?) ?_ ?_
    · split
      · exact body.encode_frame ctx shown _ _ _ (by omega)
      · rfl
    · intro v hv
      rw [rest.encode_frame ctx shown _ _ _ (by omega), hv]

/-- `encode` of a field that succeeds puts it first, and the rest of the layout behind it. -/
theorem encode_field_ok {ctx : Context} {shown fields : List Value} {about : FieldMeta}
    {type : ValueType} {initial : Value} {rest : Layout} {slot : Nat}
    (h : ((field about type initial rest).encode ctx shown slot fields).result = .ok ()) :
    ∃ v v', fields[slot]? = some v ∧ about.tag ≤ maxTag ∧ (type.encode about ctx v).result = .ok () ∧
      (rest.encode ctx shown (slot + 1) (fields.set slot v')).result = .ok () ∧
      ((field about type initial rest).encode ctx shown slot fields).bytes =
        RawField.octets ⟨about.tag, type.wireType, (type.encodeBody about ctx v).bytes⟩ ++
          (rest.encode ctx shown (slot + 1) (fields.set slot v')).bytes := by
  simp only [encode] at h ⊢
  split at h
  · simp [Encoded.error] at h
  · simp [Encoded.error] at h
  · rename_i key v hkey hv
    unfold Wire.key at hkey
    split at hkey
    · simp at hkey
    · rename_i htag
      -- The key is there, so what is left is the field and the fields behind it.
      obtain ⟨hx, hrest, hbytes⟩ := Encoded.andThen_ok h
      have hx : (type.encode about ctx v).result = .ok () := hx
      obtain ⟨-, -, hoctets⟩ := ValueType.encode_ok hx
      refine ⟨v, _, hv, Nat.not_lt.1 htag, hx, hrest, ?_⟩
      rw [hbytes, ← Except.ok.inj hkey, RawField.octets, ← hoctets]
      rfl

/-- `encode` that succeeds has made the fields that `walk` comes to, each of which is `Written`. -/
theorem encode_ok {ctx : Context} {shown : List Value} : (layout : Layout) → ∀ {slot fields},
    (∀ i, slot ≤ i → fields[i]? = shown[i]?) →
    (layout.encode ctx shown slot fields).result = .ok () →
    (layout.encode ctx shown slot fields).bytes =
        ((layout.walk ctx shown slot).map (·.raw ctx shown)).flatMap RawField.octets ∧
      ∀ p ∈ layout.walk ctx shown slot, p.Written ctx shown
  | nil, slot, fields, _, _ => by simp [encode, walk, Encoded.ok]
  | field about type initial rest, slot, fields, hshown, h => by
    obtain ⟨v, v', hv, htag, hx, hrest, hbytes⟩ := encode_field_ok h
    -- What stands here has not been touched since the walk was begun.
    have hs : shown[slot]? = some v := by rw [← hshown slot (Nat.le_refl _), hv]
    have hvalue : (Place.mk slot about type).value shown = v := by simp [Place.value, hs]
    -- The fields that follow have not been touched by writing this one.
    obtain ⟨hmore, hwritten⟩ := rest.encode_ok (fun i hi => by
      rw [List.getElem?_set_ne (by omega)]
      exact hshown i (by omega)) hrest
    refine ⟨?_, ?_⟩
    · rw [hbytes, hmore, walk, List.map_cons, List.flatMap_cons, Place.raw, hvalue]
    · intro p hp
      rcases List.mem_cons.1 hp with rfl | hp
      · exact ⟨htag, hvalue ▸ hs, hvalue ▸ hx⟩
      · exact hwritten p hp
  | group name guard body rest, slot, fields, hshown, h => by
    simp only [encode] at h ⊢
    obtain ⟨hx, hrest, hbytes⟩ := Encoded.andThen_ok h
    -- The guard looks at the message as it is shown, so writing and walking go the same way.
    by_cases hguard : guard shown ctx
    · simp only [hguard, if_true, walk] at hx hrest hbytes ⊢
      obtain ⟨hbody, hwritten⟩ := body.encode_ok hshown hx
      obtain ⟨hmore, hwritten'⟩ := rest.encode_ok (fun i hi => by
        rw [body.encode_frame ctx shown _ _ _ hi]
        exact hshown i (by omega)) hrest
      refine ⟨?_, ?_⟩
      · rw [hbytes, hbody, hmore, List.map_append, List.flatMap_append]
      · intro p hp
        rcases List.mem_append.1 hp with hp | hp
        · exact hwritten p hp
        · exact hwritten' p hp
    · simp only [hguard, Bool.false_eq_true, if_false, walk] at hx hrest hbytes ⊢
      obtain ⟨hmore, hwritten⟩ := rest.encode_ok (fun i hi => hshown i (by omega)) hrest
      refine ⟨?_, ?_⟩
      · rw [hbytes, List.nil_append, ← hmore]
        rfl
      · exact fun p hp => hwritten p hp

end Layout

/-! ## Finding the fields again -/

/-- What `encodeBody` has made is `Framed`: it is found again, whatever follows it. -/
theorem ValueType.framed {type : ValueType} {about : FieldMeta} {ctx : Context} {v : Value}
    (hv : v.InRange) (h : (type.encode about ctx v).result = .ok ()) :
    RawField.Framed (if type.byteBounded then about.maxSize else none)
      ⟨about.tag, type.wireType, (type.encodeBody about ctx v).bytes⟩ := by
  obtain ⟨hbody, hlen, -⟩ := encode_ok h
  cases hw : type.wireType with
  | varint =>
    obtain ⟨n, hn, hbytes⟩ := type.number_written hw hv hbody
    rw [hbytes]
    exact RawField.framed_varint _ _ hn
  | len =>
    -- Only what counts octets is held against a bound before it has been read.
    by_cases hbounded : type.byteBounded
    · obtain ⟨bs, hbytes, hb, -⟩ := type.octets hw hbounded hbody
      rw [hbytes, if_pos hbounded]
      exact RawField.framed_len (hbytes ▸ hlen hw) hb
    · rw [if_neg hbounded]
      exact RawField.framed_len (hlen hw) rfl
  | stream =>
    cases type <;> simp [wireType] at hw
    obtain ⟨field, chunks, rfl, hdrains, hd, hbytes⟩ := streamed hv hbody
    have hroom := StreamField.chunkRoom_lt_limit about
    rw [hbytes, hdrains.bytes]
    refine RawField.framed_stream hd (fun n hn => ?_) fun c hc => ?_
    · exact hdrains.announced n hn ▸ hdrains.bounded
    · exact ⟨(hdrains.chunk c hc).1, Nat.lt_of_le_of_lt (hdrains.chunk c hc).2 hroom⟩

namespace Layout

/-- True when no two fields have the same tag. -/
def distinctTags (layout : Layout) : Prop := (layout.declared.map (·.1.tag)).Nodup

instance (layout : Layout) : Decidable layout.distinctTags :=
  inferInstanceAs (Decidable (List.Nodup _))

/-- Places of a layout with `distinctTags` have tags of their own. -/
theorem nodup_tags_places {layout : Layout} (h : layout.distinctTags) (slot : Nat) :
    ((layout.places slot).map (·.about.tag)).Nodup := by
  unfold distinctTags at h
  rw [← map_places layout slot, List.map_map] at h
  exact h

theorem nodup_tags_walk {layout : Layout} (h : layout.distinctTags) (ctx : Context)
    (shown : List Value) (slot : Nat) :
    ((layout.walk ctx shown slot).map (·.about.tag)).Nodup :=
  ((walk_sublist ctx shown layout slot).map _).nodup (nodup_tags_places h slot)

/-- `byteBound` of a tag is that of the field, when the tags are different ones. -/
theorem byteBound_of_mem {layout : Layout} (h : layout.distinctTags) {about : FieldMeta}
    {type : ValueType} (hm : (about, type) ∈ layout.declared) :
    layout.byteBound about.tag = if type.byteBounded then about.maxSize else none := by
  -- The first field with this tag is the only one.
  have hfind : layout.declared.find? (·.1.tag == about.tag) = some (about, type) :=
    find?_key_of_mem h hm
  show (layout.declared.find? (·.1.tag == about.tag)).bind _ = _
  rw [hfind]
  rfl

/-- `holds` of a layout is `holds` of each of its places. -/
theorem holds_of_mem_places : {layout : Layout} → ∀ {slot fields}, layout.holds slot fields →
    ∀ p ∈ layout.places slot, fields[p.slot]? = some (p.value fields) ∧ p.type.holds (p.value fields)
  | nil, slot, fields, _, p, hp => by simp [places] at hp
  | field about type initial rest, slot, fields, h, p, hp => by
    obtain ⟨⟨v, hs, hv⟩, hrest⟩ := holds_field h
    rcases List.mem_cons.1 hp with rfl | hp
    · simp [Place.value, hs, hv]
    · exact holds_of_mem_places hrest p hp
  | group name guard body rest, slot, fields, h, p, hp => by
    obtain ⟨hbody, hrest⟩ := holds_group h
    rcases List.mem_append.1 hp with hp | hp
    · exact holds_of_mem_places hbody p hp
    · exact holds_of_mem_places hrest p hp

/-- What stands in a place that `walk` comes to is `InRange`. -/
theorem inRange_of_mem_walk {layout : Layout} {ctx : Context} {fields : List Value} {slot : Nat}
    (hv : layout.holds slot fields) :
    ∀ p ∈ layout.walk ctx fields slot, (p.value fields).InRange := by
  intro p hp
  have hplace := (walk_sublist ctx fields layout slot).subset hp
  exact ValueType.inRange_of_holds (holds_of_mem_places hv p hplace).2

/-- The fields that `walk` comes to are `Framed`, with tags that fit a key. -/
theorem framed_walk {layout : Layout} {ctx : Context} {fields : List Value} {slot : Nat}
    (htags : layout.distinctTags) (hv : ∀ p ∈ layout.walk ctx fields slot, (p.value fields).InRange)
    (hw : ∀ p ∈ layout.walk ctx fields slot, p.Written ctx fields) :
    ∀ f ∈ (layout.walk ctx fields slot).map (·.raw ctx fields),
      f.tag ≤ maxTag ∧ f.Framed (layout.byteBound f.tag) := by
  intro f hf
  obtain ⟨p, hp, rfl⟩ := List.mem_map.1 hf
  have hplace := (walk_sublist ctx fields layout slot).subset hp
  refine ⟨(hw p hp).tag, ?_⟩
  show RawField.Framed (layout.byteBound p.about.tag) _
  -- The reader holds the length of the field against the bound of that very field.
  rw [byteBound_of_mem htags (declared_of_mem_places hplace)]
  exact p.type.framed (hv p hp) (hw p hp).result

/-- `find?` finds each field that `walk` came to. -/
theorem find?_of_mem_walk {layout : Layout} {ctx : Context} {fields : List Value} {slot : Nat}
    (htags : layout.distinctTags) {p : Place} (hp : p ∈ layout.walk ctx fields slot) :
    FieldIndex.find? ((layout.walk ctx fields slot).map (·.raw ctx fields)) p.about.tag =
      some (p.raw ctx fields) := by
  have hnodup : (((layout.walk ctx fields slot).map (·.raw ctx fields)).map RawField.tag).Nodup := by
    rw [List.map_map]
    exact nodup_tags_walk htags ctx fields slot
  exact find?_key_of_mem hnodup (List.mem_map_of_mem hp)

/-- `find?` finds no field that `walk` did not come to. -/
theorem find?_of_not_mem_walk {layout : Layout} {ctx : Context} {fields : List Value} {slot : Nat}
    (htags : layout.distinctTags) {p : Place} (hp : p ∈ layout.places slot)
    (hw : p ∉ layout.walk ctx fields slot) :
    FieldIndex.find? ((layout.walk ctx fields slot).map (·.raw ctx fields)) p.about.tag = none := by
  rw [FieldIndex.find?, List.find?_eq_none]
  intro f hf htag
  obtain ⟨q, hq, rfl⟩ := List.mem_map.1 hf
  have hplace := (walk_sublist ctx fields layout slot).subset hq
  -- Only one field has this tag, so the walk would have come to it.
  have heq : q = p := List.inj_on_of_nodup_map (nodup_tags_places htags slot) hplace hp
    (by simpa [Place.raw] using htag)
  exact hw (heq ▸ hq)

end Layout

end Storefront
