import Storefront.Proofs.Schema.Delivered

/-! # Values there and back

What was written for a value reads back as that value, and reading ends right behind it.

* `isPlain`           the types whose values read back whatever was negotiated
* `bodyReads`         a value of such a type reads back without a length of its own
* `roundTrips`        and as it stands among other values
-/

namespace Storefront

/-! ## Reading back -/

namespace ValueType

/-- A body is read as a value.  What is laid out as `len` takes all that is left. -/
def BodyReads (type : ValueType) (about : FieldMeta) (receiver : Context) (old : Value)
    (body : Bytes) (got : Value) : Prop :=
  ∀ p rest, (type.wireType = .len → rest = []) →
    type.decodeBody about receiver old ⟨p, body ++ rest⟩ = ⟨got, ⟨p + body.length, rest⟩, .ok ()⟩

/-- Octets are read as a value, whatever follows them. -/
def Reads (type : ValueType) (about : FieldMeta) (receiver : Context) (old : Value)
    (octets : Bytes) (got : Value) : Prop :=
  ∀ p rest,
    type.decode about receiver old ⟨p, octets ++ rest⟩ = ⟨got, ⟨p + octets.length, rest⟩, .ok ()⟩

/-- Whatever a sender can write of the type arrives at a receiver that reads it into `old`. -/
def RoundTrips (type : ValueType) (about : FieldMeta) (sender receiver : Context) (old : Value) :
    Prop :=
  ∀ v, type.holds v → (type.encode about sender v).result = .ok () →
    ∃ got, v.Arrives got ∧ type.Reads about receiver old (type.encode about sender v).bytes got

variable {type : ValueType} {about : FieldMeta} {sender receiver : Context} {v old got : Value}

/-- `BodyReads` is `Reads`, behind a length or without. -/
theorem reads_of_bodyReads (h : (type.encode about sender v).result = .ok ())
    (hbody : type.BodyReads about receiver old (type.encodeBody about sender v).bytes got) :
    type.Reads about receiver old (type.encode about sender v).bytes got := by
  intro p rest
  obtain ⟨-, hlen, hbytes⟩ := encode_ok h
  unfold decode
  rw [hbytes]
  cases hw : type.wireType with
  | len =>
    -- Behind a length the body is cut to its octets, so nothing is behind it.
    have hstart := hbody 0 [] fun _ => rfl
    rw [List.append_nil] at hstart
    simp only [RawField.valueOctets, decodeEnclosed,
      Cursor.lenPrefixed_append (hlen hw) (checkBound_none about.tag _), Cursor.start, hstart]
  | varint => exact hbody p rest (by simp [hw])
  | stream => exact hbody p rest (by simp [hw])

/-- `decodeBody` finds what `RoundTrips` in a field that has been cut to its octets. -/
theorem RoundTrips.decodeBody (h : type.RoundTrips about sender receiver old) (hv : type.holds v)
    (hok : (type.encode about sender v).result = .ok ()) :
    ∃ got c, v.Arrives got ∧
      type.decodeBody about receiver old (Cursor.start (type.encodeBody about sender v).bytes) =
        ⟨got, c, .ok ()⟩ := by
  obtain ⟨got, harrives, hreads⟩ := h v hv hok
  have hstart := hreads 0 []
  obtain ⟨-, hlen, hbytes⟩ := encode_ok hok
  unfold decode at hstart
  rw [hbytes] at hstart
  -- A field that was cut holds what stands behind the length, or else the whole value.
  cases hw : type.wireType with
  | len =>
    simp only [hw, RawField.valueOctets, decodeEnclosed,
      Cursor.lenPrefixed_append (hlen hw) (checkBound_none about.tag _), Decoded.mk.injEq] at hstart
    refine ⟨got, (type.decodeBody about receiver old
      (Cursor.start (type.encodeBody about sender v).bytes)).cursor, harrives, ?_⟩
    rw [← hstart.1, ← hstart.2.2]
  | varint =>
    simp only [hw, RawField.valueOctets, decodeEnclosed, List.append_nil] at hstart
    exact ⟨got, _, harrives, hstart⟩
  | stream =>
    simp only [hw, RawField.valueOctets, decodeEnclosed, List.append_nil] at hstart
    exact ⟨got, _, harrives, hstart⟩

/-- `encode` makes an octet at least. -/
theorem encode_bytes_ne_nil (hv : type.holds v) (h : (type.encode about sender v).result = .ok ()) :
    (type.encode about sender v).bytes ≠ [] := by
  obtain ⟨hbody, -, hbytes⟩ := encode_ok h
  rw [hbytes]
  cases hw : type.wireType with
  | len => simp [RawField.valueOctets, Wire.lenPrefixed, Varint.encode_ne_nil]
  | varint =>
    obtain ⟨n, -, hn, -⟩ := type.numeral hw hv hbody
    simp [RawField.valueOctets, hn, Varint.encode_ne_nil]
  | stream =>
    cases type <;> simp [wireType] at hw
    obtain ⟨field, chunks, rfl, hdrains, -, hsent⟩ := streamed (inRange_of_holds hv) hbody
    simp [RawField.valueOctets, hsent, hdrains.bytes, Wire.streamStart, Varint.encode_ne_nil]

end ValueType

/-! ## Collections and pairs -/

/-- What stands in the place of a pair, component by component. -/
def Value.components (a b : ValueType) : Value → Value × Value
  | pair first second => (first, second)
  | _ => (a.initial, b.initial)

namespace Encoded

variable {α β : Type}

/-- `both` that succeeds has the second part behind the first. -/
theorem both_ok {x : Encoded α} {second : β} {y : Unit → Encoded β}
    (h : (x.both second y).result = .ok ()) :
    x.result = .ok () ∧ (y ()).result = .ok () ∧
      (x.both second y).bytes = x.bytes ++ (y ()).bytes := by
  cases hx : x.result with
  | error e => simp [both, hx] at h
  | ok u =>
    simp only [both, hx] at h
    exact ⟨rfl, h, by simp only [both, hx]⟩

/-- `all` that succeeds has the elements one after the other. -/
theorem all_ok {f : α → Encoded α} {vs : List α} (h : (all f vs).result = .ok ()) :
    (∀ v ∈ vs, (f v).result = .ok ()) ∧ (all f vs).bytes = vs.flatMap fun v => (f v).bytes := by
  induction vs with
  | nil => simp [all, ok]
  | cons v vs ih =>
    have h : ((f v).both vs fun _ => all f vs).result = .ok () := h
    obtain ⟨hv, hvs, hbytes⟩ := both_ok h
    obtain ⟨hall, hrest⟩ := ih hvs
    refine ⟨?_, ?_⟩
    · intro w hw
      rcases List.mem_cons.1 hw with rfl | hw
      · exact hv
      · exact hall w hw
    · rw [List.flatMap_cons, ← hrest, ← hbytes]
      rfl

end Encoded

/-- `all` reads in a row what reads back one by one. -/
theorem Decoded.all_append {f : Cursor → Decoded Value} {octets : Value → Bytes} {vs : List Value}
    (h : ∀ v ∈ vs, ∃ got, v.Arrives got ∧
      ∀ p rest, f ⟨p, octets v ++ rest⟩ = ⟨got, ⟨p + (octets v).length, rest⟩, .ok ()⟩) :
    ∃ gots, List.Forall₂ Value.Arrives vs gots ∧ ∀ done p rest,
      Decoded.all f vs.length done ⟨p, vs.flatMap octets ++ rest⟩ =
        ⟨done.reverse ++ gots, ⟨p + (vs.flatMap octets).length, rest⟩, .ok ()⟩ := by
  -- Each element stops where the next one begins.
  induction vs with
  | nil => exact ⟨[], .nil, fun done p rest => by simp [Decoded.all]⟩
  | cons v vs ih =>
    obtain ⟨got, harrives, hread⟩ := h v List.mem_cons_self
    obtain ⟨gots, hgots, hall⟩ := ih fun w hw => h w (List.mem_cons_of_mem _ hw)
    refine ⟨got :: gots, .cons harrives hgots, fun done p rest => ?_⟩
    simp only [List.length_cons, Decoded.all, List.flatMap_cons, List.append_assoc, hread, hall,
      List.reverse_cons, List.singleton_append, List.length_append, Nat.add_assoc]

/-! ## Types whose values read back -/

mutual

/-- True for the types whose values mean the same whatever has been negotiated: a record has no
group and no hook, and its tags are different ones.  A stream needs room for a chunk. -/
def ValueType.isPlain : ValueType → Bool
  | .list element => element.isPlain
  | .pair a b => a.isPlain && b.isPlain
  | .record _ layout hook => hook.isNone && decide layout.distinctTags && layout.isPlain
  | _ => true

/-- True when a layout has no group and its fields are of plain types. -/
def Layout.isPlain : Layout → Bool
  | .nil => true
  | .field about type _ rest => decide (1 ≤ about.chunkSize) && type.isPlain && rest.isPlain
  | .group .. => false

end

namespace Layout

/-- `walk` over a plain record comes to all its `places`. -/
theorem walk_of_isPlain (ctx : Context) (shown : List Value) : (layout : Layout) → layout.isPlain →
    ∀ slot, layout.walk ctx shown slot = layout.places slot
  | nil, _, _ => rfl
  | field about type initial rest, h, slot => by
    simp only [isPlain, Bool.and_eq_true] at h
    rw [walk, places, rest.walk_of_isPlain ctx shown h.2]
  | group .., h, _ => by simp [isPlain] at h

/-- A plain layout is `Settled`, as it has no guards. -/
theorem settled_of_isPlain (like : Likeness) : (layout : Layout) → layout.isPlain →
    ∀ outer known slot, layout.Settled like outer known slot
  | nil, _, _, _, _ => trivial
  | field about type initial rest, h, outer, known, slot => by
    simp only [isPlain, Bool.and_eq_true] at h
    exact rest.settled_of_isPlain like h.2 _ _ _
  | group .., h, _, _, _ => by simp [isPlain] at h

/-- `fieldsOf` has as many values as the layout has places. -/
theorem length_fieldsOf (layout : Layout) (old : Value) :
    (layout.fieldsOf old).length = layout.size := by
  unfold fieldsOf
  split
  · assumption
  · exact layout.length_initials

/-- A plain record `BodyReads` when the values of its fields do. -/
theorem bodyReads_record {layout : Layout} (name : String) (about : FieldMeta)
    {sender receiver : Context} {sent : List Value} (hplain : layout.isPlain)
    (htags : layout.distinctTags) (hlength : sent.length = layout.size) (hv : layout.holds 0 sent)
    (h : (layout.encode sender sent 0 sent).result = .ok ())
    (hfields : ∀ p ∈ layout.places 0, p.Written sender sent → ∀ old,
      p.Recovers sender receiver sent old) (old : Value) :
    ∃ got, List.Forall₂ Value.Arrives sent got ∧
      (ValueType.record name layout none).BodyReads about receiver old
        (layout.encode sender sent 0 sent).bytes (.record got) := by
  obtain ⟨hbytes, hwritten⟩ := layout.encode_ok (fun _ _ => rfl) h
  have hindex := FieldIndex.ofBody_flatMap (framed_walk htags (inRange_of_mem_walk hv) hwritten) (by
    rw [List.map_map]
    exact nodup_tags_walk htags sender sent 0)
  rw [← hbytes] at hindex
  have hwalk := walk_of_isPlain sender sent layout hplain 0
  have hoffers : Offers sender receiver sent (fun _ => True)
      ((layout.walk sender sent 0).map (·.raw sender sent)) (layout.places 0)
      (layout.fieldsOf old) := by
    constructor
    case found =>
      intro p hp _
      have hp' : p ∈ layout.walk sender sent 0 := hwalk ▸ hp
      have hslot : p.slot < (layout.fieldsOf old).length := by
        have := (slot_of_mem_places hp).2
        rw [length_fieldsOf]
        omega
      exact ⟨find?_of_mem_walk htags hp', _, List.getElem?_eq_getElem hslot,
        hfields p hp (hwritten p hp') _⟩
    case missing => exact fun _ _ hn => absurd trivial hn
  -- All fields stand in the body, and the receiver comes to all of them.
  obtain ⟨got, hdecode, hfills⟩ : ∃ got,
      layout.decode receiver ((layout.walk sender sent 0).map (·.raw sender sent)) 0
        (layout.fieldsOf old) = (got, .ok ()) ∧
      layout.Fills receiver sent (fun _ => True) 0 (layout.fieldsOf old) got :=
    layout.decode_fills
      ⟨hv, settled_of_isPlain _ layout hplain false [] 0, hoffers, nofun, nofun, nofun⟩
  have hlength' : got.length = layout.size := by rw [hfills.length, length_fieldsOf]
  refine ⟨got, forall₂_of_getElem? (by omega) ?_, ?_⟩
  · intro i v w hv' hw
    have hi : i < sent.length := (List.getElem?_eq_some_iff.1 hv').1
    obtain ⟨p, hp, rfl⟩ := exists_place (Nat.zero_le i) (by omega : i < 0 + layout.size)
    obtain ⟨w', hw', harrives⟩ := hfills.arrived p
      (by rw [walk_of_isPlain receiver sent layout hplain]; exact hp) trivial
    obtain rfl : w' = w := by simpa [hw'] using hw
    simpa [Place.value, hv'] using harrives
  · intro p rest hrest
    obtain rfl := hrest rfl
    simp only [List.append_nil, ValueType.decodeBody, hindex, hdecode, Cursor.remaining]

end Layout

/-- `flatMap` is no shorter than the list, where every element takes an octet at least. -/
theorem length_le_length_flatMap {α : Type} {f : α → Bytes} {vs : List α}
    (h : ∀ v ∈ vs, f v ≠ []) : vs.length ≤ (vs.flatMap f).length := by
  induction vs with
  | nil => exact Nat.le_refl _
  | cons v vs ih =>
    have hv := List.length_pos_iff.2 (h v List.mem_cons_self)
    have hvs := ih fun w hw => h w (List.mem_cons_of_mem _ hw)
    rw [List.flatMap_cons, List.length_cons, List.length_append]
    omega

namespace ValueType

variable {about : FieldMeta} {sender receiver : Context}

/-- `decodeBody` of a list is `all`, as many elements as its count says, if that is believed. -/
theorem decodeBody_list (element : ValueType) (about : FieldMeta) (ctx : Context) (old : Value)
    (c : Cursor) :
    (list element).decodeBody about ctx old c =
      match Cursor.varint c with
      | .error e c' => ⟨old, c', .error (.wire e)⟩
      | .ok count c' =>
        match checkBound about.tag count about.maxSize with
        | .error e => ⟨old, c', .error (.wire e)⟩
        | .ok () =>
          if c'.rest.hasAtLeast count then
            let x := Decoded.all (element.decode about.element ctx element.initial) count [] c'
            ⟨.list x.value, x.cursor, x.result⟩
          else ⟨old, c', .error (.wire (.truncated count c'.remaining))⟩ := by
  simp only [decodeBody]
  rfl

/-- A list `BodyReads` when its elements read back. -/
theorem bodyReads_list {element : ValueType} {items : List Value}
    (hv : ∀ v ∈ items, element.holds v)
    (h : ((list element).encode about sender (.list items)).result = .ok ())
    (hitems : ∀ v ∈ items, (element.encode about.element sender v).result = .ok () →
      ∃ got, v.Arrives got ∧ element.Reads about.element receiver element.initial
        (element.encode about.element sender v).bytes got) (old : Value) :
    ∃ got, (Value.list items).Arrives got ∧ (list element).BodyReads about receiver old
      ((list element).encodeBody about sender (.list items)).bytes got := by
  obtain ⟨hbody, hlen, -⟩ := encode_ok h
  have hlen := hlen rfl
  cases hb : checkBound about.tag items.length about.maxSize with
  | error e => simp [encodeBody, hb, Encoded.error] at hbody
  | ok u =>
    have hall : (Encoded.all (element.encode about.element sender) items).result = .ok () := by
      simp only [encodeBody, hb] at hbody
      exact hbody
    obtain ⟨hwritten, hbytes⟩ := Encoded.all_ok hall
    have hoctets : ((list element).encodeBody about sender (.list items)).bytes =
        Varint.encode items.length ++
          items.flatMap fun v => (element.encode about.element sender v).bytes := by
      rw [← hbytes]
      simp only [encodeBody, hb]
      rfl
    -- The count is no larger than what follows it, so it fits and is believed.
    have hcount : items.length ≤
        (items.flatMap fun v => (element.encode about.element sender v).bytes).length :=
      length_le_length_flatMap fun v hm => encode_bytes_ne_nil (hv v hm) (hwritten v hm)
    rw [hoctets, List.length_append] at hlen
    obtain ⟨gots, harrive, hread⟩ := Decoded.all_append fun v hm => hitems v hm (hwritten v hm)
    refine ⟨.list gots, .list harrive, fun p rest hrest => ?_⟩
    obtain rfl := hrest rfl
    have hread := hread [] (p + (Varint.encode items.length).length) []
    have hlimit : items.length < Varint.limit := by omega
    have henough := Bytes.hasAtLeast_iff.2 hcount
    rw [List.append_nil] at hread
    simp only [hoctets, List.append_nil, decodeBody_list, Cursor.varint_append hlimit, hb, henough,
      if_true, hread, List.reverse_nil, List.nil_append, List.length_append, Nat.add_assoc]

/-- `decodeBody` of a pair reads into the `components` that stand in its place, or else into
new ones. -/
theorem decodeBody_pair (a b : ValueType) (about : FieldMeta) (ctx : Context) (old : Value)
    (c : Cursor) :
    (pair a b).decodeBody about ctx old c =
      let x := a.decode about.element ctx (old.components a b).1 c
      match x.result with
      | .error e => ⟨.pair x.value (old.components a b).2, x.cursor, .error e⟩
      | .ok () =>
        let y := b.decode about.element ctx (old.components a b).2 x.cursor
        ⟨.pair x.value y.value, y.cursor, y.result⟩ := by
  cases old <;> simp only [decodeBody] <;> rfl

/-- A pair `BodyReads` when both its components read back. -/
theorem bodyReads_pair {a b : ValueType} {x y : Value}
    (h : ((pair a b).encode about sender (.pair x y)).result = .ok ())
    (hx : (a.encode about.element sender x).result = .ok () → ∀ old, ∃ got, x.Arrives got ∧
      a.Reads about.element receiver old (a.encode about.element sender x).bytes got)
    (hy : (b.encode about.element sender y).result = .ok () → ∀ old, ∃ got, y.Arrives got ∧
      b.Reads about.element receiver old (b.encode about.element sender y).bytes got)
    (old : Value) :
    ∃ got, (Value.pair x y).Arrives got ∧ (pair a b).BodyReads about receiver old
      ((pair a b).encodeBody about sender (.pair x y)).bytes got := by
  obtain ⟨hbody, -, -⟩ := encode_ok h
  have hboth : ((a.encode about.element sender x).both y fun _ =>
      b.encode about.element sender y).result = .ok () := hbody
  obtain ⟨hax, hby, hbytes⟩ := Encoded.both_ok hboth
  have hoctets : ((pair a b).encodeBody about sender (.pair x y)).bytes =
      (a.encode about.element sender x).bytes ++ (b.encode about.element sender y).bytes := hbytes
  obtain ⟨x', harrives, hread⟩ := hx hax (old.components a b).1
  obtain ⟨y', harrives', hread'⟩ := hy hby (old.components a b).2
  refine ⟨.pair x' y', .pair harrives harrives', fun p rest hrest => ?_⟩
  rw [hoctets, List.append_assoc, decodeBody_pair, hread]
  simp only
  rw [hread', List.length_append, Nat.add_assoc]

end ValueType

namespace ValueType

variable {about : FieldMeta} {sender receiver : Context} {v : Value}

/-- A value without parts `BodyReads`. -/
theorem bodyReads_leaf {type : ValueType}
    (hleaf : type.wireType = .varint ∨ type.wireType = .len ∧ type.byteBounded)
    (hv : type.holds v) (h : (type.encode about sender v).result = .ok ()) (old : Value) :
    ∃ got, v.Arrives got ∧
      type.BodyReads about receiver old (type.encodeBody about sender v).bytes got := by
  obtain ⟨hbody, -, -⟩ := encode_ok h
  refine ⟨v, ?_, fun p rest hrest => ?_⟩
  · cases type <;> simp [wireType, byteBounded] at hleaf <;> cases v <;> simp [holds] at hv <;>
      constructor
  · -- A number ends by itself; octets are all that is there.
    rcases hleaf with hw | ⟨hw, hbounded⟩
    · obtain ⟨n, -, hbytes, hread⟩ := type.numeral hw hv hbody
      rw [hbytes]
      exact hread receiver old p rest
    · obtain ⟨bs, hbytes, -, hread⟩ := type.octets hw hbounded hbody
      obtain rfl := hrest hw
      rw [hbytes, List.append_nil]
      exact hread receiver old p

/-- `decodeBody` of a stream is `receive`, into the field that stands in its place, or else into a
new one. -/
theorem decodeBody_stream (about : FieldMeta) (ctx : Context) (old : Value) :
    ∃ field : StreamField, ∀ c, stream.decodeBody about ctx old c =
      ⟨.stream (field.receive about c).field, (field.receive about c).cursor,
        (field.receive about c).result.mapError .wire⟩ := by
  cases old with
  | stream field => exact ⟨field, fun c => by simp only [decodeBody]⟩
  | _ => exact ⟨{}, fun c => by simp only [decodeBody]⟩

/-- A stream `BodyReads` as what its source yielded. -/
theorem bodyReads_stream (hchunk : 1 ≤ about.chunkSize) (hv : stream.holds v)
    (h : (stream.encode about sender v).result = .ok ()) (old : Value) :
    ∃ got, v.Arrives got ∧
      stream.BodyReads about receiver old (stream.encodeBody about sender v).bytes got := by
  obtain ⟨hbody, -, -⟩ := encode_ok h
  obtain ⟨field, chunks, rfl, hdrains, hd, hbytes⟩ := streamed (inRange_of_holds hv) hbody
  obtain ⟨place, hdecode⟩ := decodeBody_stream about receiver old
  obtain ⟨got, reports, harrives, hreceive⟩ :=
    StreamField.receive_drained hdrains hchunk hd place
  refine ⟨.stream got, .stream harrives, fun p rest _ => ?_⟩
  rw [hbytes, hdecode, hreceive]
  rfl

end ValueType

mutual

/-- A value of a plain type `BodyReads`. -/
theorem ValueType.bodyReads : (type : ValueType) → type.isPlain → ∀ (about : FieldMeta),
    1 ≤ about.chunkSize → ∀ {sender receiver : Context} {v : Value}, type.holds v →
    (type.encode about sender v).result = .ok () → ∀ old, ∃ got, v.Arrives got ∧
      type.BodyReads about receiver old (type.encodeBody about sender v).bytes got
  | .list element, hplain, about, hchunk, sender, receiver, v, hv, h, old => by
    cases v <;> simp [ValueType.holds] at hv
    case list items =>
      -- Elements are read into new values, components into those that stand in their place.
      refine ValueType.bodyReads_list hv h (fun v hm hok => ?_) old
      obtain ⟨got, harrives, hbody⟩ :=
        element.bodyReads hplain about.element hchunk (hv v hm) hok element.initial
      exact ⟨got, harrives, ValueType.reads_of_bodyReads hok hbody⟩
  | .pair a b, hplain, about, hchunk, sender, receiver, v, hv, h, old => by
    simp only [ValueType.isPlain, Bool.and_eq_true] at hplain
    cases v <;> simp [ValueType.holds] at hv
    case pair x y =>
      refine ValueType.bodyReads_pair h (fun hok old => ?_) (fun hok old => ?_) old
      · obtain ⟨got, harrives, hbody⟩ :=
          a.bodyReads hplain.1 about.element hchunk hv.1 hok old
        exact ⟨got, harrives, ValueType.reads_of_bodyReads hok hbody⟩
      · obtain ⟨got, harrives, hbody⟩ :=
          b.bodyReads hplain.2 about.element hchunk hv.2 hok old
        exact ⟨got, harrives, ValueType.reads_of_bodyReads hok hbody⟩
  | .record name layout hook, hplain, about, _, sender, receiver, v, hv, h, old => by
    simp only [ValueType.isPlain, Bool.and_eq_true, decide_eq_true_eq, Option.isNone_iff_eq_none]
      at hplain
    obtain ⟨⟨rfl, htags⟩, hlayout⟩ := hplain
    cases v <;> simp [ValueType.holds] at hv
    case record fields =>
      obtain ⟨hbody, -, -⟩ := ValueType.encode_ok h
      have hencode : (layout.encode sender fields 0 fields).result = .ok () := by
        simp only [ValueType.encodeBody, hv.1, if_true] at hbody
        exact hbody
      have hbytes : ((ValueType.record name layout none).encodeBody about sender
          (.record fields)).bytes = (layout.encode sender fields 0 fields).bytes := by
        simp only [ValueType.encodeBody, hv.1, if_true, Encoded.map]
      -- The types of the fields are parts of this one, so their values come back by induction.
      obtain ⟨got, harrive, hreads⟩ := Layout.bodyReads_record name about hlayout htags hv.1 hv.2
        hencode (fun p hp hw old => layout.recovers hlayout hv.2 p hp hw old) old
      exact ⟨.record got, .record harrive, hbytes ▸ hreads⟩
  | .stream, _, about, hchunk, sender, receiver, v, hv, h, old =>
    ValueType.bodyReads_stream hchunk hv h old
  | .unsigned _, _, _, _, _, _, _, hv, h, old | .status, _, _, _, _, _, _, hv, h, old
  | .choice _, _, _, _, _, _, _, hv, h, old | .options, _, _, _, _, _, _, hv, h, old
  | .signed, _, _, _, _, _, _, hv, h, old | .flag, _, _, _, _, _, _, hv, h, old =>
    ValueType.bodyReads_leaf (.inl rfl) hv h old
  | .text, _, _, _, _, _, _, hv, h, old | .secret, _, _, _, _, _, _, hv, h, old
  | .blob, _, _, _, _, _, _, hv, h, old =>
    ValueType.bodyReads_leaf (.inr ⟨rfl, rfl⟩) hv h old

/-- A value in a plain record `Recovers` from what was written for its place. -/
theorem Layout.recovers : (layout : Layout) → layout.isPlain → ∀ {slot : Nat}
    {sender receiver : Context} {sent : List Value}, layout.holds slot sent →
    ∀ p ∈ layout.places slot, p.Written sender sent → ∀ old, p.Recovers sender receiver sent old
  | .nil, _, _, _, _, _, _, p, hp, _, _ => by simp [Layout.places] at hp
  | .field about type initial rest, hplain, slot, sender, receiver, sent, hv, p, hp, hw, old => by
    simp only [Layout.isPlain, Bool.and_eq_true, decide_eq_true_eq] at hplain
    obtain ⟨⟨hchunk, htype⟩, hrest⟩ := hplain
    have hvalue := (Layout.holds_of_mem_places hv p hp).2
    rcases List.mem_cons.1 hp with rfl | hp
    · obtain ⟨got, harrives, hbody⟩ := type.bodyReads htype about hchunk hvalue hw.result old
      -- A field is indexed with its own octets, so nothing is behind them.
      have hstart := hbody 0 [] fun _ => rfl
      rw [List.append_nil] at hstart
      exact ⟨got, _, harrives, hstart⟩
    · exact rest.recovers hrest (Layout.holds_field hv).2 p hp hw old
  | .group .., hplain, _, _, _, _, _, _, _, _, _ => by simp [Layout.isPlain] at hplain

end

/-- A plain type `RoundTrips`, at any place and with anything behind it. -/
theorem ValueType.roundTrips {type : ValueType} (hplain : type.isPlain) {about : FieldMeta}
    (hchunk : 1 ≤ about.chunkSize) (sender receiver : Context) (old : Value) :
    type.RoundTrips about sender receiver old := by
  intro v hv h
  obtain ⟨got, harrives, hbody⟩ := type.bodyReads hplain about hchunk hv h old
  exact ⟨got, harrives, reads_of_bodyReads h hbody⟩

end Storefront
