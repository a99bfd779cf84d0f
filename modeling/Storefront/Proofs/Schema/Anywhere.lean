import Storefront.Proofs.Schema.RoundTrip
import Storefront.Proofs.Wire.Spans

/-! # Values wherever they stand

What a value is read as depends on its octets alone: not on where these stand, and not on what is
behind them.  Reads are compared up to their faults, which tell of places (`Agree`), and those of
single elements up to what they leave (`AgreeUpTo`).

* `decode_of_skip`     a value that can be passed over, somewhere else
* `decode_anywhere`    the same octets, somewhere else
* `decode_of_measures` a value behind its length
-/

namespace Storefront

/-- Two reads come to the same: both succeed with the same value, or both fail. -/
def Decoded.Agree {α : Type} (x y : Decoded α) : Prop :=
  (x.result = .ok () ↔ y.result = .ok ()) ∧ (x.result = .ok () → x.value = y.value)

/-- Two reads come to the same and, if they succeed, leave just what was behind their values. -/
def Decoded.AgreeUpTo {α : Type} (x y : Decoded α) (rest rest' : Bytes) : Prop :=
  x.Agree y ∧ (x.result = .ok () → x.cursor.rest = rest ∧ y.cursor.rest = rest')

theorem Decoded.Agree.refl {α : Type} (x : Decoded α) : x.Agree x := ⟨Iff.rfl, fun _ => rfl⟩

theorem Decoded.Agree.symm {α : Type} {x y : Decoded α} (h : x.Agree y) : y.Agree x :=
  ⟨h.1.symm, fun hy => (h.2 (h.1.2 hy)).symm⟩

theorem Decoded.Agree.trans {α : Type} {x y z : Decoded α} (h : x.Agree y) (h' : y.Agree z) :
    x.Agree z :=
  ⟨h.1.trans h'.1, fun hx => (h.2 hx).trans (h'.2 (h.1.1 hx))⟩

/-- Reads that both fail `Agree`. -/
theorem Decoded.Agree.of_failed {α : Type} {x y : Decoded α} (hx : x.result ≠ .ok ())
    (hy : y.result ≠ .ok ()) : x.Agree y :=
  ⟨⟨fun h => absurd h hx, fun h => absurd h hy⟩, fun h => absurd h hx⟩

/-- Of two results that succeed together, both are errors or both are `ok`. -/
theorem failed_or_ok {ε ε' : Type} {x : Except ε Unit} {y : Except ε' Unit}
    (h : x = .ok () ↔ y = .ok ()) :
    (∃ e e', x = .error e ∧ y = .error e') ∨ (x = .ok () ∧ y = .ok ()) := by
  cases x with
  | ok u => exact .inr ⟨rfl, h.1 rfl⟩
  | error e =>
    cases y with
    | ok u => cases h.2 rfl
    | error e' => exact .inl ⟨e, e', rfl, rfl⟩

/-- `collect` depends on the octets that `skipChunks` passes over, not on where they stand. -/
theorem StreamField.collect_of_skip (m : FieldMeta) {c c' : Cursor}
    (h : c.skipChunks = .ok () c') (received : Nat) (done : List Bytes) :
    ∃ (arrived : Arrived) (ending : Except WireError Unit), ∀ p rest, ∃ p',
      collect m received done ⟨p, c.rest ++ rest⟩ =
        (arrived, ending.map fun _ => ⟨p', c'.rest ++ rest⟩) := by
  -- The chunks are those of the walk that passes over them; bounds are checked along the way.
  fun_induction Cursor.skipChunks c generalizing received done with
  | case1 => simp at h
  | case2 c c₁ hc =>
    simp only [EStateM.Result.ok.injEq, true_and] at h
    subst h
    refine ⟨⟨done.reverse, received⟩, .ok (), fun p rest => ?_⟩
    obtain ⟨p', hp⟩ := Cursor.extends_chunk hc p rest
    exact ⟨p', collect_of_none hp⟩
  | case3 c bs c₁ hc ih =>
    cases hchunk : checkBound m.tag bs.length (some m.chunkSize) with
    | error e =>
      refine ⟨⟨done.reverse, received⟩, .error e, fun p rest => ⟨0, ?_⟩⟩
      obtain ⟨p', hp⟩ := Cursor.extends_chunk hc p rest
      rw [collect]
      split <;> simp_all [Except.map]
    | ok u =>
      cases hmax : checkBound m.tag (received + bs.length) m.maxSize with
      | error e =>
        refine ⟨⟨done.reverse, received + bs.length⟩, .error e, fun p rest => ⟨0, ?_⟩⟩
        obtain ⟨p', hp⟩ := Cursor.extends_chunk hc p rest
        rw [collect]
        split <;> simp_all [Except.map]
      | ok u =>
        obtain ⟨arrived, ending, hall⟩ := ih h (received + bs.length) (bs :: done)
        refine ⟨arrived, ending, fun p rest => ?_⟩
        obtain ⟨p₁, hp⟩ := Cursor.extends_chunk hc p rest
        obtain ⟨p', hrest⟩ := hall p₁ rest
        exact ⟨p', by rw [collect_of_some hp hchunk hmax, hrest]⟩

/-- `receive` depends on the octets that `skipValue` passes over, not on where they stand. -/
theorem StreamField.receive_of_skip (m : FieldMeta) (old : StreamField) {q : Nat}
    {octets left : Bytes} (h : Cursor.skipValue .stream (Cursor.start octets) = .ok () ⟨q, left⟩) :
    ∃ got result, ∀ p rest, (old.receive m ⟨p, octets ++ rest⟩).field = got ∧
      (old.receive m ⟨p, octets ++ rest⟩).result = result ∧
      (result = .ok () → (old.receive m ⟨p, octets ++ rest⟩).cursor.rest = left ++ rest) := by
  cases hs : Cursor.streamStart (Cursor.start octets) with
  | error e c => simp [Cursor.skipValue, hs] at h
  | ok declared c₁ =>
    cases hk : c₁.skipChunks with
    | error e c => simp [Cursor.skipValue, hs, hk] at h
    | ok u c₂ =>
      obtain rfl : c₂ = ⟨q, left⟩ := by
        simpa only [Cursor.skipValue, hs, hk, EStateM.Result.ok.injEq, true_and] using h
      -- The chunks are collected in one way, so the field is received in one of three.
      obtain ⟨arrived, ending, hcollect⟩ := collect_of_skip m hk 0 []
      cases hb : declared.elim (.ok ()) (checkBound m.tag · m.maxSize) with
      | error e =>
        refine ⟨⟨old.source, declared, [], 0, 0, false⟩, .error e, fun p rest => ?_⟩
        obtain ⟨p₁, hstart⟩ := Cursor.extends_streamStart hs p rest
        simp [receive, hstart, hb]
      | ok u =>
        cases ending with
        | error e =>
          refine ⟨⟨old.source, declared, arrived.chunks.flatten, arrived.received,
            arrived.chunks.length, false⟩, .error e, fun p rest => ?_⟩
          obtain ⟨p₁, hstart⟩ := Cursor.extends_streamStart hs p rest
          obtain ⟨p₂, hchunks⟩ := hcollect p₁ rest
          simp [receive, hstart, hb, hchunks, Except.map]
        | ok u =>
          refine ⟨⟨old.source, declared, arrived.chunks.flatten, arrived.received,
            arrived.chunks.length, (verdict m.tag declared arrived.received).isOk⟩,
            verdict m.tag declared arrived.received, fun p rest => ?_⟩
          obtain ⟨p₁, hstart⟩ := Cursor.extends_streamStart hs p rest
          obtain ⟨p₂, hchunks⟩ := hcollect p₁ rest
          simp [receive, hstart, hb, hchunks, Except.map]

/-- `skipValue` passes over a stream that `receive` can read. -/
theorem StreamField.skip_of_receive {m : FieldMeta} {old : StreamField} {c : Cursor}
    (h : (old.receive m c).result = .ok ()) : ∃ c', Cursor.skipValue .stream c = .ok () c' := by
  -- Passing over chunks checks nothing that collecting them does not check.
  have hchunks : ∀ received done c ending, (collect m received done c).2 = .ok ending →
      ∃ c', c.skipChunks = .ok () c' := by
    intro received done c ending h
    fun_induction collect m received done c with
    | case1 | case3 | case4 => simp at h
    | case2 received done c c' hc => exact ⟨c', Cursor.skipChunks_of_none hc⟩
    | case5 received done c bs c' hc _ received' _ ih =>
      rw [Cursor.skipChunks_of_some hc]
      exact ih h
  cases hs : Cursor.streamStart c with
  | error e c₁ => simp [receive, hs] at h
  | ok declared c₁ =>
    cases hb : declared.elim (.ok ()) (checkBound m.tag · m.maxSize) with
    | error e => simp [receive, hs, hb] at h
    | ok u =>
      cases hx : (collect m 0 [] c₁).2 with
      | error e => simp [receive, hs, hb, hx] at h
      | ok ending =>
        obtain ⟨c₂, hk⟩ := hchunks 0 [] c₁ ending hx
        exact ⟨c₂, by simp only [Cursor.skipValue, hs, hk]⟩

namespace ValueType

/-- `decodeBody` of a type with wire type `varint` is `decodeNumber`. -/
theorem decodeBody_of_varint {type : ValueType} (hw : type.wireType = .varint) (about : FieldMeta)
    (ctx : Context) (old : Value) :
    ∃ f, ∀ c, type.decodeBody about ctx old c = decodeNumber about f old c := by
  cases type <;> simp [wireType] at hw <;> exact ⟨_, fun _ => rfl⟩

/-- `decode` depends on the octets that `skipValue` passes over, not on where they stand. -/
theorem decode_of_skip {type : ValueType} {q : Nat} {octets left : Bytes}
    (h : Cursor.skipValue type.wireType (Cursor.start octets) = .ok () ⟨q, left⟩)
    (about : FieldMeta) (ctx : Context) (old : Value) (p p' : Nat) (rest rest' : Bytes) :
    (type.decode about ctx old ⟨p, octets ++ rest⟩).AgreeUpTo
      (type.decode about ctx old ⟨p', octets ++ rest'⟩) (left ++ rest) (left ++ rest') := by
  unfold decode
  cases hw : type.wireType with
  | varint =>
    obtain ⟨f, hf⟩ := decodeBody_of_varint hw about ctx old
    cases hn : Cursor.varint (Cursor.start octets) with
    | error e c => simp [hw, Cursor.skipValue, hn] at h
    | ok n c =>
      obtain rfl : c = ⟨q, left⟩ := by
        simpa only [hw, Cursor.skipValue, hn, EStateM.Result.ok.injEq, true_and] using h
      obtain ⟨p₁, hp⟩ := Cursor.extends_varint hn p rest
      obtain ⟨p₁', hp'⟩ := Cursor.extends_varint hn p' rest'
      simp only [decodeEnclosed, hf, decodeNumber, hp, hp']
      cases f n with
      | ok v => exact ⟨⟨Iff.rfl, fun _ => rfl⟩, fun _ => ⟨rfl, rfl⟩⟩
      | error defect => exact ⟨⟨Iff.rfl, fun _ => rfl⟩, by simp⟩
  | len =>
    -- Without a bound, the tag that is told with a length does not matter.
    cases hl : Cursor.lenPrefixed none about.tag (Cursor.start octets) with
    | error e c =>
      have hl : Cursor.lenPrefixed none 0 (Cursor.start octets) = .error e c := hl
      simp [hw, Cursor.skipValue, hl] at h
    | ok body c =>
      have hl' : Cursor.lenPrefixed none 0 (Cursor.start octets) = .ok body c := hl
      obtain rfl : c = ⟨q, left⟩ := by
        simpa only [hw, Cursor.skipValue, hl', EStateM.Result.ok.injEq, true_and] using h
      obtain ⟨p₁, hp⟩ := Cursor.extends_lenPrefixed none about.tag hl p rest
      obtain ⟨p₁', hp'⟩ := Cursor.extends_lenPrefixed none about.tag hl p' rest'
      simp only [decodeEnclosed, hp, hp']
      exact ⟨⟨Iff.rfl, fun _ => rfl⟩, fun _ => ⟨rfl, rfl⟩⟩
  | stream =>
    obtain rfl : type = stream := by cases type <;> simp [wireType] at hw ⊢
    obtain ⟨place, hplace⟩ := decodeBody_stream about ctx old
    obtain ⟨got, result, hreceive⟩ := StreamField.receive_of_skip about place h
    obtain ⟨hfield, hresult, hrest⟩ := hreceive p rest
    obtain ⟨hfield', hresult', hrest'⟩ := hreceive p' rest'
    simp only [decodeEnclosed, hplace, hfield, hresult, hfield', hresult']
    refine ⟨⟨Iff.rfl, fun _ => rfl⟩, fun hok => ?_⟩
    -- Only a stream that was received tells where it ends.
    have hok : result = .ok () := by
      cases hr : result with
      | error e => simp [hr, Except.mapError] at hok
      | ok u => rfl
    exact ⟨hrest hok, hrest' hok⟩

/-- `skipValue` passes over a value that `decode` can read. -/
theorem skip_of_decode {type : ValueType} {about : FieldMeta} {ctx : Context} {old : Value}
    {c : Cursor} (h : (type.decode about ctx old c).result = .ok ()) :
    ∃ c', Cursor.skipValue type.wireType c = .ok () c' := by
  unfold decode at h
  cases hw : type.wireType with
  | varint =>
    obtain ⟨f, hf⟩ := decodeBody_of_varint hw about ctx old
    cases hn : Cursor.varint c with
    | error e c' => simp [hw, decodeEnclosed, hf, decodeNumber, hn] at h
    | ok n c' => exact ⟨c', by simp only [Cursor.skipValue, hn]⟩
  | len =>
    cases hl : Cursor.lenPrefixed none about.tag c with
    | error e c' => simp [hw, decodeEnclosed, hl] at h
    | ok body c' =>
      have hl : Cursor.lenPrefixed none 0 c = .ok body c' := hl
      exact ⟨c', by simp only [Cursor.skipValue, hl]⟩
  | stream =>
    obtain rfl : type = stream := by cases type <;> simp [wireType] at hw ⊢
    obtain ⟨place, hplace⟩ := decodeBody_stream about ctx old
    simp only [hw, decodeEnclosed, hplace] at h
    cases hr : (place.receive about c).result with
    | error e => simp [hr, Except.mapError] at h
    | ok u => exact StreamField.skip_of_receive hr

/-- `decode` depends on the octets in front of the cursor, not on where they stand, and takes one of
them at least when it succeeds. -/
theorem decode_anywhere (type : ValueType) (about : FieldMeta) (ctx : Context) (old : Value)
    (p p' : Nat) (octets : Bytes) :
    ∃ left, (type.decode about ctx old ⟨p, octets⟩).AgreeUpTo
        (type.decode about ctx old ⟨p', octets⟩) left left ∧
      ((type.decode about ctx old ⟨p, octets⟩).result = .ok () → left.length < octets.length) := by
  cases hskip : Cursor.skipValue type.wireType (Cursor.start octets) with
  | ok u c =>
    have hagree := decode_of_skip hskip about ctx old p p' [] []
    rw [List.append_nil, List.append_nil] at hagree
    exact ⟨c.rest, hagree, fun _ => Cursor.skipValue_ok hskip⟩
  | error e c =>
    -- Octets that cannot be passed over cannot be read either, wherever they stand.
    have hnot : ∀ p, (type.decode about ctx old ⟨p, octets⟩).result ≠ .ok () := by
      intro p hok
      obtain ⟨c', hc'⟩ := skip_of_decode hok
      obtain ⟨q, hq⟩ := Cursor.extends_skipValue _ hc' 0 []
      rw [List.append_nil] at hq
      cases hskip.symm.trans hq
    exact ⟨[], ⟨.of_failed (hnot p) (hnot p'), fun h => absurd h (hnot p)⟩,
      fun h => absurd h (hnot p)⟩

/-- `decode` of octets behind their length is `decodeBody` of these, however the length
is written. -/
theorem decode_of_measures {type : ValueType} (hw : type.wireType = .len) {size body : Bytes}
    (hsize : Varint.Measures size body.length) (about : FieldMeta) (ctx : Context) (old : Value)
    (p : Nat) (rest : Bytes) :
    ∃ p', type.decode about ctx old ⟨p, size ++ (body ++ rest)⟩ =
      ⟨(type.decodeBody about ctx old (Cursor.start body)).value, ⟨p', rest⟩,
        (type.decodeBody about ctx old (Cursor.start body)).result⟩ := by
  -- The body is cut off behind its length and read as octets of its own.
  obtain ⟨p', hp⟩ := Cursor.lenPrefixed_of_measures hsize about.tag p rest
  exact ⟨p', by simp only [decode, decodeEnclosed, hw, hp]⟩

end ValueType

/-! ## Reading side by side -/

/-- A cursor is told by its position and its `rest`. -/
theorem eq_of_rest {c : Cursor} {left : Bytes} (h : c.rest = left) : ∃ p, c = ⟨p, left⟩ :=
  ⟨c.position, by rw [← h]⟩

/-- `all` depends on the octets in front of the cursor, and reads no more elements than there
are octets. -/
theorem Decoded.all_anywhere {f : Cursor → Decoded Value}
    (h : ∀ p p' octets, ∃ left, (f ⟨p, octets⟩).AgreeUpTo (f ⟨p', octets⟩) left left ∧
      ((f ⟨p, octets⟩).result = .ok () → left.length < octets.length))
    (count : Nat) (done : List Value) (p p' : Nat) (octets : Bytes) :
    (Decoded.all f count done ⟨p, octets⟩).Agree (Decoded.all f count done ⟨p', octets⟩) ∧
      ((Decoded.all f count done ⟨p, octets⟩).result = .ok () → count ≤ octets.length) := by
  induction count generalizing done p p' octets with
  | zero => exact ⟨⟨Iff.rfl, fun _ => rfl⟩, fun _ => Nat.zero_le _⟩
  | succ count ih =>
    obtain ⟨left, ⟨⟨hresult, hvalue⟩, hcursor⟩, hshorter⟩ := h p p' octets
    simp only [Decoded.all]
    rcases failed_or_ok hresult with ⟨e, e', hr, hr'⟩ | ⟨hr, hr'⟩
    · simp only [hr, hr']
      exact ⟨.of_failed (by simp) (by simp), by simp⟩
    · obtain ⟨hrest, hrest'⟩ := hcursor hr
      obtain ⟨q, hq⟩ := eq_of_rest hrest
      obtain ⟨q', hq'⟩ := eq_of_rest hrest'
      obtain ⟨hagree, hcount⟩ := ih ((f ⟨p', octets⟩).value :: done) q q' left
      -- One octet at least is gone, which pays for this element.
      have hleft := hshorter hr
      simp only [hr, hr', hvalue hr, hq, hq']
      refine ⟨hagree, fun hok => ?_⟩
      have hfewer := hcount hok
      omega

/-- `all` agrees on two rows of elements that agree one by one, with the same octets behind them. -/
theorem Decoded.all_agree {f : Cursor → Decoded Value} {parts : List (Bytes × Bytes)}
    (h : ∀ x ∈ parts, ∀ p p' rest rest',
      (f ⟨p, x.1 ++ rest⟩).AgreeUpTo (f ⟨p', x.2 ++ rest'⟩) rest rest') {more : Nat} {tail : Bytes}
    (htail : ∀ done p p',
      (Decoded.all f more done ⟨p, tail⟩).Agree (Decoded.all f more done ⟨p', tail⟩) ∧
        ((Decoded.all f more done ⟨p, tail⟩).result = .ok () → more ≤ tail.length))
    (done : List Value) (p p' : Nat) :
    (Decoded.all f (parts.length + more) done ⟨p, parts.flatMap (·.1) ++ tail⟩).Agree
        (Decoded.all f (parts.length + more) done ⟨p', parts.flatMap (·.2) ++ tail⟩) ∧
      ((Decoded.all f (parts.length + more) done ⟨p, parts.flatMap (·.1) ++ tail⟩).result =
        .ok () → more ≤ tail.length) := by
  induction parts generalizing done p p' with
  | nil =>
    rw [List.length_nil, Nat.zero_add]
    exact htail done p p'
  | cons x parts ih =>
    have hx := h x List.mem_cons_self p p' (parts.flatMap (·.1) ++ tail)
      (parts.flatMap (·.2) ++ tail)
    obtain ⟨⟨hresult, hvalue⟩, hcursor⟩ := hx
    have hcount : (x :: parts).length + more = parts.length + more + 1 := by
      rw [List.length_cons]
      omega
    simp only [hcount, Decoded.all, List.flatMap_cons, List.append_assoc]
    -- Both rows fail with this element, or both go on behind it.
    rcases failed_or_ok hresult with ⟨e, e', hr, hr'⟩ | ⟨hr, hr'⟩
    · simp only [hr, hr']
      exact ⟨.of_failed (by simp) (by simp), by simp⟩
    · -- The others start out from the same elements, with the places behind this one.
      obtain ⟨hrest, hrest'⟩ := hcursor hr
      obtain ⟨q, hq⟩ := eq_of_rest hrest
      obtain ⟨q', hq'⟩ := eq_of_rest hrest'
      simp only [hr, hr', hvalue hr, hq, hq']
      exact ih (fun y hy => h y (List.mem_cons_of_mem _ hy)) _ q q'

end Storefront
