import Storefront.Proofs.Schema.Codec
import Storefront.Proofs.Schema.Visits
import Storefront.Proofs.Schema.Outcome
import Storefront.Proofs.Schema.Stream
import Storefront.Proofs.Wire.Contents
import Storefront.Schema.Builder

/-! # Bounds on fields

The bound of a field is held against it wherever it stands.  A sender does not write a value that is
longer; a receiver refuses a longer one by the length in front of it, before it looks at anything
behind that length; and what a receiver has read keeps to its bounds.

* `encode_of_exceeds`        a value that is too long is not written
* `ofBody_of_large_size`     a length that is too large is refused, whatever follows it
* `kept_of_decode`           what has been read keeps to its bounds
* `bounds_enforced`          all of these for whole records
-/

namespace Storefront

/-! ## Writing -/

namespace Source

/-- `piecesFrom` of a source that hands out more than may be sent fails at the piece that is
too much. -/
theorem piecesFrom_above {tag room sent max : Nat} {done : List Bytes} {s : Source}
    (hsent : done.reverse.flatten.length = sent) (hle : sent ≤ max)
    (h : max < (s.piecesFrom tag none room sent done).1.flatten.length) :
    ∃ size, max < size ∧
      (s.piecesFrom tag (some max) room sent done).2 = .error (.boundExceeded tag size max) := by
  fun_induction piecesFrom tag none room sent done s with
  | case1 | case2 =>
    -- What has been handed out so far is not too much, and there is no more of it.
    dsimp only at h
    omega
  | case3 sent done s b bs s₁ h₁ sent' e hb => cases hb
  | case4 sent done s b bs s₁ h₁ sent' hb ih =>
    have hmore : ((b :: bs) :: done).reverse.flatten.length = sent' := by
      rw [List.reverse_cons, List.flatten_append, List.length_append, hsent, List.flatten_cons,
        List.flatten_nil, List.append_nil]
    rw [piecesFrom]
    -- With this piece the total is either still within the bound, and a later piece is too much, or
    -- this is the piece.
    by_cases hfits : sent' ≤ max
    · obtain ⟨size, hsize, hrefused⟩ := ih hmore hfits h
      have hcheck : checkBound tag sent' (some max) = .ok () := by simp [checkBound, hfits]
      refine ⟨size, hsize, ?_⟩
      split <;> simp_all
    · have hcheck : checkBound tag sent' (some max) = .error (.boundExceeded tag sent' max) := by
        simp [checkBound, Nat.not_le.1 hfits]
      refine ⟨sent', Nat.not_le.1 hfits, ?_⟩
      split <;> simp_all

/-- `piecesFrom_above` for a source of which nothing has been handed out. -/
theorem pieces_above {tag room max : Nat} {s : Source}
    (h : max < (s.pieces tag none room).1.flatten.length) :
    ∃ size, max < size ∧
      (s.pieces tag (some max) room).2 = .error (.boundExceeded tag size max) :=
  @piecesFrom_above tag room 0 max [] s rfl (Nat.zero_le _) h

end Source

/-- True when a value is longer than `max`: a text, a secret or a blob by its octets; a stream by
the size it announces, or by what its source hands out in whole pieces before it ends or fails. -/
def ValueType.Exceeds (about : FieldMeta) (max : Nat) : ValueType → Value → Prop
  | .text, .text s | .secret, .text s => max < (Bytes.ofText s).length
  | .blob, .blob bs => max < bs.length
  | .stream, .stream field =>
    (∃ n, field.declared = some n ∧ max < n) ∨
      max < ((field.source.getD []).pieces about.tag none
        (StreamField.chunkRoom about)).1.flatten.length
  | _, _ => False

section

variable {about : FieldMeta} {max : Nat}

/-- `StreamField.send` refuses a stream that announces too much or hands out too much. -/
theorem StreamField.send_above {field : StreamField} (hmax : about.maxSize = some max)
    (h : ValueType.stream.Exceeds about max (.stream field)) :
    ∃ size, max < size ∧
      (field.send about).result = .error (.boundExceeded about.tag size max) := by
  cases hd : field.declared.elim (.ok ()) (checkBound about.tag · about.maxSize) with
  | error e =>
    -- The announced size is above the bound, whatever the source holds.
    cases hdeclared : field.declared with
    | none => simp [hdeclared] at hd
    | some n =>
      rw [hdeclared, Option.elim_some, hmax, checkBound] at hd
      split at hd
      · rename_i hn
        cases hd
        exact ⟨n, hn, by simp [send, hdeclared, hmax, checkBound, hn]⟩
      · cases hd
  | ok u =>
    rcases h with ⟨n, hn, hlt⟩ | habove
    · simp [hn, hmax, checkBound, hlt] at hd
    · obtain ⟨size, hsize, hrefused⟩ := Source.pieces_above habove
      rw [← hmax] at hrefused
      exact ⟨size, hsize, by simp only [send, hd, hrefused]⟩

/-- `encodeOctets` refuses octets above the bound with their number. -/
theorem encodeOctets_above {bs : Bytes} (hmax : about.maxSize = some max) (h : max < bs.length)
    (v : Value) :
    encodeOctets about bs v = .error (.wire (.boundExceeded about.tag bs.length max)) v := by
  simp [encodeOctets, hmax, checkBound, h]

/-- `encode` of a value that `Exceeds` its bound fails with `boundExceeded`. -/
theorem ValueType.encode_of_exceeds {type : ValueType} {v : Value} (hmax : about.maxSize = some max)
    (h : type.Exceeds about max v) (ctx : Context) :
    ∃ size, max < size ∧
      (type.encode about ctx v).result = .error (.wire (.boundExceeded about.tag size max)) := by
  unfold Exceeds at h
  split at h
  · rename_i s
    exact ⟨_, h, by simp [encode, encodeBody, encodeOctets_above hmax h, Encoded.enclose, wireType,
      Encoded.error]⟩
  · rename_i s
    exact ⟨_, h, by simp [encode, encodeBody, encodeOctets_above hmax h, Encoded.enclose, wireType,
      Encoded.error]⟩
  · rename_i bs
    exact ⟨_, h, by simp [encode, encodeBody, encodeOctets_above hmax h, Encoded.enclose, wireType,
      Encoded.error]⟩
  · rename_i field
    obtain ⟨size, hsize, hrefused⟩ := StreamField.send_above hmax h
    refine ⟨size, hsize, ?_⟩
    show (field.send about).result.mapError SchemaError.wire = _
    rw [hrefused]
    rfl
  · cases h

end

/-! ## Reading lengths -/

namespace FieldIndex

variable {bound : Nat → Option Nat}

/-- `RawField.read` refuses a field for its length, or for the size that its stream announces,
before anything behind that is looked at. -/
theorem read_of_large_size {tag max : Nat} {type : WireType} {key size : Grammar.Number}
    (hbound : bound tag = some max) (htag : tag ≤ maxTag)
    (hkey : key.value = tag * 8 + type.bits) (hsize : max < size.value)
    (htype : type = .len ∨ type = .stream ∧ size.value ≠ Wire.undeclaredSize) (p : Nat)
    (rest : Bytes) :
    ∃ c, RawField.read bound ⟨p, key.octets ++ (size.octets ++ rest)⟩ =
      .error (.boundExceeded tag size.value max) c := by
  have hover : checkBound tag size.value (some max) =
      .error (.boundExceeded tag size.value max) := by simp [checkBound, hsize]
  unfold RawField.read
  rw [Cursor.bind_of_ok (Grammar.takes_key htag hkey p _)]
  simp only [hbound]
  rcases htype with rfl | ⟨rfl, hknown⟩
  · refine ⟨⟨p + key.octets.length + size.octets.length, rest⟩, ?_⟩
    show ((Cursor.varint >>= fun n => _) >>= fun body => _) _ = _
    simp only [bind, EStateM.bind, Grammar.takes_number size _ rest, Cursor.check, hover]
  · refine ⟨⟨p + key.octets.length, size.octets ++ rest⟩, ?_⟩
    have hstart := Grammar.takes_streamStart size (p + key.octets.length) rest
    rw [Grammar.announced, if_neg hknown] at hstart
    simp only [bind, EStateM.bind, RawField.readBody, hstart, Option.elim_some, hover]

/-- `ofBody` refuses such a field behind others that keep to their bounds. -/
theorem ofBody_of_large_size {tag max : Nat} {type : WireType} {key size : Grammar.Number}
    {fields : List Grammar.Field} (hnodup : (fields.map Grammar.Field.tag).Nodup)
    (hwithin : ∀ f ∈ fields, f.value.Within (bound f.tag)) (hbound : bound tag = some max)
    (htag : tag ≤ maxTag) (hkey : key.value = tag * 8 + type.bits) (hsize : max < size.value)
    (htype : type = .len ∨ type = .stream ∧ size.value ≠ Wire.undeclaredSize) (rest : Bytes) :
    ofBody bound (fields.flatMap Grammar.Field.octets ++ (key.octets ++ (size.octets ++ rest))) =
      .error (.boundExceeded tag size.value max) := by
  have hall := readAll_append (takes_fields hwithin) hnodup (fun _ _ => List.not_mem_nil) 0
    (key.octets ++ (size.octets ++ rest))
  have hmore : key.octets ++ (size.octets ++ rest) ≠ [] := by simp [key.spelled.groups.ne_nil]
  obtain ⟨c, hread⟩ := read_of_large_size hbound htag hkey hsize htype
    (0 + (fields.flatMap Grammar.Field.octets).length) rest
  rwa [readAll_of_error hmore hread] at hall

end FieldIndex

/-! ## What has been read -/

namespace StreamField

variable {m : FieldMeta} {max : Nat}

/-- `collect` keeps chunks up to the bound at most, whether the stream announced a size or not. -/
theorem collect_within {received : Nat} {done : List Bytes} {c : Cursor}
    (hmax : m.maxSize = some max) (hreceived : done.reverse.flatten.length = received)
    (hle : received ≤ max) : (collect m received done c).1.chunks.flatten.length ≤ max := by
  fun_induction collect m received done c with
  | case1 | case2 | case3 | case4 =>
    dsimp only
    omega
  | case5 received done c bs c' h₁ hchunk sum hb ih =>
    have hsum : (bs :: done).reverse.flatten.length = sum := by
      rw [List.reverse_cons, List.flatten_append, List.length_append, hreceived, List.flatten_cons,
        List.flatten_nil, List.append_nil]
    exact ih hsum (checkBound_eq_ok.1 hb max hmax)

/-- What `StreamField.receive` keeps of a stream that came whole is within the bound. -/
theorem receive_within {old : StreamField} {c : Cursor} (hmax : m.maxSize = some max)
    (h : (old.receive m c).result = .ok ()) : (old.receive m c).field.data.length ≤ max := by
  unfold receive at h ⊢
  cases hstart : c.streamStart with
  | error e c' => simp [hstart] at h
  | ok declared c' =>
    -- The bound is held against the running total, so it holds of what was collected whether or not
    -- the stream ends well.
    have hwithin : (collect m 0 [] c').1.chunks.flatten.length ≤ max :=
      collect_within hmax rfl (Nat.zero_le max)
    cases hd : declared.elim (.ok ()) (checkBound m.tag · m.maxSize) with
    | error e => simp [hstart, hd] at h
    | ok u =>
      cases hc : collect m 0 [] c' with
      | mk arrived ending =>
        rw [hc] at hwithin
        cases ending with
        | error e => simp [hstart, hd, hc] at h
        | ok c'' =>
          simp only [hd, hc]
          exact hwithin

end StreamField

/-- What a bound counts in a value: its octets, or its elements. -/
def Value.extent : Value → Nat
  | .text s => (Bytes.ofText s).length
  | .blob bs => bs.length
  | .stream field => field.data.length
  | .list items => items.length
  | _ => 0

/-- `decodeNumber` makes values without `extent`. -/
theorem extent_of_decodeNumber {about : FieldMeta} {f : Nat → Except Defect Value} {old : Value}
    {c : Cursor} {max : Nat} (hf : ∀ n v, f n = .ok v → v.extent = 0)
    (h : (decodeNumber about f old c).result = .ok ()) :
    (decodeNumber about f old c).value.extent ≤ max := by
  obtain ⟨n, -, hn⟩ := decodeNumber_ok h
  rw [hf n _ hn]
  exact Nat.zero_le max

/-- `decodeOctets` makes values as long as the octets are, which were held against the bound. -/
theorem extent_of_decodeOctets {about : FieldMeta} {f : Bytes → Except Defect Value} {old : Value}
    {c : Cursor} {max : Nat} (hmax : about.maxSize = some max)
    (hf : ∀ bs v, f bs = .ok v → v.extent = bs.length)
    (h : (decodeOctets about f old c).result = .ok ()) :
    (decodeOctets about f old c).value.extent ≤ max := by
  obtain ⟨hb, hv⟩ := decodeOctets_ok h
  rw [hf _ _ hv]
  simpa [hmax] using hb

/-- `decodeUnsigned` makes values without `extent`. -/
theorem extent_of_decodeUnsigned {w : Width} (n : Nat) (v : Value) (h : decodeUnsigned w n = .ok v) :
    v.extent = 0 := by
  obtain ⟨rfl, -⟩ := decodeUnsigned_ok h
  rfl

/-- `decodeText` makes a text whose `extent` is the number of its octets. -/
theorem extent_of_decodeText (bs : Bytes) (v : Value) (h : decodeText bs = .ok v) :
    v.extent = bs.length := by
  obtain ⟨s, rfl, rfl⟩ := decodeText_ok h
  rfl

/-- `decodeBody` of a list makes as many elements as were announced, and that number was held
against the bound. -/
theorem extent_of_decodeList {element : ValueType} {about : FieldMeta} {ctx : Context} {old : Value}
    {c : Cursor} {max : Nat} (hmax : about.maxSize = some max)
    (h : ((ValueType.list element).decodeBody about ctx old c).result = .ok ()) :
    ((ValueType.list element).decodeBody about ctx old c).value.extent ≤ max := by
  simp only [ValueType.decodeBody] at h ⊢
  split at h
  · cases h
  · split at h
    · cases h
    · next hb =>
      split at h
      · next henough =>
        obtain ⟨-, hlength⟩ := Decoded.all_ok (fun _ => True) (fun _ _ => trivial)
          (fun _ _ => trivial) h
        rw [if_pos henough]
        show List.length _ ≤ max
        rw [hlength, List.length_nil, Nat.zero_add]
        exact checkBound_eq_ok.1 hb max hmax
      · cases h

/-- `decodeBody` makes values that keep to the bound of their field. -/
theorem ValueType.extent_of_decodeBody {type : ValueType} {about : FieldMeta} {ctx : Context}
    {old : Value} {c : Cursor} {max : Nat} (hmax : about.maxSize = some max)
    (h : (type.decodeBody about ctx old c).result = .ok ()) :
    (type.decodeBody about ctx old c).value.extent ≤ max := by
  cases type with
  | unsigned w => exact extent_of_decodeNumber extent_of_decodeUnsigned h
  | status => exact extent_of_decodeNumber extent_of_decodeUnsigned h
  | choice e =>
    apply extent_of_decodeNumber (fun n v hv => ?_) h
    split at hv <;> cases hv
    rfl
  | options =>
    apply extent_of_decodeNumber (fun n v hv => ?_) h
    split at hv <;> cases hv
    rfl
  | signed =>
    apply extent_of_decodeNumber (fun n v hv => ?_) h
    cases hv
    rfl
  | flag =>
    apply extent_of_decodeNumber (fun n v hv => ?_) h
    split at hv <;> cases hv
    rfl
  | text => exact extent_of_decodeOctets hmax extent_of_decodeText h
  | secret => exact extent_of_decodeOctets hmax extent_of_decodeText h
  | blob =>
    apply extent_of_decodeOctets hmax (fun bs v hv => ?_) h
    cases hv
    rfl
  | stream =>
    unfold decodeBody at h ⊢
    dsimp only at h ⊢
    apply StreamField.receive_within hmax
    -- The failure of a stream is that of its field.
    generalize StreamField.receive about _ c = x at h ⊢
    cases hx : x.result with
    | ok u => rfl
    | error e =>
      rw [hx] at h
      cases h
  | list element => exact extent_of_decodeList hmax h
  | pair a b =>
    unfold decodeBody
    dsimp only
    split <;> exact Nat.zero_le max
  | record name layout hook =>
    unfold decodeBody at h ⊢
    dsimp only at h ⊢
    split at h
    · cases h
    · split
      · exact Nat.zero_le max
      · split
        · exact Nat.zero_le max
        · split <;> exact Nat.zero_le max

/-- A place that `visits` has come to and `find?` has found holds what `decodeBody` made of
the octets. -/
theorem Layout.read_of_visits {ctx : Context} {index : FieldIndex} : (layout : Layout) →
    ∀ {slot : Nat} {fields got : List Value}, slot + layout.size ≤ fields.length →
    layout.decode ctx index slot fields = (got, .ok ()) →
    ∀ x ∈ layout.visits ctx index slot fields, ∀ raw, index.find? x.1.about.tag = some raw →
      (x.1.type.decodeBody x.1.about ctx x.2 raw.cursor).result = .ok () ∧
        got[x.1.slot]? = some (x.1.type.decodeBody x.1.about ctx x.2 raw.cursor).value
  | nil, _, _, _, _, _, x, hx, _, _ => by simp [visits] at hx
  | field about type initial rest, slot, fields, got, hsize, h, x, hx, raw, hraw => by
    simp only [size] at hsize
    simp only [visits] at hx
    obtain ⟨hfound, h⟩ | ⟨found, hfound, hexpect, hread, h⟩ := decode_field_ok h
    · simp only [hfound] at hx
      rcases List.mem_cons.1 hx with rfl | hx
      · simp [hfound] at hraw
      · exact rest.read_of_visits (by omega) h x hx raw hraw
    · simp only [hfound, hexpect, hread] at hx
      rcases List.mem_cons.1 hx with rfl | hx
      · obtain rfl : found = raw := Option.some.inj (hfound.symm.trans hraw)
        -- What follows leaves the slot of this field alone.
        exact ⟨hread, (getElem?_of_decode h).trans (List.getElem?_set_self (by omega))⟩
      · exact rest.read_of_visits (by rw [List.length_set]; omega) h x hx raw hraw
  | group name guard body rest, slot, fields, got, hsize, h, x, hx, raw, hraw => by
    simp only [size] at hsize
    simp only [visits] at hx
    obtain ⟨hguard, inner, hbody, h⟩ | ⟨hguard, h⟩ := decode_group_ok h
    · rw [if_pos hguard, hbody] at hx
      have hlength : inner.length = fields.length := by
        rw [← (body.decode_frame ctx index slot fields).1, hbody]
      rcases List.mem_append.1 hx with hx | hx
      · obtain ⟨hread, hvalue⟩ := body.read_of_visits (by omega) hbody x hx raw hraw
        -- The place is one of the group, and what follows it leaves the group alone.
        have hplace := slot_of_mem_places (body.mem_places_of_visits x hx)
        have hframe := (rest.decode_frame ctx index (slot + body.size) inner).2 x.1.slot
          (.inl hplace.2)
        rw [h] at hframe
        exact ⟨hread, hframe.trans hvalue⟩
      · exact rest.read_of_visits (by omega) h x hx raw hraw
    · rw [if_neg hguard] at hx
      exact rest.read_of_visits (by omega) h x hx raw hraw

/-- The fields that a reader has come to and found keep to their bounds. -/
def Layout.Keeps (layout : Layout) (ctx : Context) (index : FieldIndex)
    (before read : List Value) : Prop :=
  ∀ x ∈ layout.visits ctx index 0 before, ∀ raw, index.find? x.1.about.tag = some raw →
    ∀ max, x.1.about.maxSize = some max → (x.1.value read).extent ≤ max

/-- What `Layout.decode` has read without fail keeps to its bounds. -/
theorem Layout.keeps_of_decode {layout : Layout} {ctx : Context} {index : FieldIndex}
    {before read : List Value} (hsize : before.length = layout.size)
    (h : layout.decode ctx index 0 before = (read, .ok ())) :
    layout.Keeps ctx index before read := by
  intro x hx raw hraw max hmax
  obtain ⟨hread, hvalue⟩ := layout.read_of_visits (by omega) h x hx raw hraw
  rw [Place.value, hvalue, Option.getD_some]
  exact ValueType.extent_of_decodeBody hmax hread

namespace RecordType

/-- What the hook of a record makes of fields that have been read. -/
def Hooked (r : RecordType) (ctx : Context) (read got : List Value) : Prop :=
  match r.hook with
  | none => got = read
  | some hook => hook read ctx = .ok got

variable {r : RecordType} {ctx : Context} {before got : List Value}

/-- `decodeIndexed` has read fields that keep to their bounds before the hook sees them. -/
theorem kept_of_decodeIndexed {index : FieldIndex} (hsize : before.length = r.layout.size)
    (h : r.decodeIndexed ctx index before = (got, .ok ())) :
    ∃ read, r.layout.Keeps ctx index before read ∧ r.Hooked ctx read got := by
  unfold decodeIndexed at h
  dsimp only at h
  cases hresult : (r.layout.decode ctx index 0 before).2 with
  | error e =>
    rw [hresult] at h
    dsimp only at h
    rw [h] at hresult
    cases hresult
  | ok u =>
    have hread : r.layout.decode ctx index 0 before =
        ((r.layout.decode ctx index 0 before).1, .ok ()) := Prod.ext rfl hresult
    -- The fields before the hook are the ones that keep to their bounds.
    refine ⟨_, Layout.keeps_of_decode hsize hread, ?_⟩
    rw [hresult] at h
    unfold Hooked
    cases hhook : r.hook with
    | none =>
      simp only [hhook] at h
      exact (congrArg Prod.fst h).symm
    | some hook =>
      simp only [hhook] at h
      dsimp only
      split at h
      · rename_i fields hfields
        obtain rfl : fields = got := congrArg Prod.fst h
        exact hfields
      · cases congrArg Prod.snd h

end RecordType

/-! ## Records and messages -/

/-- `byteBound` of a tag is the bound of the field with that tag, if its type is one of octets. -/
theorem Layout.byteBound_of_place {layout : Layout} (htags : layout.distinctTags) {p : Place}
    (hp : p ∈ layout.places 0) (hbounded : p.type.byteBounded) :
    layout.byteBound p.about.tag = p.about.maxSize := by
  rw [byteBound_of_mem htags (declared_of_mem_places hp), if_pos hbounded]

/-- Bounds hold in both directions.  In `encode` and `encodeMessage` the first field that `Exceeds`
its `maxSize`, of those that `walk` comes to, ends the writing with `boundExceeded`, if those before
it can be written.  In `decode` and `decodeMessage`, behind fields that keep to their bounds, a
length or announced size that is above the `maxSize` of its field ends the reading, whatever follows
it, whether or not the group of the field would be present, and nothing has been read by then.  And
what has been read, before the `hook` of the record sees it, keeps to its bounds. -/
theorem bounds_enforced (r : RecordType) (ctx : Context) :
    (∀ (fields : List Value) (before after : List Place) (p : Place) (v : Value) (max : Nat),
      r.layout.walk ctx fields 0 = before ++ p :: after → (∀ q ∈ before, q.Written ctx fields) →
      p.about.tag ≤ maxTag → p.about.maxSize = some max → fields[p.slot]? = some v →
      p.type.Exceeds p.about max v →
      ∃ size, max < size ∧
        (r.encode ctx fields).result = .error (.wire (.boundExceeded p.about.tag size max)) ∧
        ∀ version, (r.encodeMessage version ctx fields).result =
          .error (.wire (.boundExceeded p.about.tag size max))) ∧
    (r.layout.distinctTags → ∀ p ∈ r.layout.places 0, p.type.byteBounded → p.about.tag ≤ maxTag →
      ∀ max, p.about.maxSize = some max →
      ∀ (fields : List Grammar.Field) (key size : Grammar.Number) (type : WireType) (rest : Bytes)
        (old : List Value),
        (fields.map Grammar.Field.tag).Nodup →
        (∀ f ∈ fields, f.value.Within (r.layout.byteBound f.tag)) →
        key.value = p.about.tag * 8 + type.bits → max < size.value →
        type = .len ∨ type = .stream ∧ size.value ≠ Wire.undeclaredSize →
        r.decode ctx
            (fields.flatMap Grammar.Field.octets ++ (key.octets ++ (size.octets ++ rest))) old =
          (old, .error (.wire (.boundExceeded p.about.tag size.value max))) ∧
        r.decodeMessage ctx
            (fields.flatMap Grammar.Field.octets ++ (key.octets ++ (size.octets ++ rest))) old =
          (old, .error (.wire (.boundExceeded p.about.tag size.value max)))) ∧
    ∀ (body : Bytes) (old got : List Value), old.length = r.layout.size →
      (r.decode ctx body old = (got, .ok ()) →
        ∃ index read, FieldIndex.ofBody r.layout.byteBound body = .ok index ∧
          r.layout.Keeps ctx index old read ∧ r.Hooked ctx read got) ∧
      (r.decodeMessage ctx body old = (got, .ok ()) →
        ∃ index read, FieldIndex.ofBody r.layout.byteBound body = .ok index ∧
          r.layout.Keeps ctx (index.without formatVersionTag) old read ∧
          r.Hooked ctx read got) := by
  refine ⟨?_, ?_, ?_⟩
  · intro fields before after p v max hwalk hbefore htag hmax hv hexceeds
    -- The fields before are written, and the walk ends at this one.
    obtain ⟨size, hsize, hrefused⟩ := p.type.encode_of_exceeds hmax hexceeds ctx
    have hresult := RecordType.encode_stops hwalk hbefore
      ((Place.outcome_of_tag htag hv).trans hrefused)
    exact ⟨size, hsize, hresult, fun version => hresult⟩
  · intro htags p hp hbounded htag max hmax fields key size type rest old hnodup hwithin hkey hsize
      htype
    -- Indexing fails before any field is looked at, so the record is as it was.
    have hbound := (Layout.byteBound_of_place htags hp hbounded).trans hmax
    have hindex := FieldIndex.ofBody_of_large_size hnodup hwithin hbound htag hkey hsize htype rest
    simp only [RecordType.decode, RecordType.decodeMessage, RecordType.index, hindex,
      Except.mapError, and_self]
  · intro body old got hold
    unfold RecordType.decode RecordType.decodeMessage RecordType.index
    cases hindex : FieldIndex.ofBody r.layout.byteBound body with
    | error e => simp [Except.mapError]
    | ok index =>
      simp only [Except.mapError]
      constructor
      · intro h
        obtain ⟨read, hkeeps, hhooked⟩ := RecordType.kept_of_decodeIndexed hold h
        exact ⟨index, read, rfl, hkeeps, hhooked⟩
      · intro h
        split at h
        · cases congrArg Prod.snd h
        · obtain ⟨read, hkeeps, hhooked⟩ := RecordType.kept_of_decodeIndexed hold h
          exact ⟨index, read, rfl, hkeeps, hhooked⟩

/-- A note of three octets at most. -/
def noteType (tag : Nat) (hook : Option Hook) : RecordType where
  name := "Note"
  layout := .build [.bounded tag "note" .text 3]
  hook := hook

/-- `encode` of a note of five octets fails, `index` of one of which only a length of 128 is there
fails, and one of a single octet is read. -/
theorem bounds_enforced_note :
    (∃ size, 3 < size ∧ ((noteType 1 none).encode .empty [.text "hello"]).result =
      .error (.wire (.boundExceeded 1 size 3))) ∧
    (noteType 1 none).decode .empty [0x0A, 0x80, 0x01] [.text "old"] =
      ([.text "old"], .error (.wire (.boundExceeded 1 128 3))) ∧
    ∃ index read, FieldIndex.ofBody (noteType 1 none).layout.byteBound [0x0A, 0x01, 0x61] =
        .ok index ∧
      (noteType 1 none).layout.Keeps .empty index [.text ""] read ∧ [.text "a"] = read := by
  obtain ⟨hwrite, hread, hkept⟩ := bounds_enforced (noteType 1 none) .empty
  have hlong : 3 < (Bytes.ofText "hello").length := by decide
  have hdecode : (noteType 1 none).decode .empty [0x0A, 0x01, 0x61] [.text ""] =
      ([.text "a"], .ok ()) := by
    have hindex : FieldIndex.ofBody (noteType 1 none).layout.byteBound [0x0A, 0x01, 0x61] =
        .ok [⟨1, .len, [0x61]⟩] := by decide +kernel
    rw [RecordType.decode, RecordType.index, hindex]
    rfl
  refine ⟨?_, ?_, (hkept _ _ _ rfl).1 hdecode⟩
  · obtain ⟨size, hsize, hresult, -⟩ := hwrite [.text "hello"] [] [] _ (.text "hello") 3 rfl
      (by simp) (by decide) rfl rfl hlong
    exact ⟨size, hsize, hresult⟩
  · exact (hread (by decide) ⟨0, ⟨1, "note", some 3, FieldMeta.defaultChunkSize⟩, .text⟩
      List.mem_cons_self rfl (by decide) 3 rfl [] ⟨[0x0A], 10, by decide⟩ ⟨[0x80, 0x01], 128, by decide⟩
      .len [] [.text "old"] List.nodup_nil (by simp) rfl (by decide) (.inl rfl)).1

/-- Not every value that is too long is refused for that: `key` refuses a tag above `maxTag` first,
and a source may fail inside of the chunk that would be too much.  And not every bound holds of what
a `hook` has made of a record. -/
theorem bounds_escaped :
    ((noteType (maxTag + 1) none).layout.distinctTags ∧
      ValueType.text.Exceeds ⟨maxTag + 1, "note", some 3, 10⟩ 3 (.text "hello") ∧
      ((noteType (maxTag + 1) none).encode .empty [.text "hello"]).result =
        .error (.wire (.tagOutOfRange (maxTag + 1)))) ∧
    ((Source.octets [.octets [1, 2, 3, 4] none, .fault .brokenPipe]).length = 4 ∧
      (StreamField.send ⟨1, "file", some 3, 10⟩
        (.ofSource [.octets [1, 2, 3, 4] none, .fault .brokenPipe] none)).result =
          .error (.io .brokenPipe)) ∧
    (noteType 1 (some fun _ _ => .ok [.text "hello"])).decode .empty [0x0A, 0x01, 0x61] [.text ""] =
      ([.text "hello"], .ok ()) := by
  refine ⟨⟨by decide, ?_, rfl⟩, ⟨rfl, ?_⟩, ?_⟩
  · show 3 < (Bytes.ofText "hello").length
    decide
  · decide +kernel
  · have hindex : FieldIndex.ofBody (noteType 1 (some fun _ _ => .ok [.text "hello"])).layout.byteBound
        [0x0A, 0x01, 0x61] = .ok [⟨1, .len, [0x61]⟩] := by decide +kernel
    rw [RecordType.decode, RecordType.index, hindex]
    rfl

end Storefront
