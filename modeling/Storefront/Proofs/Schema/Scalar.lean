import Storefront.Proofs.Schema.Arrival
import Storefront.Schema.Decode
import Storefront.Schema.Encode

/-! # Values without parts

Numbers, octets and streams: what is written for such a value, and that it reads back from there.

* `numeral`   a value written as one number
* `octets`    a value written as octets
* `streamed`  a stream
-/

namespace Storefront

namespace Encoded

variable {α : Type}

/-- `enclose` that succeeds lays a value out like a field behind its key. -/
theorem enclose_ok {tag : Nat} {type : WireType} {x : Encoded α}
    (h : (x.enclose tag type).result = .ok ()) :
    x.result = .ok () ∧ (type = .len → x.bytes.length < Varint.limit) ∧
      (x.enclose tag type).bytes = RawField.valueOctets ⟨tag, type, x.bytes⟩ := by
  cases type with
  | varint => exact ⟨h, nofun, rfl⟩
  | stream => exact ⟨h, nofun, rfl⟩
  | len =>
    cases hx : x.result with
    | error e => simp [enclose, hx, error] at h
    | ok u =>
      by_cases hl : x.bytes.length < Varint.limit
      · exact ⟨rfl, fun _ => hl, by simp [enclose, hx, hl, ok, RawField.valueOctets]⟩
      · simp [enclose, hx, hl, error] at h

end Encoded

/-- What a width `admits` is below `Varint.limit`. -/
theorem Width.lt_limit {w : Width} {n : Nat} (h : w.admits n) : n < Varint.limit := by
  have hn : n < w.limit := by simpa [Width.admits] using h
  exact Nat.lt_of_lt_of_le hn (by cases w <;> decide)

/-- True for a value whose number or declared size fits 64 bits. -/
def Value.InRange : Value → Prop
  | .number n => n < Varint.limit
  | .stream field => ∀ n, field.declared = some n → n < Varint.limit
  | _ => True

/-- What a type `holds` is `InRange`. -/
theorem ValueType.inRange_of_holds {type : ValueType} {v : Value} (h : type.holds v) :
    v.InRange := by
  cases v <;> try trivial
  case number n =>
    cases type <;> simp [holds] at h
    case unsigned w => exact Width.lt_limit h
    case status => exact Width.lt_limit h
    case choice e => exact Width.lt_limit h.2
    case options => exact Nat.lt_of_le_of_lt h (by decide)
  case stream field =>
    cases type <;> simp [holds] at h
    intro n hn
    simpa [hn] using h

/-- What `encodeNumber` has written is a number that the field admits. -/
theorem encodeNumber_ok {about : FieldMeta} {admits : Nat → Bool} {v : Value}
    (h : (encodeNumber about admits v).result = .ok ()) :
    ∃ n, v = .number n ∧ (encodeNumber about admits v).bytes = Varint.encode n ∧ admits n := by
  -- Nothing but a number that the field admits is written.
  cases v with
  | number n =>
    by_cases ha : admits n
    · exact ⟨n, rfl, by simp [encodeNumber, ha, Encoded.ok], ha⟩
    · simp [encodeNumber, ha, Encoded.error] at h
  | _ => simp [encodeNumber, Encoded.error] at h

/-- What `encodeOctets` has written keeps to the bound. -/
theorem encodeOctets_ok {about : FieldMeta} {bs : Bytes} {v : Value}
    (h : (encodeOctets about bs v).result = .ok ()) :
    (encodeOctets about bs v).bytes = bs ∧ checkBound about.tag bs.length about.maxSize = .ok () := by
  unfold encodeOctets at h ⊢
  split at h
  · simp [Encoded.error] at h
  · rename_i hb
    exact ⟨rfl, hb⟩

/-- `decodeNumber` reads back a number that was encoded, and what is behind it stays. -/
theorem decodeNumber_append {about : FieldMeta} {f : Nat → Except Defect Value} {n : Nat}
    {v : Value} (hn : n < Varint.limit) (hf : f n = .ok v) (old : Value) (p : Nat) (rest : Bytes) :
    decodeNumber about f old ⟨p, Varint.encode n ++ rest⟩ =
      ⟨v, ⟨p + (Varint.encode n).length, rest⟩, .ok ()⟩ := by
  simp only [decodeNumber, Cursor.varint_append hn, hf]

/-- `decodeOctets` takes octets within the bound as a whole. -/
theorem decodeOctets_whole {about : FieldMeta} {f : Bytes → Except Defect Value} {bs : Bytes}
    {v : Value} (hb : checkBound about.tag bs.length about.maxSize = .ok ()) (hf : f bs = .ok v)
    (old : Value) (p : Nat) :
    decodeOctets about f old ⟨p, bs⟩ = ⟨v, ⟨p + bs.length, []⟩, .ok ()⟩ := by
  simp only [decodeOctets, Cursor.remaining, hb, hf]

namespace ValueType

variable {type : ValueType} {about : FieldMeta} {sender : Context} {v : Value}

/-- `encode` that succeeds has made the body, laid out like a field behind its key. -/
theorem encode_ok (h : (type.encode about sender v).result = .ok ()) :
    (type.encodeBody about sender v).result = .ok () ∧
      (type.wireType = .len → (type.encodeBody about sender v).bytes.length < Varint.limit) ∧
      (type.encode about sender v).bytes = RawField.valueOctets
        ⟨about.tag, type.wireType, (type.encodeBody about sender v).bytes⟩ :=
  Encoded.enclose_ok h

/-- `encodeBody` of a type with wire type `varint` is `Varint.encode` of a number. -/
theorem number_written (hw : type.wireType = .varint) (hv : v.InRange)
    (h : (type.encodeBody about sender v).result = .ok ()) :
    ∃ n, n < Varint.limit ∧ (type.encodeBody about sender v).bytes = Varint.encode n := by
  cases type with
  | unsigned | status | choice | options =>
    obtain ⟨n, rfl, hbytes, -⟩ := encodeNumber_ok h
    exact ⟨n, hv, hbytes⟩
  | signed =>
    cases v <;> simp [encodeBody, Encoded.error] at h
    case signed i =>
      -- A signed number is written zigzag, as far as that fits 64 bits.
      by_cases hi : ZigZag.encode i < Varint.limit
      · exact ⟨ZigZag.encode i, hi, by simp [encodeBody, hi, Encoded.ok]⟩
      · simp [hi] at h
  | flag =>
    cases v <;> simp [encodeBody, Encoded.error] at h
    case flag b => exact ⟨b.toNat, by cases b <;> decide, rfl⟩
  | _ => simp [wireType] at hw

/-- `encodeBody` of a number is read back by `decodeBody`. -/
theorem numeral (hw : type.wireType = .varint) (hv : type.holds v)
    (h : (type.encodeBody about sender v).result = .ok ()) :
    ∃ n, n < Varint.limit ∧ (type.encodeBody about sender v).bytes = Varint.encode n ∧
      ∀ receiver old p rest,
        type.decodeBody about receiver old ⟨p, Varint.encode n ++ rest⟩ =
          ⟨v, ⟨p + (Varint.encode n).length, rest⟩, .ok ()⟩ := by
  cases type with
  | unsigned w =>
    -- What the width admits is what is read back without a defect.
    obtain ⟨n, rfl, hbytes, ha⟩ := encodeNumber_ok h
    refine ⟨n, Width.lt_limit ha, hbytes, fun receiver old p rest => ?_⟩
    exact decodeNumber_append (Width.lt_limit ha) (by simp [decodeUnsigned, ha]) old p rest
  | status =>
    obtain ⟨n, rfl, hbytes, ha⟩ := encodeNumber_ok h
    refine ⟨n, Width.lt_limit ha, hbytes, fun receiver old p rest => ?_⟩
    exact decodeNumber_append (Width.lt_limit ha) (by simp [decodeUnsigned, ha]) old p rest
  | choice e =>
    obtain ⟨n, rfl, hbytes, ha⟩ := encodeNumber_ok h
    -- The number of a member is read as this member, however many there are.
    simp only [holds, Bool.and_eq_true] at hv
    refine ⟨n, Width.lt_limit hv.2, hbytes, fun receiver old p rest => ?_⟩
    exact decodeNumber_append (Width.lt_limit hv.2) (by simp [ha]) old p rest
  | options =>
    obtain ⟨n, rfl, hbytes, ha⟩ := encodeNumber_ok h
    -- Not every number that can be written is a set of options.
    have hmask : n ≤ optionsMask := by simpa [holds] using hv
    refine ⟨n, Width.lt_limit ha, hbytes, fun receiver old p rest => ?_⟩
    exact decodeNumber_append (Width.lt_limit ha) (by simp [hmask]) old p rest
  | signed =>
    cases v <;> simp [holds] at hv
    case signed i =>
      refine ⟨ZigZag.encode i, hv, by simp [encodeBody, hv, Encoded.ok],
        fun receiver old p rest => ?_⟩
      exact decodeNumber_append hv (by simp) old p rest
  | flag =>
    cases v <;> simp [holds] at hv
    case flag b =>
      -- A flag is written as one of two numbers, and no other is read.
      have hb : b.toNat < Varint.limit := by cases b <;> decide
      refine ⟨b.toNat, hb, rfl, fun receiver old p rest => ?_⟩
      exact decodeNumber_append hb (by cases b <;> rfl) old p rest
  | _ => simp [wireType] at hw

/-- `encodeBody` of octets is these octets, and `decodeBody` takes them all. -/
theorem octets (hw : type.wireType = .len) (hbounded : type.byteBounded)
    (h : (type.encodeBody about sender v).result = .ok ()) :
    ∃ bs, (type.encodeBody about sender v).bytes = bs ∧
      checkBound about.tag bs.length about.maxSize = .ok () ∧
      ∀ receiver old p,
        type.decodeBody about receiver old ⟨p, bs⟩ = ⟨v, ⟨p + bs.length, []⟩, .ok ()⟩ := by
  cases type with
  | text =>
    cases v <;> simp [encodeBody, Encoded.error] at h
    case text s =>
      obtain ⟨hbytes, hb⟩ := encodeOctets_ok h
      refine ⟨Bytes.ofText s, hbytes, hb, fun receiver old p => ?_⟩
      exact decodeOctets_whole hb (by simp [decodeText]) old p
  | secret =>
    cases v <;> simp [encodeBody, Encoded.error] at h
    case text s =>
      obtain ⟨hbytes, hb⟩ := encodeOctets_ok h
      refine ⟨Bytes.ofText s, hbytes, hb, fun receiver old p => ?_⟩
      exact decodeOctets_whole hb (by simp [decodeText]) old p
  | blob =>
    cases v <;> simp [encodeBody, Encoded.error] at h
    case blob bs =>
      obtain ⟨hbytes, hb⟩ := encodeOctets_ok h
      refine ⟨bs, hbytes, hb, fun receiver old p => ?_⟩
      exact decodeOctets_whole hb rfl old p
  | _ => simp [wireType, byteBounded] at hw hbounded

/-- `encodeBody` of a stream that succeeds `Drains` its source. -/
theorem streamed (hv : v.InRange) (h : (stream.encodeBody about sender v).result = .ok ()) :
    ∃ field chunks, v = .stream field ∧ StreamField.Drains about field chunks ∧
      (∀ n, field.declared = some n → n < Varint.limit) ∧
      (stream.encodeBody about sender v).bytes = (field.send about).bytes := by
  cases v <;> simp [encodeBody, Encoded.error] at h
  case stream field =>
    -- Writing the value is sending the field.
    have hsend : (field.send about).result = .ok () := by
      cases hs : (field.send about).result with
      | error e => simp [hs, Except.mapError] at h
      | ok u => rfl
    obtain ⟨chunks, hdrains⟩ := StreamField.send_drains hsend
    exact ⟨field, chunks, rfl, hdrains, hv, rfl⟩

end ValueType

end Storefront
