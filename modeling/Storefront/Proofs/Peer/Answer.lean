import Storefront.Proofs.Store.Message
import Storefront.Proofs.Version.Announcement

/-! # The answer to an opening message

The answer carries a result and a text, but only between two peers that both have it in their core
records in its first form.  A reader without them reads a result that was never set.

* `decode_initResponse`   what is left of an answer for its reader
-/

namespace Storefront

/-- True when the answer to an opening message carries its result. -/
def Context.tellsResult (ctx : Context) : Bool := CoreMessage.resultPresent [] ctx

namespace Message

/-- The answer to an opening message. -/
def initResponse (id : UInt64) (status : Status) (text : String) : Message :=
  ⟨.core .initResponse, { requestId := id }, [.number status.code, .text text]⟩

variable {sender receiver : Context} {id : UInt64} {status : Status} {text : String}

/-- An answer with a status of 32 bits is `Regular`. -/
theorem regular_initResponse (h : Width.u32.admits status.code = true) :
    (initResponse id status text).Regular where
  type := Bool.false_ne_true
  fields := by
    show (true && ((Width.u32.admits status.code && (true && true)) && true)) = true
    rw [h]
    rfl
  version := nofun

/-- What is left of the fields of an answer for its reader. -/
def told (sender receiver : Context) (status : Status) (text : String) : List Value :=
  if sender.tellsResult && receiver.tellsResult then [.number status.code, .text text]
  else [.number unsetStatus, .text ""]

/-- The places of the fields of an answer. -/
def resultPlaces : List Place :=
  [⟨0, .plain 1 "error", .status⟩, ⟨1, .plain 2 "message", .text⟩]

/-- `walk` over an `initResponse` comes to both fields or to none. -/
theorem walk_initResponse (ctx : Context) (shown : List Value) :
    (CoreMessage.initResponse.recordType.layout).walk ctx shown 0 =
      if ctx.tellsResult then resultPlaces else [] := by
  show (if ctx.tellsResult then resultPlaces else []) ++ [] = _
  rw [List.append_nil]

/-- What is delivered of an answer is `told`. -/
theorem fields_of_delivered {got : List Value} (hstatus : Width.u32.admits status.code = true)
    (h : (CoreMessage.initResponse.recordType.layout).Delivered sender receiver
      [.number status.code, .text text] got) :
    got = told sender receiver status text := by
  have hregular : (initResponse 0 status text).Regular := regular_initResponse hstatus
  have hholds := (Bool.and_eq_true_iff.1 hregular.fields).2
  have hlength : got.length = 2 := h.length
  obtain ⟨result, message, rfl⟩ := List.length_eq_two.1 hlength
  unfold told
  by_cases hboth : (sender.tellsResult && receiver.tellsResult) = true
  · rw [if_pos hboth]
    obtain ⟨hsender, hreceiver⟩ := Bool.and_eq_true_iff.1 hboth
    -- Both walks come to both fields, and neither of them is a stream.
    have hkept : ∀ p ∈ resultPlaces, p.type.streamFree = true →
        [result, message][p.slot]? = [Value.number status.code, .text text][p.slot]? := by
      intro p hp hfree
      apply h.eq_of_streamFree hholds _ _ hfree
      · rwa [walk_initResponse, if_pos hsender]
      · rwa [walk_initResponse, if_pos hreceiver]
    have hresult := hkept _ List.mem_cons_self rfl
    have hmessage := hkept _ (List.mem_cons_of_mem _ List.mem_cons_self) rfl
    rw [Option.some.inj hresult, Option.some.inj hmessage]
  · rw [if_neg hboth]
    have hnew : ∀ p ∈ resultPlaces,
        [result, message][p.slot]? = [Value.number unsetStatus, .text ""][p.slot]? := by
      intro p hp
      apply h.absent p hp
      rintro ⟨hsender, hreceiver⟩
      -- A field that both come to is one that both tell of.
      rw [walk_initResponse] at hsender hreceiver
      split at hsender
      · split at hreceiver
        · exact hboth (Bool.and_eq_true_iff.2 ⟨‹_›, ‹_›⟩)
        · cases hreceiver
      · cases hsender
    have hresult := hnew _ List.mem_cons_self
    have hmessage := hnew _ (List.mem_cons_of_mem _ List.mem_cons_self)
    rw [Option.some.inj hresult, Option.some.inj hmessage]

/-- An answer that could be written is read as what is `told` of it. -/
theorem decode_initResponse (hstatus : Width.u32.admits status.code = true)
    (hok : ((initResponse id status text).encode sender).result = .ok ()) (receiver : Context) :
    decode receiver (.core .initResponse) ((initResponse id status text).encode sender).bytes =
      .ok ⟨.core .initResponse, {}, told sender receiver status text⟩ := by
  obtain ⟨got, hdecode, hdelivered⟩ := (regular_initResponse hstatus).decode_encode hok
  rw [fields_of_delivered hstatus hdelivered] at hdecode
  exact hdecode

/-- The fields that are written of an answer. -/
def resultFields (ctx : Context) (status : Status) (text : String) : FieldIndex :=
  if ctx.tellsResult then
    [⟨1, .varint, Varint.encode status.code⟩, ⟨2, .len, Bytes.ofText text⟩]
  else []

/-- The group of the result. -/
def resultLayout : Layout :=
  .field (.plain 1 "error") .status (.number unsetStatus)
    (.field (.plain 2 "message") .text (.text "") .nil)

/-- `encode` of result and text succeeds. -/
theorem encode_resultLayout (hstatus : Width.u32.admits status.code = true)
    (htext : (Bytes.ofText text).length < Varint.limit) (ctx : Context) (shown : List Value) :
    resultLayout.encode ctx shown 0 [.number status.code, .text text] =
      .ok (RawField.octets ⟨1, .varint, Varint.encode status.code⟩ ++
        RawField.octets ⟨2, .len, Bytes.ofText text⟩) [.number status.code, .text text] := by
  have hfirst : Wire.key 1 .varint = .ok (Varint.encode (1 * 8 + WireType.varint.bits)) := rfl
  have hsecond : Wire.key 2 .len = .ok (Varint.encode (2 * 8 + WireType.len.bits)) := rfl
  have hbound : ∀ about : FieldMeta, about.maxSize = none →
      encodeOctets about (Bytes.ofText text) (.text text) =
        .ok (Bytes.ofText text) (.text text) := by
    intro about hmax
    rw [encodeOctets, hmax]
    rfl
  simp [resultLayout, Layout.encode, ValueType.wireType, hfirst, hsecond, ValueType.encodeBody,
    encodeNumber, hstatus, hbound, htext, Encoded.enclose, Encoded.after, Encoded.map,
    Encoded.andThen, Encoded.ok, RawField.octets, RawField.valueOctets, FieldMeta.plain]

/-- `encode` of an `initResponse` succeeds, with these octets. -/
theorem encode_initResponse (hstatus : Width.u32.admits status.code = true)
    (htext : (Bytes.ofText text).length < Varint.limit) (ctx : Context) (id : UInt64) :
    (initResponse id status text).encode ctx =
      .ok (RawField.octets ⟨formatVersionTag, .varint, Varint.encode formatVersion⟩ ++
        (resultFields ctx status text).flatMap RawField.octets) (initResponse id status text) := by
  have hlayout : (initResponse id status text).type.recordType.layout =
      .group "result" CoreMessage.resultPresent resultLayout .nil := rfl
  have hguard : ∀ shown, CoreMessage.resultPresent shown ctx = ctx.tellsResult := fun _ => rfl
  have hkey : Wire.key formatVersionTag .varint =
    .ok (Varint.encode (formatVersionTag * 8 + WireType.varint.bits)) := rfl
  have hfields : (initResponse id status text).fields = [.number status.code, .text text] := rfl
  unfold encode RecordType.encodeMessage RecordType.encode resultFields
  simp only [hkey, hlayout, hfields, Layout.encode, hguard]
  by_cases htells : ctx.tellsResult = true
  · rw [if_pos htells, if_pos htells, encode_resultLayout hstatus htext]
    simp [Encoded.andThen, Encoded.after, Encoded.map, Encoded.ok, RawField.octets, initResponse,
      RawField.valueOctets]
  · rw [if_neg htells, if_neg htells]
    simp [Encoded.andThen, Encoded.after, Encoded.map, Encoded.ok, RawField.octets, initResponse,
      RawField.valueOctets]

/-- `encode` of an `initResponse` takes ten octets at most more than its text. -/
theorem length_encode_initResponse (hstatus : Width.u32.admits status.code = true)
    (htext : (Bytes.ofText text).length < 128) (ctx : Context) (id : UInt64) :
    ((initResponse id status text).encode ctx).bytes.length ≤ (Bytes.ofText text).length + 10 := by
  have hversion : (RawField.octets ⟨formatVersionTag, .varint,
    Varint.encode formatVersion⟩).length = 2 := by decide
  -- The status is written in 32 bits at most, and each key and the length in one octet.
  have hcode : Varint.size status.code ≤ 5 := Varint.size_le_of_lt (of_decide_eq_true hstatus)
  rw [encode_initResponse hstatus (Nat.lt_trans htext (by decide)), resultFields]
  simp only [Encoded.ok, List.length_append, hversion]
  split
  · have hfirst : (Varint.encode (1 * 8 + WireType.varint.bits)).length = 1 := by decide
    have hsecond : (Varint.encode (2 * 8 + WireType.len.bits)).length = 1 := by decide
    simp only [List.flatMap_cons, List.flatMap_nil, List.append_nil, List.length_append,
      RawField.octets, RawField.valueOctets, Wire.lenPrefixed, hfirst, hsecond,
      Varint.length_encode, Varint.encode_of_lt htext, List.length_singleton]
    omega
  · rw [List.flatMap_nil, List.length_nil]
    omega

end Message

end Storefront
