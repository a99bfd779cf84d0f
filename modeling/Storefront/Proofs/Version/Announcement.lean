import Storefront.Proofs.Schema.Body
import Storefront.Proofs.Version.Opening

/-! # What a client announces

A client may write any two version records into its opening message.  The core record goes along
where the other one has the request in its first form.  The reader sees the normal forms of both,
and the core record of its own build where none has come or none is looked for.

* `encode_opening`        an opening message is written without fail, in a few octets
* `decodeInto_opening`    what its reader comes to
-/

namespace Storefront

/-! ## Sizes -/

/-- `size` of a number of 32 bits is five at most. -/
theorem Varint.size_le_of_lt {n : Nat} (h : n < 2 ^ 32) : Varint.size n ≤ 5 := by
  have hlog : n.log2 < 32 := by
    by_cases hn : n = 0
    · subst hn
      decide
    · exact (Nat.log2_lt hn).2 h
  unfold Varint.size
  omega

/-- So `numbered` fields of small tags take six octets each at most. -/
theorem FieldIndex.length_octets_numbered (tag : Nat) (cs : List UInt32)
    (h : tag + cs.length ≤ 16) :
    ((FieldIndex.numbered tag cs).flatMap RawField.octets).length ≤ 6 * cs.length := by
  induction cs generalizing tag with
  | nil => exact Nat.le_refl 0
  | cons c cs ih =>
    rw [List.length_cons] at h
    -- Tags up to 15 leave the key below 128.
    have hkey : (Varint.encode (tag * 8 + WireType.varint.bits)).length = 1 := by
      have hsmall : tag * 8 + WireType.varint.bits < 128 := by
        show tag * 8 + 0 < 128
        omega
      rw [Varint.encode_of_lt hsmall]
      rfl
    have hvalue := Varint.size_le_of_lt c.toNat_lt
    have hrest := ih (tag + 1) (by omega)
    rw [FieldIndex.numbered, List.flatMap_cons, List.length_append, RawField.octets,
      List.length_append, hkey, List.length_cons]
    simp only [RawField.valueOctets, Varint.length_encode]
    omega

namespace VersionRecord

variable {family : Family}

/-- The octets of a record. -/
def octets (r : VersionRecord family) : Bytes := r.written.flatMap RawField.octets

/-- `octets` of a record are six at most for its revision and for each counter. -/
theorem length_octets_le (r : VersionRecord family) :
    r.octets.length ≤ 6 * (1 + family.features.length) := by
  have hversion := FieldIndex.length_octets_numbered 1 [r.version] (Nat.le_add_left 2 14)
  have hfeatures : family.features.length ≤ 4 := by cases family <;> decide
  have hcounters := FieldIndex.length_octets_numbered 3 r.counters (by
    rw [r.length_counters]
    omega)
  rw [List.length_singleton] at hversion
  rw [r.length_counters] at hcounters
  unfold octets written
  rw [List.flatMap_append, List.length_append]
  split
  · omega
  · rw [List.flatMap_nil, List.length_nil]
    omega

theorem length_octets_lt (r : VersionRecord family) : r.octets.length < 128 := by
  have hfeatures : family.features.length ≤ 4 := by cases family <;> decide
  have hle := r.length_octets_le
  omega

/-- In a field of a small tag its `octets` are two more. -/
theorem length_octets_field (tag : Nat) (htag : tag < 15) (r : VersionRecord family) :
    (RawField.octets ⟨tag, .len, r.octets⟩).length = r.octets.length + 2 := by
  have hkey : tag * 8 + WireType.len.bits < 128 := by
    have hbits := WireType.len.bits_lt
    omega
  simp only [RawField.octets, RawField.valueOctets, Wire.lenPrefixed, List.length_append,
    Varint.encode_of_lt hkey, Varint.encode_of_lt r.length_octets_lt, List.length_singleton]
  omega

/-- `decode` reads `octets` of a record into a new one as its `norm`. -/
theorem decode_octets (ctx : Context) (r : VersionRecord family) :
    (recordType family).decode ctx r.octets (ofLocal family).toFields =
      (r.norm.toFields, .ok ()) := by
  have hinitials : (recordType family).initials = (ofLocal family).toFields :=
    initials_layout family
  have hread := decode_encode ctx ctx r
  rw [encode_eq, hinitials] at hread
  exact hread

end VersionRecord

namespace Layout

variable {family : Family} {ctx : Context} {shown fields : List Value} {slot tag : Nat}
variable {initial : Value} {rest : Layout} {name : String} {r : VersionRecord family}

/-- `encode` of a field with a record puts its `octets` behind its tag and their length. -/
theorem encode_record (htag : tag ≤ maxTag) (hr : fields[slot]? = some r.toValue) :
    (field (.plain tag name) (VersionRecord.recordType family).type initial rest).encode ctx shown
        slot fields =
      (rest.encode ctx shown (slot + 1) fields).after (RawField.octets ⟨tag, .len, r.octets⟩) := by
  have hkey : Wire.key tag .len = .ok (Varint.encode (tag * 8 + WireType.len.bits)) :=
    if_neg (Nat.not_lt.2 htag)
  have hplain : (FieldMeta.plain tag name).tag = tag := rfl
  have hlen : (VersionRecord.recordType family).type.wireType = .len := rfl
  have hsize : r.octets.length < Varint.limit := Nat.lt_trans r.length_octets_lt (by decide)
  -- The record is written as a body of its own, without fail.
  have hbody : (VersionRecord.recordType family).type.encodeBody (.plain tag name) ctx r.toValue =
      .ok r.octets r.toValue := by
    show (if r.toFields.length = (VersionRecord.layout family).size then
      ((VersionRecord.recordType family).encode ctx r.toFields).map Value.record else _) = _
    rw [if_pos r.length_toFields, VersionRecord.encode_eq]
    rfl
  simp only [encode, hplain, hlen, hkey, hr, hbody, Encoded.ok, Encoded.enclose, hsize, if_true,
    Encoded.after, Encoded.map, Encoded.andThen, set_of_getElem? hr, RawField.octets,
    RawField.valueOctets]

end Layout

/-! ## Opening messages -/

variable {service : Service} {own : VersionRecord service.family} {core : VersionRecord .core}

/-- The fields that are written of an opening message. -/
def FieldIndex.opening {family : Family} (own : VersionRecord family)
    (core : VersionRecord .core) : FieldIndex :=
  ⟨1, .len, own.octets⟩ :: if own.bringsCore then [⟨3, .len, core.octets⟩] else []

/-- The core record that a reader of an opening message comes to. -/
def VersionRecord.heardWith {family : Family} (core : VersionRecord .core)
    (own : VersionRecord family) : VersionRecord .core :=
  if own.norm.bringsCore && own.bringsCore then core.norm else .ofLocal .core

namespace Layout

/-- The fields of `FieldIndex.opening` are what is written of both records. -/
theorem encode_initRequestLayout {family : Family} (ctx : Context) (name : String)
    (own : VersionRecord family) (core : VersionRecord .core) :
    (initRequestLayout family name).encode ctx [own.toValue, core.toValue] 0
        [own.toValue, core.toValue] =
      .ok ((FieldIndex.opening own core).flatMap RawField.octets) [own.toValue, core.toValue] := by
  have hown : [own.toValue, core.toValue][0]? = some own.toValue := rfl
  have hcore : [own.toValue, core.toValue][1]? = some core.toValue := rfl
  have hguard : (VersionRecord.ofValue own.toValue : VersionRecord family) = own :=
    VersionRecord.ofValue_toValue own
  rw [initRequestLayout_eq, encode_record (by decide) hown, encode]
  simp only [List.getElem?_cons_zero, Option.getD_some, hguard, FieldIndex.opening]
  by_cases hbrings : own.bringsCore = true
  · rw [if_pos hbrings, if_pos hbrings, coreVersion, encode_record (by decide) hcore]
    simp [encode, Encoded.andThen, Encoded.ok, Encoded.after]
  · rw [if_neg hbrings, if_neg hbrings]
    simp [encode, Encoded.andThen, Encoded.ok, Encoded.after]

end Layout

namespace FieldIndex

/-- Each field of `opening` is one that a reader takes whole. -/
theorem framed_of_mem_opening {family : Family} {own : VersionRecord family} {raw : RawField}
    {bound : Nat → Option Nat} (hbound : bound 1 = none ∧ bound 3 = none)
    (h : raw ∈ opening own core) : raw.tag ≤ maxTag ∧ raw.Framed (bound raw.tag) := by
  have hlen : ∀ {family : Family} (r : VersionRecord family), r.octets.length < Varint.limit :=
    fun r => Nat.lt_trans r.length_octets_lt (by decide)
  rcases List.mem_cons.1 h with rfl | h
  · refine ⟨(by decide : 1 ≤ maxTag), RawField.framed_len (hlen own) ?_⟩
    rw [hbound.1]
    rfl
  · split at h
    · rw [List.mem_singleton.1 h]
      refine ⟨(by decide : 3 ≤ maxTag), RawField.framed_len (hlen core) ?_⟩
      rw [hbound.2]
      rfl
    · cases h

/-- No tag stands twice in `opening`, and none is the format version. -/
theorem tags_opening {family : Family} (own : VersionRecord family) (core : VersionRecord .core) :
    ((opening own core).map (·.tag)).Nodup ∧ ∀ raw ∈ opening own core, raw.tag ≠ formatVersionTag := by
  unfold opening
  split
  · refine ⟨(by decide : [1, 3].Nodup), fun raw hraw => ?_⟩
    have htag : raw.tag ∈ [1, 3] := List.mem_map_of_mem hraw
    rintro hzero
    rw [hzero] at htag
    exact absurd htag (by decide)
  · refine ⟨(by decide : [1].Nodup), fun raw hraw => ?_⟩
    rw [List.mem_singleton.1 hraw]
    exact (by decide : 1 ≠ formatVersionTag)

/-- What `opening` writes `Opens` with both records. -/
theorem opens_opening {family : Family} (ctx : Context) (own : VersionRecord family)
    (core : VersionRecord .core) :
    (opening own core).Opens ctx (.ofLocal family) (.ofLocal .core) own.norm
      (core.heardWith own) := by
  constructor
  case own => exact ⟨rfl, own.decode_octets ctx⟩
  case core =>
    unfold VersionRecord.heardWith
    -- The reader's guard is on the normal form, the writer's on the record as it stands.
    by_cases hnorm : own.norm.bringsCore = true
    · rw [if_pos hnorm, hnorm, Bool.true_and]
      unfold GivesRecord opening
      by_cases hbrings : own.bringsCore = true
      · rw [if_pos hbrings, if_pos hbrings]
        exact ⟨rfl, core.decode_octets ctx⟩
      · rw [if_neg hbrings, if_neg hbrings]
        rfl
    · rw [if_neg hnorm, Bool.eq_false_iff.2 hnorm, Bool.false_and]
      rfl

end FieldIndex

namespace Message

/-- `encode` of an `opening` succeeds, with these octets. -/
theorem encode_opening (ctx : Context) (id : UInt64) (own : VersionRecord service.family)
    (core : VersionRecord .core) :
    (opening service id own core).encode ctx =
      .ok (RawField.octets ⟨formatVersionTag, .varint, Varint.encode formatVersion⟩ ++
        (FieldIndex.opening own core).flatMap RawField.octets) (opening service id own core) := by
  obtain ⟨name, hrecord⟩ := recordType_initRequest service
  have hfields := Layout.encode_initRequestLayout ctx name own core
  have htype : (opening service id own core).type.recordType =
    { name := "InitRequest", layout := initRequestLayout service.family name } := hrecord
  have hkey : Wire.key formatVersionTag .varint =
    .ok (Varint.encode (formatVersionTag * 8 + WireType.varint.bits)) := rfl
  unfold encode RecordType.encodeMessage RecordType.encode
  rw [htype, hkey]
  show ((Layout.encode _ ctx [own.toValue, core.toValue] 0 [own.toValue, core.toValue]).after _).map
    _ = _
  rw [hfields]
  rfl

/-- So it takes 64 octets at most. -/
theorem length_encode_opening (ctx : Context) (id : UInt64) (own : VersionRecord service.family)
    (core : VersionRecord .core) :
    ((opening service id own core).encode ctx).bytes.length ≤ 64 := by
  have hfeatures : service.family.features.length = 1 := by cases service <;> rfl
  have hown := own.length_octets_le
  have hcore : core.octets.length ≤ 30 := core.length_octets_le
  have hversion : (RawField.octets ⟨formatVersionTag, .varint,
    Varint.encode formatVersion⟩).length = 2 := by decide
  rw [hfeatures] at hown
  rw [encode_opening]
  simp only [Encoded.ok, List.length_append, hversion, FieldIndex.opening, List.flatMap_cons,
    own.length_octets_field 1 (by decide)]
  split
  · rw [List.flatMap_singleton, core.length_octets_field 3 (by decide)]
    omega
  · rw [List.flatMap_nil, List.length_nil]
    omega

/-- `decodeInto` reads an `opening` as the normal forms of its records. -/
theorem decodeInto_opening (sender receiver : Context) (id : UInt64)
    (own : VersionRecord service.family) (core : VersionRecord .core) :
    decodeInto receiver ((opening service id own core).encode sender).bytes
        (new service.initRequest) =
      (opening service 0 own.norm (core.heardWith own), .ok ()) := by
  have hbound : service.initRequest.recordType.layout.byteBound 1 = none ∧
      service.initRequest.recordType.layout.byteBound 3 = none := by
    cases service <;> exact ⟨rfl, rfl⟩
  have hformat : formatVersion < Varint.limit := by decide
  obtain ⟨hnodup, htags⟩ := FieldIndex.tags_opening own core
  -- The body is indexed with the format version in front, and looked at without it.
  obtain ⟨index, hindex, hversion, hwithout⟩ := RecordType.index_of_version hformat
    (fun raw hraw => FieldIndex.framed_of_mem_opening hbound hraw) hnodup htags
  have hopens : index.Opens receiver (.ofLocal service.family) (.ofLocal .core) own.norm
      (core.heardWith own) := by
    rw [← FieldIndex.opens_without, hwithout]
    exact FieldIndex.opens_opening receiver own core
  have hrecord : service.initRequest.recordType.index
      ((opening service id own core).encode sender).bytes = .ok index := by
    rw [encode_opening, RecordType.index]
    exact congrArg (Except.mapError _) hindex
  exact decodeInto_of_opens (m := .new service.initRequest) rfl (fields_new_initRequest service)
    hrecord hversion hopens

end Message

end Storefront
