import Storefront.Proofs.Schema.Failure
import Storefront.Proofs.Store.Message
import Storefront.Proofs.Wire.Contents

/-! # Structural versions are never negotiated away

Six messages embed a record and say under tag 1 which structural version it was written under.  No
connection can settle on another version: the hook of such a message compares what has been read
with the version that this build was made for, whatever the context.  It comes after the whole walk,
so a body that is refused for its version is one whose other fields could all be read.

* `Layout.decode_ok_of_reads`    a walk fails only at a field that cannot be read
* `MainMessage.Embeds.read`      the first field of what has been read is the version of the body
* `structural_version_enforced`  what this comes to for the six messages
-/

namespace Storefront

open Grammar

/-! ## Fields by tag -/

namespace FieldIndex

/-- `find?` of the tag of a field is that field, also when another tag is left out. -/
theorem find?_without_raw {fields : List Field} (hnodup : (fields.map Field.tag).Nodup) {f : Field}
    (hf : f ∈ fields) {out : Nat} (hout : f.tag ≠ out) :
    ((without (fields.map Field.raw) out).find? f.tag) = some f.raw := by
  have hnodup' : ((fields.map Field.raw).map (·.tag)).Nodup := by rwa [List.map_map]
  rw [find?_without, if_neg hout]
  exact (find?_eq_some_iff hnodup').2 ⟨List.mem_map_of_mem hf, rfl⟩

/-- `find?` of a tag is a field with that tag. -/
theorem exists_of_find? {fields : List Field} {tag : Nat} {raw : RawField}
    (h : find? (fields.map Field.raw) tag = some raw) :
    ∃ f ∈ fields, f.tag = tag ∧ f.raw = raw := by
  have htag : raw.tag = tag := by simpa using List.find?_some h
  obtain ⟨f, hf, rfl⟩ := List.mem_map.1 (List.mem_of_find?_eq_some h)
  exact ⟨f, hf, htag, rfl⟩

end FieldIndex

/-- `varint` reads a field that spells a number as that number. -/
theorem Grammar.Field.varint_of_number {f : Field} {n : Number} (h : f.value = .number n) :
    f.raw.type = .varint ∧ Cursor.varint f.raw.cursor = .ok n.value ⟨0 + n.octets.length, []⟩ := by
  have hcursor : f.raw.cursor = ⟨0, n.octets ++ []⟩ := by
    simp [Field.raw, RawField.cursor, Cursor.start, h, Value.body]
  refine ⟨by simp [Field.raw, h, Value.type], ?_⟩
  rw [hcursor]
  exact takes_number n 0 []

/-- `index` of a record type is `ofBody` under the bounds of its layout, with its error wrapped. -/
theorem RecordType.index_eq_ok {r : RecordType} {body : Bytes} {index : FieldIndex} :
    r.index body = .ok index ↔ FieldIndex.ofBody r.layout.byteBound body = .ok index := by
  rw [RecordType.index]
  cases FieldIndex.ofBody r.layout.byteBound body <;> simp [Except.mapError]

/-- `decode` fails only at a place whose octets cannot be read. -/
theorem Layout.decode_ok_of_reads {layout : Layout} {ctx : Context} {index : FieldIndex}
    {before : List Value} (hsize : before.length = layout.size)
    (hreads : ∀ p ∈ layout.places 0, ∀ raw old, index.find? p.about.tag = some raw →
      before[p.slot]? = some old → raw.type = p.type.wireType ∧
        (p.type.decodeBody p.about ctx old raw.cursor).result = .ok ()) :
    ∃ got, layout.decode ctx index 0 before = (got, .ok ()) := by
  cases hwalk : layout.decode ctx index 0 before with
  | mk got result =>
    cases result with
    | ok u => exact ⟨got, rfl⟩
    | error e =>
      -- The last place that the walk has come to has failed, and that place can be read.
      obtain ⟨hended, -⟩ := layout.decode_tracks (by omega) hwalk
      obtain ⟨read, p, hvisited, -, raw, old, hfound, hold, hfails⟩ := hended.exists_of_error
      have hp : p ∈ layout.visited ctx index 0 before := by rw [hvisited]; simp
      obtain ⟨htype, hread⟩ := hreads p (Layout.mem_places_of_visited hp) raw old hfound hold
      rcases hfails with ⟨hne, -, -⟩ | ⟨-, v, c, hx, -⟩
      · exact absurd htype hne
      · rw [hx] at hread
        cases hread

/-- `decode` of a message is `decodeMessage` into the `initials` of its type. -/
theorem Message.decode_eq (ctx : Context) (type : MessageType) (body : Bytes) :
    decode ctx type body =
      match type.recordType.decodeMessage ctx body type.recordType.initials with
      | (fields, .ok ()) => .ok ⟨type, {}, fields⟩
      | (_, .error e) => .error e := by
  have hinto : decodeInto ctx body (new type) =
      (let x := type.recordType.decodeMessage ctx body type.recordType.initials
      (⟨type, {}, x.1⟩, x.2)) := rfl
  rw [decode, hinto]
  rcases type.recordType.decodeMessage ctx body type.recordType.initials with ⟨fields, result⟩
  cases result <;> rfl

/-! ## Messages that embed a record -/

namespace MainMessage

/-- The messages that embed a record, each with the record whose structural version it carries. -/
def carriers : List (MainMessage × DomainRecord) :=
  [(listStoreResponse, .listStoreNode), (fetchAppResponse, .application),
    (fetchBuildResponse, .build), (fetchBuildConfigurationResponse, .configuration),
    (createAppRequest, .application), (createBuildRequest, .build)]

/-- The tag of structural versions in messages. -/
def versionTag : Nat := 1

/-- `carriers` are all messages with `embedded?`. -/
theorem mem_carriers_iff {m : MainMessage} {record : DomainRecord} :
    (m, record) ∈ carriers ↔ m.embedded? = some record := by
  cases m <;> simp [carriers, embedded?, eq_comm]

/-- How a message embeds a record: its first field is the version of the record, and no other field
has that tag.  The others start as new fields of their types do. -/
structure Embeds (m : MainMessage) (record : DomainRecord) : Prop where
  layout : ∃ name rest, m.layout = embeddedVersion name record rest
  first : ∀ p ∈ m.layout.places 0, p.about.tag = versionTag → p.type = .unsigned .u32
  others : ∀ p ∈ m.layout.places 0, p.about.tag ≠ versionTag →
    m.layout.initials[p.slot]? = some p.type.initial
  hook : m.recordType.hook = some (.structural record.name record.version)

theorem embeds_of_mem {m : MainMessage} {record : DomainRecord} (h : (m, record) ∈ carriers) :
    m.Embeds record := by
  have hembedded := mem_carriers_iff.1 h
  refine ⟨?_, ?_, ?_, by simp [recordType, hembedded]⟩
  · -- six layouts, of which each begins with `embeddedVersion`
    cases m <;> simp [embedded?] at hembedded <;> subst hembedded <;> exact ⟨_, _, rfl⟩
  · cases m <;> simp [embedded?] at hembedded <;>
      simp [MainMessage.layout, Layout.build, Layout.plain, Layout.bounded, embeddedVersion,
        Layout.starting, Layout.places, FieldMeta.plain, versionTag]
  · cases m <;> simp [embedded?] at hembedded <;>
      simp [MainMessage.layout, Layout.build, Layout.plain, Layout.bounded, embeddedVersion,
        Layout.starting, Layout.places, Layout.initials, FieldMeta.plain, versionTag]

/-- What a reader knows of a body can be read, save for what stands under the tag of the structural
version: the format version is a number, and the rest are values of the types that the message has
for their tags. -/
structure OthersRead (m : MainMessage) (ctx : Context) (fields : List Field) : Prop where
  format : ∀ f ∈ fields, f.tag = formatVersionTag → ∃ n, f.value = .number n
  known : ∀ x ∈ m.layout.declared, x.1.tag ≠ versionTag → ∀ f ∈ fields, f.tag = x.1.tag →
    f.value.type = x.2.wireType ∧
      (x.2.decodeBody x.1 ctx x.2.initial f.raw.cursor).result = .ok ()

theorem OthersRead.checkFormatVersion_eq {m : MainMessage} {ctx : Context} {fields : List Field}
    (h : m.OthersRead ctx fields) : checkFormatVersion (fields.map Field.raw) = .ok () := by
  refine checkFormatVersion_eq_ok.2 fun raw hraw => ?_
  obtain ⟨f, hf, htag, rfl⟩ := FieldIndex.exists_of_find? hraw
  obtain ⟨n, hn⟩ := h.format f hf htag
  exact ⟨(Field.varint_of_number hn).1, _, _, (Field.varint_of_number hn).2⟩

namespace Embeds

variable {m : MainMessage} {record : DomainRecord} {ctx : Context} {index : FieldIndex}
  {got : List Value} {fields : List Field} {f : Field} {n : Number}

/-- `decode` reads the version from the octets under its tag.  Without any it is the one of
this build. -/
theorem read (h : m.Embeds record)
    (hwalk : m.layout.decode ctx index 0 m.layout.initials = (got, .ok ())) :
    (index.find? versionTag = none ∧ Layout.number got 0 = record.version) ∨
      ∃ raw n c, index.find? versionTag = some raw ∧ raw.type = .varint ∧
        Cursor.varint raw.cursor = .ok n c ∧ Layout.number got 0 = n := by
  obtain ⟨name, rest, hlayout⟩ := h.layout
  have hlength : 0 + m.layout.size ≤ m.layout.initials.length := by simp
  obtain ⟨hended, -⟩ := m.layout.decode_tracks hlength hwalk
  rw [hlayout] at hended
  -- Every walk over the message starts at the version.
  have hread := hended.isRead ⟨0, .plain 1 name, .unsigned .u32⟩
    (by simp [Layout.visited, Layout.visits, embeddedVersion, Layout.starting])
  rcases hread with ⟨hnone, hsame⟩ | ⟨raw, old, v, c, hfound, htype, -, hread, hv⟩
  · refine .inl ⟨hnone, ?_⟩
    have hfirst : got[0]? = some (.number record.version) := hsame
    rw [Layout.number, hfirst]
    rfl
  · -- a `u32` is read by `decodeNumber`
    have hresult : (decodeNumber (.plain 1 name) (decodeUnsigned .u32) old raw.cursor) =
      ⟨v, c, .ok ()⟩ := hread
    unfold decodeNumber at hresult
    cases hn : Cursor.varint raw.cursor with
    | error e c' => simp [hn] at hresult
    | ok n c' =>
      simp only [hn] at hresult
      cases hunsigned : decodeUnsigned .u32 n with
      | error defect => simp [hunsigned] at hresult
      | ok w =>
        -- What stands in the first field is the number itself.
        obtain ⟨rfl, -⟩ := decodeUnsigned_ok hunsigned
        simp only [hunsigned, Decoded.mk.injEq] at hresult
        have hfirst : got[0]? = some (.number n) := by rw [hresult.1]; exact hv
        refine .inr ⟨raw, n, c', hfound, htype, hn, ?_⟩
        rw [Layout.number, hfirst]
        rfl

/-- `decode` that succeeds has read the version that a body says, which is a number. -/
theorem number_of_field (h : m.Embeds record) (hnodup : (fields.map Field.tag).Nodup)
    (hf : f ∈ fields) (htag : f.tag = versionTag)
    (hwalk : m.layout.decode ctx (FieldIndex.without (fields.map Field.raw) formatVersionTag) 0
      m.layout.initials = (got, .ok ())) :
    ∃ n, f.value = .number n ∧ Layout.number got 0 = n.value := by
  have hout : f.tag ≠ formatVersionTag := by rw [htag]; decide
  have hfound := FieldIndex.find?_without_raw hnodup hf hout
  rw [htag] at hfound
  -- the tag is in the index, so it is not the version of this build by default
  rcases h.read hwalk with ⟨hnone, -⟩ | ⟨raw, n, c, hraw, htype, hn, hnumber⟩
  · rw [hfound] at hnone
    cases hnone
  · obtain rfl : f.raw = raw := Option.some.inj (hfound.symm.trans hraw)
    -- A value of this wire type is a number, and it is read as what it spells.
    cases hvalue : f.value with
    | octets | stream => simp [Field.raw, hvalue, Value.type] at htype
    | number k =>
      rw [(Field.varint_of_number hvalue).2] at hn
      cases hn
      exact ⟨k, rfl, hnumber⟩

/-- `Message.decode` that succeeds was of a body with the version of this build, or with none. -/
theorem version_of_decode (h : m.Embeds record) {body : Bytes} {message : Message}
    (hdecode : Message.decode ctx (.main m) body = .ok message) :
    ∃ fields : List Field, fields.flatMap Field.octets = body ∧ (fields.map Field.tag).Nodup ∧
      ∀ f ∈ fields, f.tag = versionTag → ∃ n, f.value = .number n ∧ n.value = record.version := by
  rw [Message.decode_eq_ok, Message.decodeInto, Prod.mk.injEq] at hdecode
  have hread : (m.recordType.decodeMessage ctx body m.layout.initials).2 = .ok () := hdecode.2
  -- A message that has been read has come through the index, the format version, the walk and the
  -- hook.
  unfold RecordType.decodeMessage at hread
  cases hindex : m.recordType.index body with
  | error e => simp [hindex] at hread
  | ok index =>
    simp only [hindex] at hread
    obtain ⟨fields, hnodup, hoctets, -, rfl⟩ :=
      FieldIndex.ofBody_eq_ok.1 (RecordType.index_eq_ok.1 hindex)
    refine ⟨fields, hoctets, hnodup, fun f hf htag => ?_⟩
    cases hformat : checkFormatVersion (fields.map Field.raw) with
    | error e => simp [hformat] at hread
    | ok u =>
      simp only [hformat, RecordType.decodeIndexed, h.hook] at hread
      generalize hwalk : m.recordType.layout.decode ctx _ 0 m.layout.initials = walk at hread
      obtain ⟨got, result⟩ := walk
      cases result with
      | error e => simp at hread
      | ok u =>
        -- The hook has let the number in the first field pass.
        obtain ⟨n, hvalue, hnumber⟩ := h.number_of_field hnodup hf htag hwalk
        refine ⟨n, hvalue, ?_⟩
        rw [← hnumber]
        by_contra hne
        simp [Hook.structural, checkStructural, Ne.symm hne] at hread

/-- `decode` of the layout succeeds with `OthersRead`, whichever version the body says. -/
theorem walk_of_othersRead (h : m.Embeds record) (hnodup : (fields.map Field.tag).Nodup)
    (hothers : m.OthersRead ctx fields) (hf : f ∈ fields) (htag : f.tag = versionTag)
    (hvalue : f.value = .number n) (hlt : n.value < 2 ^ 32) :
    ∃ got, m.layout.decode ctx (FieldIndex.without (fields.map Field.raw) formatVersionTag) 0
      m.layout.initials = (got, .ok ()) := by
  refine Layout.decode_ok_of_reads (by simp) fun p hp raw old hraw hold => ?_
  rw [FieldIndex.find?_without] at hraw
  -- `without` hides the format version from the walk
  split at hraw
  · cases hraw
  · obtain ⟨g, hg, hgtag, rfl⟩ := FieldIndex.exists_of_find? hraw
    by_cases hversion : p.about.tag = versionTag
    · -- The version itself is a number of 32 bits, whether it is the expected one or not.
      obtain rfl : f = g := List.inj_on_of_nodup_map hnodup hf hg (by rw [htag, hgtag, hversion])
      obtain ⟨htype, hread⟩ := Field.varint_of_number hvalue
      have hadmits : Width.u32.admits n.value = true := decide_eq_true hlt
      rw [h.first p hp hversion]
      refine ⟨htype, ?_⟩
      show (decodeNumber p.about (decodeUnsigned .u32) old f.raw.cursor).result = _
      simp [decodeNumber, hread, decodeUnsigned, hadmits]
    · -- Any other field is read into what a new field of its type holds.
      have hinitial := h.others p hp hversion
      obtain rfl : p.type.initial = old := Option.some.inj (hinitial.symm.trans hold)
      have hdeclared : (p.about, p.type) ∈ m.layout.declared := by
        rw [← m.layout.map_places 0]
        exact List.mem_map_of_mem hp
      exact hothers.known _ hdeclared hversion g hg hgtag

/-- `Message.decode` with `OthersRead` and another version fails with `structuralVersion`. -/
theorem refused_of_version (h : m.Embeds record)
    (hindex : m.recordType.index (fields.flatMap Field.octets) = .ok index)
    (hothers : m.OthersRead ctx fields) (hf : f ∈ fields) (htag : f.tag = versionTag)
    (hvalue : f.value = .number n) (hlt : n.value < 2 ^ 32) (hne : n.value ≠ record.version) :
    Message.decode ctx (.main m) (fields.flatMap Field.octets) =
      .error (.structuralVersion record.name record.version n.value) := by
  obtain ⟨found, hnodup, hoctets, -, rfl⟩ :=
    FieldIndex.ofBody_eq_ok.1 (RecordType.index_eq_ok.1 hindex)
  -- The fields that were found are those that were given.
  obtain rfl := fields_unique hoctets
  have hformat := hothers.checkFormatVersion_eq
  obtain ⟨got, hwalk⟩ := h.walk_of_othersRead hnodup hothers hf htag hvalue hlt
  obtain ⟨k, hk, hnumber⟩ := h.number_of_field hnodup hf htag hwalk
  obtain rfl : n = k := Grammar.Value.number.inj (hvalue.symm.trans hk)
  -- the walk has put `n` into slot 0, where the hook looks
  have hhook : Hook.structural record.name record.version got ctx =
      .error (.structuralVersion record.name record.version n.value) := by
    simp [Hook.structural, checkStructural, hnumber, Ne.symm hne]
  have hread : m.recordType.decodeMessage ctx (found.flatMap Field.octets) m.layout.initials =
      (got, .error (.structuralVersion record.name record.version n.value)) := by
    have hwalk' : m.recordType.layout.decode ctx _ 0 m.layout.initials = (got, .ok ()) := hwalk
    simp only [RecordType.decodeMessage, hindex, hformat, RecordType.decodeIndexed, hwalk', h.hook,
      hhook]
  have hread' : (MessageType.main m).recordType.decodeMessage ctx (found.flatMap Field.octets)
      (MessageType.main m).recordType.initials = _ := hread
  rw [Message.decode_eq, hread']

end Embeds

/-- `Message.decode` of one of the `carriers` succeeds only if the body says nothing under
`versionTag` or says the version of the embedded record.  A body that says another one, in
whatever place among its fields, is answered by `structuralVersion` if all else in it that the
reader knows can be read.  What the reader does not know, and what is negotiated in `ctx`, makes
no difference. -/
theorem structural_version_enforced :
    ∀ x ∈ carriers, ∀ ctx : Context,
      (∀ (body : Bytes) (message : Message), Message.decode ctx (.main x.1) body = .ok message →
        ∃ fields : List Field, fields.flatMap Field.octets = body ∧ (fields.map Field.tag).Nodup ∧
          ∀ f ∈ fields, f.tag = versionTag →
            ∃ n, f.value = .number n ∧ n.value = x.2.version) ∧
      ∀ (fields : List Field) (index : FieldIndex),
        x.1.recordType.index (fields.flatMap Field.octets) = .ok index →
        x.1.OthersRead ctx fields →
        ∀ f ∈ fields, f.tag = versionTag → ∀ n : Number, f.value = .number n → n.value < 2 ^ 32 →
          n.value ≠ x.2.version →
            Message.decode ctx (.main x.1) (fields.flatMap Field.octets) =
              .error (.structuralVersion x.2.name x.2.version n.value) := by
  rintro ⟨m, record⟩ hx ctx
  have hembeds := embeds_of_mem hx
  constructor
  · exact fun body message h => hembeds.version_of_decode h
  · intro fields index hindex hothers f hf htag n hvalue hlt hne
    exact hembeds.refused_of_version hindex hothers hf htag hvalue hlt hne

/-- A small number as it is written. -/
def smallNumber (n : Fin 128) : Number := .written (n := n) (Nat.lt_trans n.isLt (by decide))

/-- The key of a field with a small tag. -/
def smallKey (tag : Fin 15) (type : WireType) : Number :=
  smallNumber ⟨tag * 8 + type.bits, by have := type.bits_lt; omega⟩

theorem fits_of_small (tag : Fin 15) : (tag : Nat) ≤ maxTag :=
  Nat.le_trans (Nat.le_of_lt tag.isLt) (by decide)

/-- The fields of a request to create an application: one of a newer build, the application, the
format version, and the given structural version behind all of them. -/
def newerFields (version : Number) : List Field :=
  [⟨smallKey 9 .varint, 9, .number (smallNumber 5), fits_of_small 9, rfl⟩,
    ⟨smallKey 2 .len, 2, .octets (smallNumber 3) [0x0A, 0x01, 0x61] rfl, fits_of_small 2, rfl⟩,
    ⟨smallKey 0 .varint, 0, .number (smallNumber 1), fits_of_small 0, rfl⟩,
    ⟨smallKey 1 .varint, 1, .number version, fits_of_small 1, rfl⟩]

/-- `decode` of version 2, which is not spelled as short as it could be, from a peer with the same
features, and of version 1. -/
theorem structural_version_enforced_newer :
    (createAppRequest, DomainRecord.application) ∈ carriers ∧
      createAppRequest.OthersRead .ofLocal (newerFields ⟨[0x82, 0x00], 2, by decide⟩) ∧
      Message.decode .ofLocal (.main createAppRequest)
          [0x48, 0x05, 0x12, 0x03, 0x0A, 0x01, 0x61, 0x00, 0x01, 0x08, 0x82, 0x00] =
        .error (.structuralVersion "Application" 1 2) ∧
      (∃ message, Message.decode .ofLocal (.main createAppRequest)
          [0x48, 0x05, 0x12, 0x03, 0x0A, 0x01, 0x61, 0x00, 0x01, 0x08, 0x01] = .ok message) ∧
      ∃ fields : List Field, fields.flatMap Field.octets =
          [0x48, 0x05, 0x12, 0x03, 0x0A, 0x01, 0x61, 0x00, 0x01, 0x08, 0x01] ∧
        (fields.map Field.tag).Nodup ∧
          ∀ f ∈ fields, f.tag = versionTag → ∃ n, f.value = .number n ∧ n.value = 1 := by
  have hx : (createAppRequest, DomainRecord.application) ∈ carriers := by decide
  have hothers : createAppRequest.OthersRead .ofLocal
      (newerFields ⟨[0x82, 0x00], 2, by decide⟩) := by
    constructor
    · intro f hf htag
      simp [newerFields, formatVersionTag] at hf htag
      obtain rfl | rfl | rfl | rfl := hf <;> simp_all
    · intro x hx hne f hf htag
      have hdeclared : createAppRequest.layout.declared =
        [(.plain 1 "application_version", .unsigned .u32),
          (.plain 2 "application", DomainRecord.application.type)] := rfl
      simp only [hdeclared, List.mem_cons, List.not_mem_nil, or_false] at hx
      obtain rfl | rfl := hx
      · exact absurd rfl hne
      · simp [newerFields, FieldMeta.plain] at hf htag
        obtain rfl | rfl | rfl | rfl := hf <;> simp at htag
        -- Of the four fields the application is the one that has its tag.
        exact ⟨rfl, by decide +kernel⟩
  obtain ⟨hread, hrefused⟩ := structural_version_enforced _ hx .ofLocal
  -- The version that is refused stands last in the body.
  have hindex : createAppRequest.recordType.index
      ((newerFields ⟨[0x82, 0x00], 2, by decide⟩).flatMap Field.octets) =
        .ok ((newerFields ⟨[0x82, 0x00], 2, by decide⟩).map Field.raw) :=
    RecordType.index_eq_ok.2 (by decide +kernel)
  cases hdecode : Message.decode .ofLocal (.main createAppRequest)
      [0x48, 0x05, 0x12, 0x03, 0x0A, 0x01, 0x61, 0x00, 0x01, 0x08, 0x01] with
  | error e =>
    have hok : (Message.decode .ofLocal (.main createAppRequest)
        [0x48, 0x05, 0x12, 0x03, 0x0A, 0x01, 0x61, 0x00, 0x01, 0x08, 0x01]).isOk := by
      decide +kernel
    simp [hdecode, Except.isOk, Except.toBool] at hok
  | ok message =>
    refine ⟨hx, hothers, ?_, ⟨message, rfl⟩, hread _ _ hdecode⟩
    have hlast := List.get_mem (newerFields ⟨[0x82, 0x00], 2, by decide⟩) ⟨3, by decide⟩
    exact hrefused _ _ hindex hothers _ hlast rfl ⟨[0x82, 0x00], 2, by decide⟩ rfl (by decide)
      (by decide)

end MainMessage

end Storefront
