import Storefront.Peer.Handshake
import Storefront.Proofs.Schema.Visits
import Storefront.Proofs.Version.Normal

/-! # What the opening message says

The first message on a connection brings the version record of its family and, behind a guard on
what has just been read of it, the core record.  A family record that is newer than this build has
been cleared by then, so the guard fails and the core record is passed over.

* `GivesRecord`              what a body says of a version record
* `Opens`                    what an opening message says of both records
* `decodeInto_iff`           an opening message is read as what it says
* `versions_read`            no counter of a newer peer is ever taken over
-/

namespace Storefront

namespace RecordType

/-- `decodeBody` of a record without a place of its own is `decode` of all that is left. -/
theorem decodeBody_type {r : RecordType} {fields : List Value} (about : FieldMeta) (ctx : Context)
    (c : Cursor) (h : fields.length = r.layout.size) :
    r.type.decodeBody about ctx (.record fields) c =
      ⟨.record (r.decode ctx c.rest fields).1, ⟨c.position + c.remaining, []⟩,
        (r.decode ctx c.rest fields).2⟩ := by
  have hfields : r.layout.fieldsOf (.record fields) = fields := if_pos h
  simp only [type, ValueType.decodeBody, decode, index, hfields]
  cases FieldIndex.ofBody r.layout.byteBound c.rest with
  | error e => rfl
  | ok index =>
    simp only [Except.mapError, decodeIndexed]
    generalize r.layout.decode ctx index 0 fields = x
    rcases x with ⟨fields', _ | _⟩
    · rfl
    · cases r.hook with
      | none => rfl
      | some hook =>
        simp only
        cases hook fields' ctx <;> rfl

section

variable {r : RecordType} {ctx : Context} {body : Bytes} {fields : List Value} {index : FieldIndex}

/-- Without a `hook`, `decodeIndexed` is `Layout.decode`. -/
theorem decodeIndexed_of_no_hook (h : r.hook = none) :
    r.decodeIndexed ctx index fields = r.layout.decode ctx index 0 fields := by
  simp only [decodeIndexed, h]
  rcases r.layout.decode ctx index 0 fields with ⟨fields', _ | _⟩ <;> rfl

/-- `decodeMessage` is `decodeIndexed` of the index less the format version. -/
theorem decodeMessage_of_index (ctx : Context) (fields : List Value)
    (hindex : r.index body = .ok index) (hversion : checkFormatVersion index = .ok ()) :
    r.decodeMessage ctx body fields =
      r.decodeIndexed ctx (index.without formatVersionTag) fields := by
  simp only [decodeMessage, hindex, hversion]

/-- `decodeMessage` succeeds only on a body that `index` accepts, with a format version that passes,
if any. -/
theorem index_of_decodeMessage (h : (r.decodeMessage ctx body fields).2 = .ok ()) :
    ∃ index, r.index body = .ok index ∧ checkFormatVersion index = .ok () := by
  unfold decodeMessage at h
  cases hindex : r.index body with
  | error e =>
    rw [hindex] at h
    cases h
  | ok index =>
    rw [hindex] at h
    cases hversion : checkFormatVersion index with
    | error e =>
      simp only [hversion] at h
      cases h
    | ok u => exact ⟨index, rfl, hversion⟩

end

end RecordType

namespace VersionRecord

variable {family : Family} {ctx : Context} {body : Bytes} {r : VersionRecord family}

theorem length_toFields (r : VersionRecord family) :
    r.toFields.length = (layout family).size := by
  rw [← Layout.length_initials, initials_layout]
  simp [toFields, components, r.length_counters, (ofLocal family).length_counters]

/-- `decodeBody_type` for a version record, whose `toFields` always have the length it asks for. -/
theorem decodeBody_toValue (about : FieldMeta) (ctx : Context) (r : VersionRecord family)
    (c : Cursor) :
    (recordType family).type.decodeBody about ctx r.toValue c =
      ⟨.record ((recordType family).decode ctx c.rest r.toFields).1,
        ⟨c.position + c.remaining, []⟩, ((recordType family).decode ctx c.rest r.toFields).2⟩ :=
  RecordType.decodeBody_type (r := recordType family) about ctx c r.length_toFields

/-- `decode` into a version record makes one. -/
theorem exists_of_decode (h : ((recordType family).decode ctx body r.toFields).2 = .ok ()) :
    ∃ r' : VersionRecord family,
      (recordType family).decode ctx body r.toFields = (r'.toFields, .ok ()) := by
  unfold RecordType.decode at h ⊢
  cases hindex : (recordType family).index body with
  | error e =>
    rw [hindex] at h
    cases h
  | ok index =>
    rw [hindex] at h
    obtain ⟨v, hv⟩ := gives_of_decodeIndexed h
    -- Whatever the revision that the body gives, what is left is again a record of this family.
    rcases newer_or_older_or_local v with hnewer | holder | hlocal
    · exact ⟨_, decodeIndexed_of_newer hv hnewer⟩
    · exact ⟨_, decodeIndexed_of_older hv holder⟩
    · obtain ⟨cs, hcs⟩ := givesAll_of_decodeIndexed hv hlocal h
      exact ⟨_, decodeIndexed_of_local hv hlocal hcs⟩

end VersionRecord

namespace FieldIndex

variable {family : Family}

/-- What a body says of a version record under a tag where `old` has been before: a record, or
nothing. -/
def GivesRecord (index : FieldIndex) (tag : Nat) (ctx : Context)
    (old new : VersionRecord family) : Prop :=
  match index.find? tag with
  | none => new = old
  | some raw => raw.type = .len ∧
    (VersionRecord.recordType family).decode ctx raw.body old.toFields = (new.toFields, .ok ())

end FieldIndex

namespace Layout

variable {family : Family} {old new : VersionRecord family} {about : FieldMeta} {initial : Value}
variable {rest : Layout} {ctx : Context} {index : FieldIndex} {slot : Nat} {fields : List Value}

/-- A field of a version record is read as what `GivesRecord` says under its tag. -/
theorem decode_of_givesRecord (hold : fields[slot]? = some old.toValue)
    (h : index.GivesRecord about.tag ctx old new) :
    (field about (VersionRecord.recordType family).type initial rest).decode ctx index slot fields =
      rest.decode ctx index (slot + 1) (fields.set slot new.toValue) := by
  unfold FieldIndex.GivesRecord at h
  cases hfind : index.find? about.tag with
  | none =>
    rw [hfind] at h
    -- Nothing is there, and storing the old value again changes nothing.
    subst h
    rw [set_of_getElem? hold]
    simp only [decode, hfind]
  | some raw =>
    rw [hfind] at h
    obtain ⟨htype, hread⟩ := h
    have hexpect : raw.expect (VersionRecord.recordType family).type.wireType = .ok () :=
      if_pos htype
    have hbody := old.decodeBody_toValue about ctx raw.cursor
    have hrest : raw.cursor.rest = raw.body := rfl
    rw [hrest, hread] at hbody
    simp only [decode, hfind, hexpect, hold, Option.getD_some, hbody]
    rfl

/-- `decode` of a field succeeds only where the body gives a version record, or none. -/
theorem givesRecord_of_decode (hold : fields[slot]? = some old.toValue)
    (h : ((field about (VersionRecord.recordType family).type initial rest).decode ctx index slot
      fields).2 = .ok ()) : ∃ new, index.GivesRecord about.tag ctx old new := by
  unfold FieldIndex.GivesRecord
  cases hfind : index.find? about.tag with
  | none => exact ⟨old, rfl⟩
  | some raw =>
    have hbody := old.decodeBody_toValue about ctx raw.cursor
    have hrest : raw.cursor.rest = raw.body := rfl
    by_cases htype : raw.type = .len
    · have hexpect : raw.expect (VersionRecord.recordType family).type.wireType = .ok () :=
        if_pos htype
      simp only [decode, hfind, hexpect, hold, Option.getD_some, hbody, hrest] at h
      have hread : ((VersionRecord.recordType family).decode ctx raw.body old.toFields).2 =
          .ok () := by
        split at h
        · cases h
        · assumption
      obtain ⟨new, hnew⟩ := VersionRecord.exists_of_decode hread
      exact ⟨new, htype, hnew⟩
    · have hexpect : raw.expect (VersionRecord.recordType family).type.wireType =
          .error (.wireTypeMismatch raw.tag .len raw.type) := if_neg htype
      simp [decode, hfind, hexpect] at h

end Layout

/-! ## Both records -/

/-- True when the core record goes along with this one. -/
def VersionRecord.bringsCore {family : Family} (own : VersionRecord family) : Bool :=
  own.counter? "init_request" == some 1

/-- `bringsCore` is false of a cleared record. -/
theorem VersionRecord.bringsCore_clear (service : Service) (own : VersionRecord service.family) :
    own.clear.bringsCore = false := by
  obtain ⟨version, counters, hlength⟩ := own
  cases service <;>
    · obtain ⟨c, rfl⟩ := List.length_eq_one_iff.1 hlength
      rfl

variable {family : Family} {ctx : Context} {index : FieldIndex} {body : Bytes}
variable {own own' : VersionRecord family} {core core' : VersionRecord .core}

/-- What an opening message says of both records, where `own` and `core` have been before.  Without
the first form of the request nothing is said of the core record. -/
structure FieldIndex.Opens (index : FieldIndex) (ctx : Context) (own : VersionRecord family)
    (core : VersionRecord .core) (own' : VersionRecord family) (core' : VersionRecord .core) :
    Prop where
  own : index.GivesRecord 1 ctx own own'
  core : if own'.bringsCore then index.GivesRecord 3 ctx core core' else core' = core

/-- `without` the format version a body `Opens` as with it. -/
theorem FieldIndex.opens_without :
    (index.without formatVersionTag).Opens ctx own core own' core' ↔
      index.Opens ctx own core own' core' := by
  have hkept : ∀ tag, tag ≠ formatVersionTag →
      (index.without formatVersionTag).find? tag = index.find? tag := by
    intro tag htag
    rw [FieldIndex.find?_without, if_neg htag]
  have hone := hkept 1 (by decide)
  have hthree := hkept 3 (by decide)
  constructor <;> rintro ⟨hown, hcore⟩ <;> constructor <;>
    simp only [GivesRecord, hone, hthree] at hown hcore ⊢ <;> assumption

namespace Layout

variable {name : String}

/-- The field of the core record. -/
def coreVersion : Layout :=
  field (.plain 3 "core_version") (VersionRecord.recordType .core).type
    (VersionRecord.recordType .core).type.initial nil

/-- The layout of an opening message: the record of the family, and `coreVersion` in a group that is
guarded by `bringsCore` of that record. -/
theorem initRequestLayout_eq (family : Family) (name : String) :
    initRequestLayout family name =
      field (.plain 1 name) (VersionRecord.recordType family).type
        (VersionRecord.recordType family).type.initial
        (group "versions" (fun fields _ =>
          (VersionRecord.ofValue (fields[0]?.getD default) : VersionRecord family).bringsCore)
          coreVersion nil) := rfl

/-- `decode` of a request reads a core record if the record that it has just read `bringsCore`. -/
theorem decode_initRequestLayout (hown : index.GivesRecord 1 ctx own own') :
    (initRequestLayout family name).decode ctx index 0 [own.toValue, core.toValue] =
      if own'.bringsCore then coreVersion.decode ctx index 1 [own'.toValue, core.toValue]
      else ([own'.toValue, core.toValue], .ok ()) := by
  have hold : [own.toValue, core.toValue][0]? = some own.toValue := rfl
  -- The guard reads the record back out of the fields, which by now hold `own'`.
  have hguard : (VersionRecord.ofValue own'.toValue : VersionRecord family) = own' :=
    VersionRecord.ofValue_toValue own'
  rw [initRequestLayout_eq, decode_of_givesRecord hold hown, List.set_cons_zero, decode]
  simp only [List.getElem?_cons_zero, Option.getD_some, hguard]
  by_cases hbrings : own'.bringsCore = true
  · rw [if_pos hbrings, if_pos hbrings]
    generalize coreVersion.decode ctx index (0 + 1) [own'.toValue, core.toValue] = x
    rcases x with ⟨fields, _ | _⟩ <;> rfl
  · rw [if_neg hbrings, if_neg hbrings]
    rfl

/-- `decode` of a request reads what the body `Opens` with. -/
theorem decode_of_opens (name : String) (h : index.Opens ctx own core own' core') :
    (initRequestLayout family name).decode ctx index 0 [own.toValue, core.toValue] =
      ([own'.toValue, core'.toValue], .ok ()) := by
  have hcore := h.core
  rw [decode_initRequestLayout h.own]
  by_cases hbrings : own'.bringsCore = true
  · rw [if_pos hbrings] at hcore ⊢
    have hold : [own'.toValue, core.toValue][1]? = some core.toValue := rfl
    rw [coreVersion, decode_of_givesRecord hold hcore]
    rfl
  · rw [if_neg hbrings] at hcore ⊢
    rw [hcore]

/-- `decode` of a request succeeds only where the body `Opens` with two records. -/
theorem opens_of_decode
    (h : ((initRequestLayout family name).decode ctx index 0
      [own.toValue, core.toValue]).2 = .ok ()) :
    ∃ own' core', index.Opens ctx own core own' core' := by
  have hold : [own.toValue, core.toValue][0]? = some own.toValue := rfl
  obtain ⟨own', hown⟩ : ∃ own', index.GivesRecord 1 ctx own own' :=
    givesRecord_of_decode hold h
  rw [decode_initRequestLayout hown] at h
  by_cases hbrings : own'.bringsCore = true
  · rw [if_pos hbrings] at h
    -- The group is there, so its only field has been read too.
    have hold : [own'.toValue, core.toValue][1]? = some core.toValue := rfl
    obtain ⟨core', hcore⟩ : ∃ core', index.GivesRecord 3 ctx core core' :=
      givesRecord_of_decode hold h
    exact ⟨own', core', hown, by rwa [if_pos hbrings]⟩
  · exact ⟨own', core, hown, by rw [if_neg hbrings]⟩

end Layout

namespace Message

variable {service : Service} {m : Message} {own own' : VersionRecord service.family}

/-- An opening message that brings these records. -/
def opening (service : Service) (id : UInt64) (own : VersionRecord service.family)
    (core : VersionRecord .core) : Message :=
  ⟨service.initRequest, { requestId := id }, [own.toValue, core.toValue]⟩

/-- A new request has the records `ofLocal`. -/
theorem fields_new_initRequest (service : Service) :
    (new service.initRequest).fields =
      [(VersionRecord.ofLocal service.family).toValue, (VersionRecord.ofLocal .core).toValue] := by
  cases service <;> rfl

/-- The opening messages of all services are records of `initRequestLayout` without a hook. -/
theorem recordType_initRequest (service : Service) :
    ∃ name, service.initRequest.recordType =
      { name := "InitRequest", layout := initRequestLayout service.family name } := by
  cases service <;> exact ⟨_, rfl⟩

/-- `decodeInto` of a request reads what its body `Opens` with. -/
theorem decodeInto_of_opens (htype : m.type = service.initRequest)
    (hfields : m.fields = [own.toValue, core.toValue])
    (hindex : m.type.recordType.index body = .ok index)
    (hversion : checkFormatVersion index = .ok ()) (h : index.Opens ctx own core own' core') :
    decodeInto ctx body m = ({ m with fields := [own'.toValue, core'.toValue] }, .ok ()) := by
  obtain ⟨name, hrecord⟩ := recordType_initRequest service
  have hdecode := Layout.decode_of_opens name (FieldIndex.opens_without.2 h)
  have hread := RecordType.decodeMessage_of_index ctx m.fields hindex hversion
  rw [hfields, htype, hrecord, RecordType.decodeIndexed_of_no_hook rfl, hdecode] at hread
  unfold decodeInto
  rw [htype, hrecord, hfields, hread]

/-- `decodeInto` of a request succeeds only where its body `Opens` with two records. -/
theorem opens_of_decodeInto (htype : m.type = service.initRequest)
    (hfields : m.fields = [own.toValue, core.toValue])
    (h : (decodeInto ctx body m).2 = .ok ()) :
    ∃ index own' core', m.type.recordType.index body = .ok index ∧
      checkFormatVersion index = .ok () ∧ index.Opens ctx own core own' core' := by
  obtain ⟨name, hrecord⟩ := recordType_initRequest service
  obtain ⟨index, hindex, hversion⟩ := RecordType.index_of_decodeMessage h
  have hread := RecordType.decodeMessage_of_index ctx m.fields hindex hversion
  have hdecode : (m.type.recordType.decodeMessage ctx body m.fields).2 = .ok () := h
  rw [hread, hfields, htype, hrecord, RecordType.decodeIndexed_of_no_hook rfl] at hdecode
  obtain ⟨own', core', hopens⟩ := Layout.opens_of_decode hdecode
  exact ⟨index, own', core', hindex, hversion, FieldIndex.opens_without.1 hopens⟩

end Message

open VersionRecord in
/-- Reading a version record takes over no counters of another revision than `localMax`.

* Of a newer record `decode` takes over the revision, and clears every counter; of an older one it
  takes over the revision, and the counters stay.  What stands under the tags of counters does not
  matter, not even whether it could be read.
* Of a record of revision `localMax` the counters are read, and have to be numbers.
* `decodeInto` of an `initRequest` with a newer record of its family leaves the core record as it
  was, whatever the body says of it.
* What `encode` has written of a record, `decode` reads into a new one as its `norm`, and `norm` is
  idempotent. -/
theorem versions_read :
    (∀ (family : Family) (ctx : Context) (body : Bytes) (index : FieldIndex)
      (r : VersionRecord family) (v : UInt32),
      (recordType family).index body = .ok index → index.Gives 1 r.version v →
        (localMax < v → (recordType family).decode ctx body r.toFields =
          ((r.withVersion v).clear.toFields, .ok ())) ∧
        (v < localMax → (recordType family).decode ctx body r.toFields =
          ((r.withVersion v).toFields, .ok ())) ∧
        (v = localMax → ∀ fields, (recordType family).decode ctx body r.toFields =
            (fields, .ok ()) ↔
          ∃ cs, ∃ h : index.GivesAll 3 r.counters cs,
            fields = ((r.withVersion v).withCounters cs h.length_eq).toFields)) ∧
      (∀ (service : Service) (ctx : Context) (m : Message) (own : VersionRecord service.family)
        (core : VersionRecord .core) (body : Bytes) (index inner : FieldIndex) (raw : RawField)
        (v : UInt32), m.type = service.initRequest → m.fields = [own.toValue, core.toValue] →
        m.type.recordType.index body = .ok index → checkFormatVersion index = .ok () →
        index.find? 1 = some raw → raw.type = .len →
        (recordType service.family).index raw.body = .ok inner → inner.Gives 1 own.version v →
        localMax < v →
          Message.decodeInto ctx body m =
            ({ m with fields := [(own.withVersion v).clear.toValue, core.toValue] }, .ok ())) ∧
      (∀ (family : Family) (sender receiver : Context) (r : VersionRecord family),
        ((recordType family).encode sender r.toFields).result = .ok () ∧
          (recordType family).decode receiver ((recordType family).encode sender r.toFields).bytes
            (recordType family).initials = (r.norm.toFields, .ok ())) ∧
      ∀ (family : Family) (r : VersionRecord family), r.norm.norm = r.norm := by
  refine ⟨fun family ctx body index r v hindex hv => ?_, ?_,
    fun family sender receiver r => ⟨?_, decode_encode sender receiver r⟩,
    fun family r => norm_norm r⟩
  · have hdecode : (recordType family).decode ctx body r.toFields =
        (recordType family).decodeIndexed ctx index r.toFields := by
      rw [RecordType.decode, hindex]
    rw [hdecode]
    refine ⟨decodeIndexed_of_newer hv, decodeIndexed_of_older hv, fun hlocal fields => ?_⟩
    constructor
    · intro h
      -- A record of this revision is only read when all of its counters are numbers.
      obtain ⟨cs, hcs⟩ := givesAll_of_decodeIndexed hv hlocal (congrArg Prod.snd h)
      rw [decodeIndexed_of_local hv hlocal hcs, Prod.mk.injEq] at h
      exact ⟨cs, hcs, h.1.symm⟩
    · rintro ⟨cs, hcs, rfl⟩
      exact decodeIndexed_of_local hv hlocal hcs
  · intro service ctx m own core body index inner raw v htype hfields hindex hversion hfind hlen
      hinner hv hnewer
    -- The newer record is cleared, and a cleared one does not bring the core record.
    have hown : index.GivesRecord 1 ctx own (own.withVersion v).clear := by
      unfold FieldIndex.GivesRecord
      rw [hfind]
      refine ⟨hlen, ?_⟩
      rw [RecordType.decode, hinner]
      exact decodeIndexed_of_newer hv hnewer
    apply Message.decodeInto_of_opens htype hfields hindex hversion
    constructor
    case own => exact hown
    case core => rw [bringsCore_clear, if_neg Bool.false_ne_true]
  · rw [encode_eq]
    rfl

/-- A record of some revision with a counter that is no number. -/
def strangeRecord (v : UInt32) : FieldIndex :=
  [⟨1, .varint, Varint.encode v.toNat⟩, ⟨3, .len, [7]⟩]

/-- An opening message with such a record of a newer revision, and no core record where one would
stand. -/
def strangeOpening : FieldIndex :=
  [⟨1, .len, (strangeRecord 2).flatMap RawField.octets⟩, ⟨3, .varint, Varint.encode 5⟩]

/-- `strangeRecord` is a body that any version record takes. -/
theorem index_strangeRecord (family : Family) (v : UInt32) :
    (VersionRecord.recordType family).index ((strangeRecord v).flatMap RawField.octets) =
      .ok (strangeRecord v) := by
  have hlimit : v.toNat < Varint.limit := Nat.lt_trans v.toNat_lt (by decide)
  have hbound : (VersionRecord.recordType family).layout.byteBound 3 = none := by
    cases family <;> rfl
  unfold RecordType.index
  rw [FieldIndex.ofBody_flatMap]
  · rfl
  · intro raw hraw
    simp only [strangeRecord, List.mem_cons, List.not_mem_nil, or_false] at hraw
    rcases hraw with rfl | rfl
    · exact ⟨(by decide : 1 ≤ maxTag), RawField.framed_varint _ _ hlimit⟩
    · exact ⟨by decide, RawField.framed_len (by decide) (by rw [hbound]; rfl)⟩
  · exact (by decide : [1, 3].Nodup)

/-- `strangeOpening` is a body that `InitRequest` takes. -/
theorem index_strangeOpening :
    (MessageType.main .initRequest).recordType.index (strangeOpening.flatMap RawField.octets) =
      .ok strangeOpening := by
  unfold RecordType.index
  rw [FieldIndex.ofBody_flatMap]
  · rfl
  · intro raw hraw
    simp only [strangeOpening, List.mem_cons, List.not_mem_nil, or_false] at hraw
    rcases hraw with rfl | rfl
    · exact ⟨by decide, RawField.framed_len (by decide) rfl⟩
    · exact ⟨by decide, RawField.framed_varint _ _ (by decide)⟩
  · exact (by decide : [1, 3].Nodup)

open VersionRecord in
/-- `decode` of a counter that is no number, which passes in a newer record and in an older one,
but not in one of revision `localMax`; and of a core record that is none, which passes behind a
newer record. -/
theorem versions_read_strange :
    (recordType .core).decode .empty ((strangeRecord 2).flatMap RawField.octets)
        (ofLocal .core).toFields = (((ofLocal .core).withVersion 2).clear.toFields, .ok ()) ∧
      (recordType .core).decode .empty ((strangeRecord 0).flatMap RawField.octets)
        (ofLocal .core).toFields = (((ofLocal .core).withVersion 0).toFields, .ok ()) ∧
      (∀ fields, (recordType .core).decode .empty ((strangeRecord 1).flatMap RawField.octets)
        (ofLocal .core).toFields ≠ (fields, .ok ())) ∧
      Message.decodeInto .empty (strangeOpening.flatMap RawField.octets)
          (.new (.main .initRequest)) =
        (⟨.main .initRequest, {}, [((ofLocal .main).withVersion 2).clear.toValue,
          (ofLocal .core).toValue]⟩, .ok ()) := by
  have hgives : ∀ (family : Family) v, (strangeRecord v).Gives 1 (ofLocal family).version v :=
    fun family v => FieldIndex.gives_of_find? rfl
  refine ⟨?_, ?_, ?_, ?_⟩
  · apply (versions_read.1 _ _ _ _ _ _ (index_strangeRecord .core 2) (hgives .core 2)).1
    decide
  · apply (versions_read.1 _ _ _ _ _ _ (index_strangeRecord .core 0) (hgives .core 0)).2.1
    decide
  · intro fields h
    have hlocal := (versions_read.1 _ .empty _ _ _ _ (index_strangeRecord .core 1)
      (hgives .core 1)).2.2 rfl
    obtain ⟨cs, hcs, -⟩ := (hlocal fields).1 h
    -- The first counter would have to be a number.
    cases cs with
    | nil => cases hcs
    | cons c cs =>
      obtain ⟨hnumber, -⟩ := hcs.1
      cases hnumber
  · apply versions_read.2.1 .main _ _ _ _ _ strangeOpening (strangeRecord 2) _ 2
    · rfl
    · rfl
    · exact index_strangeOpening
    · rfl
    · rfl
    · rfl
    · exact index_strangeRecord .main 2
    · exact hgives .main 2
    · decide

end Storefront
