import Storefront.Proofs.Schema.Again
import Storefront.Proofs.Store.Message
import Storefront.Proofs.Version.Opening

/-! # Messages that are read twice

The guards of messages and version records look at the first field of their record, or at what was
negotiated.  No hook of a message changes anything, and that of a version record leaves the first
field alone.  So a message into which the same body is read again stays as it is.

* `clamp_settles`        the hook of version records
* `read_twice`           reading into a message a second time
-/

namespace Storefront

/-- `LooksAt` for a guard that looks at one field. -/
theorem Guard.LooksAt.of_slot {guard : Guard} {known : Nat → Prop} {slot : Nat}
    (f : Option Value → Context → Bool) (h : ∀ fields ctx, guard fields ctx = f fields[slot]? ctx)
    (hslot : known slot) : guard.LooksAt known := by
  intro fields fields' ctx hsame
  rw [h, h, hsame slot hslot]

namespace VersionRecord

/-- `clamp` settles a record with the revision alone kept. -/
theorem clamp_settles : Hook.Settles clamp (· = 0) := by
  intro fields ctx got h
  unfold clamp at h
  split at h
  · exact .inl (Except.ok.inj h).symm
  · rename_i version counters
    split at h
    · -- The record is newer than this build.
      rename_i hnewer
      obtain rfl := Except.ok.inj h
      -- As many counters are cleared by a second check, whatever they hold by then.
      refine .inr ⟨by simp, ?_, ?_⟩
      · rintro i rfl
        rfl
      · intro again hlength hsame
        have hfirst : again[0]? = some version := hsame 0 rfl
        cases again with
        | nil => cases hfirst
        | cons version' counters' =>
          obtain rfl : version' = version := Option.some.inj hfirst
          have hsize : counters'.length = counters.length := by simpa using hlength
          have hcounters : (counters'.map fun _ => Value.number unsupported.toNat) =
              counters.map fun _ => .number unsupported.toNat := by
            simp only [List.map_const', hsize]
          simp only [clamp, if_pos hnewer, hcounters]
    · exact .inl (Except.ok.inj h).symm

/-- `countersPresent` looks at the revision. -/
theorem countersPresent_looksAt {known : Nat → Prop} (h : known 0) :
    Guard.LooksAt countersPresent known :=
  .of_slot (fun v _ => (v.getD default).toNumber == localMax.toNat) (fun _ _ => rfl) h

/-- A version record can be read twice: `clamp` keeps the revision, which is all that the guard
looks at. -/
theorem type_rereads (family : Family) : (recordType family).type.Rereads := by
  refine ⟨(· = 0), ?_, clamp_settles⟩
  cases family <;> simp [recordType, layout, Family.features, Layout.build, Layout.starting,
    Layout.grouped, Layout.Rereads, ValueType.Rereads, ValueType.replaces, countersPresent_looksAt]

end VersionRecord

/-- The layout of a request `Rereads`: its core record is present by the record in front of it. -/
theorem initRequestLayout_rereads (family : Family) (fieldName : String) :
    (initRequestLayout family fieldName).Rereads (fun _ => True) 0 := by
  refine ⟨VersionRecord.type_rereads family, .inl trivial, ?_,
    ⟨VersionRecord.type_rereads .core, .inl trivial, trivial⟩, trivial⟩
  -- The guard looks at the first record alone.
  exact .of_slot
    (fun v _ => (VersionRecord.ofValue (v.getD default) : VersionRecord family).counter?
      "init_request" == some 1) (fun _ _ => rfl) ⟨Nat.one_pos, trivial⟩

open Layout in
/-- The records that the messages carry have no guards, so their layouts `Rereads`. -/
theorem DomainRecord.layout_rereads (r : DomainRecord) : r.layout.Rereads (fun _ => True) 0 := by
  cases r <;> simp [layout, shortcutLayout, mediaEntryLayout, mediaLayout, configurationLayout,
    buildLayout, textPairs, Layout.build, plain, Layout.Rereads, ValueType.Rereads]

/-- So do their types, which have no hooks. -/
theorem DomainRecord.type_rereads (r : DomainRecord) : r.type.Rereads := r.layout_rereads

/-- `resultPresent` looks at the context alone. -/
theorem CoreMessage.resultPresent_looksAt {known : Nat → Prop} :
    Guard.LooksAt resultPresent known := fun _ _ _ _ => rfl

/-- `dataPresent` looks at the status in front. -/
theorem MainMessage.dataPresent_looksAt {known : Nat → Prop} (h : known 0) :
    Guard.LooksAt dataPresent known :=
  .of_slot (fun v _ => (v.getD default).toNumber == 0) (fun _ _ => rfl) h

open Layout in
/-- The layout of every message `Rereads`. -/
theorem MessageType.layout_rereads (t : MessageType) :
    t.recordType.layout.Rereads (fun _ => True) 0 := by
  -- The three families differ in the guards that their messages have.
  cases t with
  | core m =>
    show m.layout.Rereads (fun _ => True) 0
    cases m <;> simp [CoreMessage.layout, Layout.build, plain, grouped, Layout.Rereads,
      ValueType.Rereads, CoreMessage.resultPresent_looksAt]
  | auth m =>
    show m.layout.Rereads (fun _ => True) 0
    cases m <;> simp [AuthMessage.layout, Layout.build, plain, bounded, initRequestLayout_rereads,
      Layout.Rereads, ValueType.Rereads]
  | main m =>
    show m.layout.Rereads (fun _ => True) 0
    cases m <;> simp [MainMessage.layout, MainMessage.embeddedVersion, DomainRecord.textPairs,
      Layout.build, plain, bounded, starting, streamed, grouped, initRequestLayout_rereads,
      DomainRecord.type_rereads, Layout.Rereads, ValueType.Rereads, MainMessage.dataPresent_looksAt]

/-- The hook of a message settles: it changes nothing. -/
theorem MessageType.hook_settles {t : MessageType} {hook : Hook} (h : t.recordType.hook = some hook)
    (kept : Nat → Prop) : hook.Settles kept := by
  obtain ⟨record, version, rfl⟩ := structural_of_hook h
  exact Hook.structural_settles record version kept

/-- Every message `Rereads`. -/
theorem MessageType.rereads (t : MessageType) : t.recordType.Rereads :=
  RecordType.rereads_iff.2 ⟨_, t.layout_rereads, fun _ h => t.hook_settles h _⟩

/-- `decodeInto` of a body into a message that it has been read into already succeeds and changes
nothing: no collection grows, and what the body leaves out stays.  So it is with `decodeMessage` for
any record that `Rereads`, which is to say whose guards look at earlier fields that its hook keeps;
there may be no hook, or a `structural` one, or `clamp`. -/
theorem read_twice :
    (∀ (r : RecordType) (ctx : Context) (body : Bytes) (before after : List Value), r.Rereads →
      r.decodeMessage ctx body before = (after, .ok ()) →
      r.decodeMessage ctx body after = (after, .ok ())) ∧
    ((∀ (r : RecordType) (kept : Nat → Prop), r.layout.Rereads kept 0 → r.hook = none → r.Rereads) ∧
      (∀ (r : RecordType) (kept : Nat → Prop) (record : String) (version : Nat),
        r.layout.Rereads kept 0 → r.hook = some (.structural record version) → r.Rereads) ∧
      ∀ r : RecordType, r.layout.Rereads (· = 0) 0 → r.hook = some VersionRecord.clamp →
        r.Rereads) ∧
    ∀ (m m' : Message) (ctx : Context) (body : Bytes), m.decodeInto ctx body = (m', .ok ()) →
      m'.decodeInto ctx body = (m', .ok ()) := by
  refine ⟨fun r ctx body before after hr h => RecordType.decodeMessage_again hr h, ⟨?_, ?_, ?_⟩, ?_⟩
  · intro r kept hlayout hhook
    exact RecordType.rereads_iff.2 ⟨kept, hlayout, by simp [hhook]⟩
  · intro r kept record version hlayout hhook
    refine RecordType.rereads_iff.2 ⟨kept, hlayout, fun hook hh => ?_⟩
    obtain rfl := Option.some.inj (hhook.symm.trans hh)
    exact Hook.structural_settles record version kept
  · intro r hlayout hhook
    refine RecordType.rereads_iff.2 ⟨_, hlayout, fun hook hh => ?_⟩
    obtain rfl := Option.some.inj (hhook.symm.trans hh)
    exact VersionRecord.clamp_settles
  · intro m m' ctx body h
    rw [Message.decodeInto, Prod.mk.injEq] at h
    obtain ⟨rfl, hresult⟩ := h
    have hagain := RecordType.decodeMessage_again m.type.rereads (Prod.ext rfl hresult)
    simp only [Message.decodeInto, hagain]

/-- `decodeInto` twice of a record that is too new: it is cleared by the first read, and the core
record behind it, which is none, is passed over by both. -/
theorem read_twice_newer :
    let before : Message := .new (.auth .initRequest)
    let after : Message := { before with fields :=
      [.record [.number 2, .number VersionRecord.unsupported.toNat],
        (VersionRecord.ofLocal .core).toValue] }
    let body : Bytes := [0, 1, 0x1A, 1, 0xFF, 0x0A, 4, 8, 2, 0x18, 1]
    before.decodeInto .empty body = (after, .ok ()) ∧
      after.decodeInto .empty body = (after, .ok ()) := by
  intro before after body
  let index : FieldIndex := [⟨0, .varint, [1]⟩, ⟨3, .len, [0xFF]⟩, ⟨1, .len, [8, 2, 0x18, 1]⟩]
  -- The octets of the body, and those of the record in it.
  have hindex : before.type.recordType.index body = .ok index := by decide +kernel
  have hinner : FieldIndex.ofBody (VersionRecord.layout .auth).byteBound [8, 2, 0x18, 1] =
      .ok [⟨1, .varint, [2]⟩, ⟨3, .varint, [1]⟩] := by decide +kernel
  -- The record is too new, and its counters are cleared.
  have hrecord : (VersionRecord.recordType .auth).type.decodeBody (.plain 1 "auth_version") .empty
      (before.fields[0]?.getD (VersionRecord.recordType .auth).type.initial)
      (RawField.cursor ⟨1, .len, [8, 2, 0x18, 1]⟩) =
        ⟨.record [.number 2, .number VersionRecord.unsupported.toNat], ⟨4, []⟩, .ok ()⟩ := by
    rw [RecordType.type, ValueType.decodeBody_record]
    simp only [VersionRecord.recordType, RawField.cursor, Cursor.start, hinner]
    rfl
  have hfields : before.type.recordType.layout.decode .empty (index.without formatVersionTag) 0
      before.fields = (after.fields, .ok ()) := by
    show Layout.decode (.field _ _ _ _) _ _ _ _ = _
    rw [Layout.decode_of_read rfl rfl hrecord]
    rfl
  have hread : before.decodeInto .empty body = (after, .ok ()) := by
    rw [Message.decodeInto, RecordType.decodeMessage_of_index _ _ hindex rfl,
      RecordType.decodeIndexed_of_no_hook rfl, hfields]
  exact ⟨hread, read_twice.2.2 before after _ body hread⟩

end Storefront
