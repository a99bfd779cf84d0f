import Storefront.Proofs.Schema.Body
import Storefront.Store.Message

/-! # The messages of the store

All messages but those that open a connection arrive as they were sent, as far as both sides have
negotiated their fields.

* `faithful`               every layout of theirs is faithful
* `decode_encode`          such a message there and back
-/

namespace Storefront

namespace Layout

/-- True when a layout has different tags that a message can use and fields of plain types. -/
def isSound (layout : Layout) : Bool :=
  decide layout.distinctTags && layout.declared.all fun (about, type) =>
    decide (1 ≤ about.tag ∧ about.tag ≤ maxTag ∧ 1 ≤ about.chunkSize) && type.isPlain

theorem faithful_of_isSound {layout : Layout} (h : layout.isSound)
    (hguards : layout.Settled Likeness.arrived true [] 0) (sender receiver : Context) :
    layout.Faithful sender receiver := by
  simp only [isSound, Bool.and_eq_true, decide_eq_true_eq, List.all_eq_true] at h
  refine ⟨h.1, fun p hp => ?_, hguards, fun p hp initial _ => ?_⟩
  · exact ⟨(h.2 p hp).1.1, (h.2 p hp).1.2.1⟩
  · obtain ⟨⟨-, -, hchunk⟩, hplain⟩ := h.2 _ (declared_of_mem_places hp)
    exact p.type.roundTrips hplain hchunk sender receiver initial

end Layout

/-- True for the messages that open a connection. -/
def MessageType.opens : MessageType → Bool
  | .auth .initRequest | .main .initRequest => true
  | _ => false

/-- The layout of a core message is `Settled`: its groups are up to what was negotiated. -/
theorem CoreMessage.settled (m : CoreMessage) :
    m.recordType.layout.Settled Likeness.arrived true [] 0 := by
  cases m with
  | initResponse => exact ⟨fun _ _ _ _ => rfl, trivial, trivial⟩
  | _ => trivial

/-- `dataPresent` depends on the result, which comes before the data. -/
theorem MainMessage.dataPresent_dependsOn (about : FieldMeta) {known : List Place}
    (h : Place.mk 0 about .status ∈ known) :
    Guard.DependsOn MainMessage.dataPresent Likeness.arrived known := by
  intro sent got ctx halike
  -- `dataPresent` looks at the number of slot 0, which has arrived as it was sent
  obtain ⟨v, w, hv, hw, -, harrives⟩ := halike _ h
  simp only [MainMessage.dataPresent, Layout.number, hv, hw, Option.getD_some,
    harrives.toNumber_eq]

namespace MessageType

/-- The layout of a message that does not open a connection is `Settled`. -/
theorem settled {type : MessageType} (h : ¬ type.opens) :
    type.recordType.layout.Settled Likeness.arrived true [] 0 := by
  cases type with
  | core m => exact m.settled
  | auth m =>
    cases m with
    | initRequest => exact absurd rfl h
    | _ => trivial
  | main m =>
    cases m with
    | initRequest => exact absurd rfl h
    -- the one response whose data are in a group
    | fetchStoreResponse =>
      refine ⟨MainMessage.dataPresent_dependsOn (.plain 1 "error") ?_, trivial, trivial⟩
      simp
    | _ => trivial

theorem isSound {type : MessageType} (h : ¬ type.opens) : type.recordType.layout.isSound := by
  cases type with
  | core m => cases m <;> decide
  | auth m =>
    cases m with
    | initRequest => exact absurd rfl h
    | _ => decide
  | main m =>
    cases m with
    | initRequest => exact absurd rfl h
    | _ => decide

/-- So it is `Faithful`. -/
theorem faithful {type : MessageType} (h : ¬ type.opens) (sender receiver : Context) :
    type.recordType.layout.Faithful sender receiver :=
  Layout.faithful_of_isSound (isSound h) (settled h) sender receiver

/-- The only hooks of messages are `structural`. -/
theorem structural_of_hook {type : MessageType} {hook : Hook}
    (h : type.recordType.hook = some hook) :
    ∃ record version, hook = .structural record version := by
  cases type with
  | core m => cases h
  | auth m => cases h
  | main m =>
    obtain ⟨record, -, rfl⟩ := Option.map_eq_some_iff.1 h
    exact ⟨_, _, rfl⟩

/-- `response?` of an answer is none. -/
theorem response?_of_response? {type answer : MessageType}
    (h : type.response? = some answer) : answer.response? = none := by
  unfold response? at h
  split at h <;> cases h <;> rfl

end MessageType

namespace Message

/-- A message that does not open a connection, with fields that it can have.  If it embeds a record,
it says so under the structural version of that record. -/
structure Regular (m : Message) : Prop where
  type : ¬ m.type.opens
  fields : m.type.recordType.holds m.fields
  version : ∀ main record, m.type = .main main → main.embedded? = some record →
    m.fields[0]? = some (.number record.version)

/-- The hook of a `Regular` message lets pass what has been `Delivered`, as the version is the
sender's own. -/
theorem Regular.hook_passes {m : Message} (h : m.Regular) {sender receiver : Context} {hook : Hook}
    {got : List Value} (hhook : m.type.recordType.hook = some hook)
    (hdelivered : m.type.recordType.layout.Delivered sender receiver m.fields got) :
    hook got receiver = .ok got := by
  -- only main messages embed a record, and so have a hook
  cases ht : m.type with
  | core message => simp [ht, MessageType.recordType, CoreMessage.recordType] at hhook
  | auth message => simp [ht, MessageType.recordType, AuthMessage.recordType] at hhook
  | main message =>
    simp only [ht, MessageType.recordType, MainMessage.recordType, Option.map_eq_some_iff] at hhook
    obtain ⟨record, hrecord, rfl⟩ := hhook
    have hversion := h.version message record ht hrecord
    -- The version stands in the first field, which is in no group.
    have hfirst : ∃ about type, ∀ ctx shown, Place.mk 0 about type ∈
        m.type.recordType.layout.walk ctx shown 0 := by
      rw [ht]
      cases message <;> simp [MainMessage.embedded?] at hrecord <;>
        exact ⟨_, _, fun _ _ => List.mem_cons_self⟩
    obtain ⟨about, type, hwalk⟩ := hfirst
    obtain ⟨v, w, hv, hw, harrives⟩ := hdelivered.present _ (hwalk _ _) (hwalk _ _)
    obtain rfl : v = .number record.version := by simpa [hversion] using hv.symm
    have hnumber : Layout.number got 0 = record.version := by
      simp only [Layout.number, hw, Option.getD_some, harrives.toNumber_eq, Value.toNumber_number]
    -- It is the one that the hook compares with.
    simp [Hook.structural, checkStructural, hnumber]

/-- `Message.decode` of a `Regular` message that could be encoded: it has the fields that are
present for both sides as they were sent, and the rest as in a new message. -/
theorem Regular.decode_encode {m : Message} (h : m.Regular) {sender receiver : Context}
    (hok : (m.encode sender).result = .ok ()) :
    ∃ got, decode receiver m.type (m.encode sender).bytes = .ok ⟨m.type, {}, got⟩ ∧
      m.type.recordType.layout.Delivered sender receiver m.fields got := by
  have hversion : formatVersion < Varint.limit := by decide
  obtain ⟨got, hdecode, hdelivered⟩ := RecordType.decodeMessage_encodeMessage
    (MessageType.faithful h.type sender receiver) h.fields hversion
    (fun hook hhook got hd => h.hook_passes hhook hd) hok
  refine ⟨got, ?_, hdelivered⟩
  have hbytes : (m.encode sender).bytes =
      (m.type.recordType.encodeMessage formatVersion sender m.fields).bytes := rfl
  simp only [decode, decodeInto, new, hbytes, hdecode]

/-- `decode` of a message is `decodeInto` of a new one. -/
theorem decode_eq_ok {ctx : Context} {type : MessageType} {body : Bytes} {m : Message} :
    decode ctx type body = .ok m ↔ decodeInto ctx body (new type) = (m, .ok ()) := by
  unfold decode
  rcases decodeInto ctx body (new type) with ⟨found, result⟩
  cases result <;> simp

/-- `decode` of a type makes a message of the type, with an empty envelope. -/
theorem decode_ok {ctx : Context} {type : MessageType} {body : Bytes} {m : Message}
    (h : decode ctx type body = .ok m) : m.type = type ∧ m.envelope = {} := by
  rw [decode_eq_ok, decodeInto, Prod.mk.injEq] at h
  obtain ⟨rfl, -⟩ := h
  exact ⟨rfl, rfl⟩

end Message

/-! ## Messages in general -/

/-- `decodeMessage` is a left inverse of `encodeMessage` on `Faithful` layouts: if a message could
be written, reading it succeeds, the places that `walk` comes to on both sides are as they were
sent, and the rest is as in a new message (`Delivered`).  `Message.encode` and `Message.decode` are
the case of the messages that are `Regular`, which takes in all that do not open a connection. -/
theorem message_roundTrip :
    (∀ (r : RecordType) (sender receiver : Context) (sent : List Value) (version : Nat),
      r.layout.Faithful sender receiver → r.holds sent → version < Varint.limit →
      (∀ hook, r.hook = some hook → ∀ got, r.layout.Delivered sender receiver sent got →
        hook got receiver = .ok got) →
      (r.encodeMessage version sender sent).result = .ok () →
      ∃ got, r.decodeMessage receiver (r.encodeMessage version sender sent).bytes r.initials =
          (got, .ok ()) ∧
        r.layout.Delivered sender receiver sent got ∧
        ∀ p ∈ r.layout.walk sender sent 0, p ∈ r.layout.walk receiver sent 0 →
          p.type.streamFree → got[p.slot]? = sent[p.slot]?) ∧
      ∀ (m : Message) (sender receiver : Context), m.Regular →
        (m.encode sender).result = .ok () →
        ∃ got, Message.decode receiver m.type (m.encode sender).bytes = .ok ⟨m.type, {}, got⟩ ∧
          m.type.recordType.layout.Delivered sender receiver m.fields got := by
  constructor
  · -- any record type: `decodeMessage_encodeMessage`, with equality for fields without streams
    intro r sender receiver sent version hfaithful hv hversion hhook h
    obtain ⟨got, hdecode, hdelivered⟩ :=
      RecordType.decodeMessage_encodeMessage hfaithful hv hversion hhook h
    have hfields : r.layout.holds 0 sent := by
      simp only [RecordType.holds, Bool.and_eq_true] at hv
      exact hv.2
    exact ⟨got, hdecode, hdelivered,
      fun p hp hp' hfree => hdelivered.eq_of_streamFree hfields hp hp' hfree⟩
  · intro m sender receiver hm h
    exact hm.decode_encode h

/-- A record whose second field is present for kind 2 only, and whose third one needs a core record
as well. -/
def kindType : RecordType where
  name := "Kind"
  layout := .build [
    .plain 1 "kind" (.unsigned .u32),
    .grouped "extra" (fun fields _ => Layout.number fields 0 == 2) [
      .plain 2 "sizes" (.list (.unsigned .u64)),
      .grouped "note" (fun _ ctx => ctx.has .core) [.plain 3 "note" .text]]]

theorem kindType_settled : kindType.layout.Settled Likeness.arrived true [] 0 := by
  refine ⟨?_, ⟨fun _ _ _ _ => rfl, trivial, trivial⟩, trivial⟩
  -- The guard of `extra` sees a number only, so it is enough that numbers arrive unchanged.
  refine Guard.DependsOn.of_same (fun sent got ctx halike => ?_)
    (by simp [ValueType.streamFree])
  obtain ⟨v, w, hv, hw, hsame⟩ := halike ⟨0, .plain 1 "kind", .unsigned .u32⟩ (by simp)
  obtain rfl : w = v := hsame
  simp only [Layout.number, hv, hw]

/-- `decodeMessage` of a receiver without a core record: the note does not reach it, and neither
does the result of an `initResponse`. -/
theorem message_roundTrip_negotiated :
    (∃ got, kindType.decodeMessage .empty
          (kindType.encodeMessage 1 .ofLocal
            [.number 2, .list [.number 7, .number 300], .text "hm"]).bytes kindType.initials =
          (got, .ok ()) ∧
        got[1]? = some (.list [.number 7, .number 300]) ∧ got[2]? = some (.text "")) ∧
      ∃ got, Message.decode .empty (.core .initResponse)
          (Message.encode .ofLocal ⟨.core .initResponse, {}, [.number 3, .text "no"]⟩).bytes =
          .ok ⟨.core .initResponse, {}, got⟩ ∧
        got[0]? = some (.number unsetStatus) := by
  constructor
  · obtain ⟨got, hdecode, hdelivered, hsame⟩ := message_roundTrip.1 kindType .ofLocal .empty
      [.number 2, .list [.number 7, .number 300], .text "hm"] 1
      (Layout.faithful_of_isSound (by decide) kindType_settled _ _) (by decide) (by decide) nofun
      (by decide +kernel)
    refine ⟨got, hdecode, ?_, ?_⟩
    · exact hsame ⟨1, .plain 2 "sizes", .list (.unsigned .u64)⟩ (.tail _ (.head _))
        (.tail _ (.head _)) rfl
    · -- slot 2 is in no walk of the receiver, who has no core record
      refine hdelivered.absent ⟨2, .plain 3 "note", .text⟩ (.tail _ (.tail _ (.head _))) fun hboth => ?_
      have hslots : 2 ∈ (kindType.layout.walk .empty
          [.number 2, .list [.number 7, .number 300], .text "hm"] 0).map (·.slot) :=
        List.mem_map_of_mem hboth.2
      exact absurd hslots (by decide)
  · obtain ⟨got, hdecode, hdelivered⟩ := message_roundTrip.2
      ⟨.core .initResponse, {}, [.number 3, .text "no"]⟩ .ofLocal .empty
      ⟨by decide, by decide, nofun⟩ (by decide +kernel)
    refine ⟨got, hdecode, hdelivered.absent ⟨0, .plain 1 "error", .status⟩ (.head _) fun hboth => ?_⟩
    exact absurd hboth.2 List.not_mem_nil

/-! ## What a guard must not look at -/

/-- A record whose second field is present for a stream that is not complete, such as one that is
about to be sent. -/
def pendingType : RecordType where
  name := "Pending"
  layout := .build [
    .plain 1 "file" .stream,
    .grouped "note"
      (fun fields _ => match (fields : List Value).head? with
        | some (Value.stream file) => !file.complete
        | _ => false)
      [.plain 2 "note" (.unsigned .u32)]]

/-- `Settled Likeness.same` is not enough for `message_roundTrip`: where a guard looks at the
receiving side of a stream, which differs between the two ends, a place that both walks come to can
get lost. -/
theorem pendingType_loses_note :
    (pendingType.layout.distinctTags ∧
      (∀ p ∈ pendingType.layout.declared, 1 ≤ p.1.tag ∧ p.1.tag ≤ maxTag) ∧
      pendingType.layout.Settled Likeness.same true [] 0 ∧
      (∀ p ∈ pendingType.layout.places 0, ∀ old, p.type.RoundTrips p.about .empty .empty old) ∧
      pendingType.hook = none) ∧
    (pendingType.holds [.stream (.ofBytes [0x61, 0x62, 0x63]), .number 5] ∧
      (pendingType.encodeMessage 1 .empty
        [.stream (.ofBytes [0x61, 0x62, 0x63]), .number 5]).result = .ok ()) ∧
    ¬ ∃ got, pendingType.decodeMessage .empty (pendingType.encodeMessage 1 .empty
          [.stream (.ofBytes [0x61, 0x62, 0x63]), .number 5]).bytes pendingType.initials =
        (got, .ok ()) ∧
      pendingType.layout.Delivered .empty .empty
        [.stream (.ofBytes [0x61, 0x62, 0x63]), .number 5] got := by
  refine ⟨⟨by decide, by decide, ⟨?_, trivial, trivial⟩, ?_, rfl⟩, ⟨by decide, by decide +kernel⟩, ?_⟩
  · intro sent got ctx halike
    obtain ⟨v, w, hv, hw, hsame⟩ := halike ⟨0, .plain 1 "file", .stream⟩ (.head _)
    obtain rfl : w = v := hsame
    simp only [List.head?_eq_getElem?, hv, hw]
  · intro p hp old
    have hplain : p.type.isPlain ∧ 1 ≤ p.about.chunkSize := by
      rcases hp with _ | ⟨_, _ | ⟨_, hp⟩⟩
      · decide
      · decide
      · cases hp
    exact p.type.roundTrips hplain.1 hplain.2 _ _ old
  · rintro ⟨got, hdecode, hdelivered⟩
    obtain ⟨v, w, hv, hw, harrives⟩ := hdelivered.present
      ⟨1, .plain 2 "note", .unsigned .u32⟩ (.tail _ (.head _)) (.tail _ (.head _))
    obtain rfl : v = .number 5 := by simpa using hv.symm
    -- `Delivered` would have the note arrive with its 5
    have hnumber : (got[1]?.map Value.toNumber) = some 5 := by
      rw [hw, Option.map_some, harrives.toNumber_eq, Value.toNumber_number]
    -- but by the time the receiver asks the guard, its stream is complete
    have hread : ((pendingType.decodeMessage .empty (pendingType.encodeMessage 1 .empty
        [.stream (.ofBytes [0x61, 0x62, 0x63]), .number 5]).bytes
        pendingType.initials).1[1]?.map Value.toNumber) = some 0 := by
      decide +kernel
    rw [hdecode, hnumber] at hread
    exact absurd hread (by decide)

end Storefront
