import Storefront.Proofs.Schema.RoundTrip
import Storefront.Schema.Body

/-! # Messages there and back

A message is written under what its sender has negotiated and read under what its receiver has.  The
receiver gets the fields that are present for both; the others it has from a new message.

* `Faithful`      layouts whose messages arrive
* `Delivered`     what arrives of a message
* `decodeMessage_encodeMessage`
-/

namespace Storefront

namespace Layout

/-- A layout whose messages arrive: its tags are different ones, its groups depend on what has
arrived before them, and the values of its fields round trip. -/
structure Faithful (layout : Layout) (sender receiver : Context) : Prop where
  tags : layout.distinctTags
  range : ∀ p ∈ layout.declared, 1 ≤ p.1.tag ∧ p.1.tag ≤ maxTag
  guards : layout.Settled Likeness.arrived true [] 0
  types : ∀ p ∈ layout.places 0, ∀ initial, layout.initials[p.slot]? = some initial →
    p.type.RoundTrips p.about sender receiver initial

/-- What arrives of the fields of a message: those that are present on both sides as they were sent,
the others as in a new message. -/
structure Delivered (layout : Layout) (sender receiver : Context) (sent got : List Value) :
    Prop where
  length : got.length = layout.size
  present : ∀ p ∈ layout.walk sender sent 0, p ∈ layout.walk receiver sent 0 →
    ∃ v w, sent[p.slot]? = some v ∧ got[p.slot]? = some w ∧ v.Arrives w
  absent : ∀ p ∈ layout.places 0,
    ¬ (p ∈ layout.walk sender sent 0 ∧ p ∈ layout.walk receiver sent 0) →
    got[p.slot]? = layout.initials[p.slot]?

/-- `Delivered` is equality for a place without streams that both walks come to. -/
theorem Delivered.eq_of_streamFree {layout : Layout} {sender receiver : Context}
    {sent got : List Value} (h : layout.Delivered sender receiver sent got)
    (hv : layout.holds 0 sent) {p : Place} (hp : p ∈ layout.walk sender sent 0)
    (hp' : p ∈ layout.walk receiver sent 0) (hfree : p.type.streamFree) :
    got[p.slot]? = sent[p.slot]? := by
  obtain ⟨v, w, hs, hw, harrives⟩ := h.present p hp hp'
  obtain ⟨hvalue, hholds⟩ := holds_of_mem_places hv p ((walk_sublist sender sent layout 0).subset hp)
  obtain rfl : p.value sent = v := by simpa [hvalue] using hs
  rw [hw, hs, p.type.eq_of_arrives hfree hholds harrives]

theorem eq_of_mem_places {layout : Layout} {slot : Nat} {p q : Place}
    (hp : p ∈ layout.places slot) (hq : q ∈ layout.places slot) (h : p.slot = q.slot) : p = q := by
  -- `places` numbers its slots in order
  have hnodup : ((layout.places slot).map (·.slot)).Nodup := by
    rw [slots_places]
    exact List.nodup_range'
  exact List.inj_on_of_nodup_map hnodup hp hq h

/-- `decode` of a receiver that comes to the fields a sender has written fills the `initials`
with them. -/
theorem decode_delivers {layout : Layout} {sender receiver : Context} {sent : List Value}
    (h : layout.Faithful sender receiver) (hv : layout.holds 0 sent)
    (hwritten : ∀ p ∈ layout.walk sender sent 0, p.Written sender sent) :
    ∃ got, layout.decode receiver ((layout.walk sender sent 0).map (·.raw sender sent)) 0
        layout.initials = (got, .ok ()) ∧
      layout.Delivered sender receiver sent got := by
  -- The sender has written the fields in these slots.
  let written := fun slot => ∃ p ∈ layout.walk sender sent 0, p.slot = slot
  have hplace : ∀ p ∈ layout.places 0, written p.slot → p ∈ layout.walk sender sent 0 := by
    rintro p hp ⟨q, hq, hslot⟩
    exact eq_of_mem_places ((walk_sublist sender sent layout 0).subset hq) hp hslot ▸ hq
  have hoffers : Offers sender receiver sent written
      ((layout.walk sender sent 0).map (·.raw sender sent)) (layout.places 0) layout.initials := by
    constructor
    case found =>
      intro p hp hw
      have hmem := hplace p hp hw
      have hslot : p.slot < layout.initials.length := by
        have := (slot_of_mem_places hp).2
        rw [length_initials]
        omega
      have hold := List.getElem?_eq_getElem hslot
      refine ⟨find?_of_mem_walk h.tags hmem, _, hold, ?_⟩
      exact (h.types p hp _ hold).decodeBody (holds_of_mem_places hv p hp).2
        (hwritten p hmem).result
    case missing =>
      intro p hp hw
      exact find?_of_not_mem_walk h.tags hp fun hmem => hw ⟨p, hmem, rfl⟩
  -- no place is known to the guards at the start, and nothing has been filled yet
  obtain ⟨got, hdecode, hfills⟩ := layout.decode_fills
    ⟨hv, h.guards, hoffers, fun _ p hp => ⟨p, hp, rfl⟩, nofun, nofun⟩
  refine ⟨got, hdecode, ?_⟩
  constructor
  case length => rw [hfills.length, length_initials]
  case present =>
    intro p hp hp'
    obtain ⟨w, hw, harrives⟩ := hfills.arrived p hp' ⟨p, hp, rfl⟩
    exact ⟨_, w, (hwritten p hp).standing, hw, harrives⟩
  case absent =>
    intro p hp hnot
    exact hfills.kept p hp fun hboth => hnot ⟨hplace p hp hboth.1, hboth.2⟩

end Layout

namespace RecordType

/-- `encodeMessage` puts the format version in front of what `encode` makes of the fields. -/
theorem encodeMessage_ok {r : RecordType} {version : Nat} {ctx : Context} {fields : List Value}
    (h : (r.encodeMessage version ctx fields).result = .ok ()) :
    (r.layout.encode ctx fields 0 fields).result = .ok () ∧
      (r.encodeMessage version ctx fields).bytes =
        RawField.octets ⟨formatVersionTag, .varint, Varint.encode version⟩ ++
          (r.layout.encode ctx fields 0 fields).bytes := by
  -- The tag of the format version fits a key, so nothing can fail before the fields.
  have hkey : Wire.key formatVersionTag .varint =
    .ok (Varint.encode (formatVersionTag * 8 + WireType.varint.bits)) := rfl
  simp only [encodeMessage, hkey] at h ⊢
  exact ⟨h, rfl⟩

/-- `ofBody` finds the format version in front of fields with other tags, and `checkFormatVersion`
lets it pass. -/
theorem index_of_version {bound : Nat → Option Nat} {version : Nat} {fields : FieldIndex}
    (hversion : version < Varint.limit)
    (hf : ∀ f ∈ fields, f.tag ≤ maxTag ∧ f.Framed (bound f.tag))
    (hnodup : (fields.map (·.tag)).Nodup) (htags : ∀ f ∈ fields, f.tag ≠ formatVersionTag) :
    ∃ index, FieldIndex.ofBody bound (RawField.octets
          ⟨formatVersionTag, .varint, Varint.encode version⟩ ++ fields.flatMap RawField.octets) =
        .ok index ∧
      checkFormatVersion index = .ok () ∧ index.without formatVersionTag = fields := by
  refine ⟨⟨formatVersionTag, .varint, Varint.encode version⟩ :: fields, ?_, ?_, ?_⟩
  · -- `ofBody` accepts: all fields framed, and tag 0 is not among the others
    rw [← List.flatMap_cons]
    refine FieldIndex.ofBody_flatMap (fun f hm => ?_) ?_
    · rcases List.mem_cons.1 hm with rfl | hm
      · exact ⟨Nat.zero_le _, RawField.framed_varint _ _ hversion⟩
      · exact hf f hm
    · rw [List.map_cons, List.nodup_cons]
      refine ⟨fun hm => ?_, hnodup⟩
      obtain ⟨f, hm, htag⟩ := List.mem_map.1 hm
      exact htags f hm htag
  · -- `checkFormatVersion` finds the version first and reads it whole
    have hread := Cursor.varint_append hversion 0 []
    rw [List.append_nil] at hread
    simp [checkFormatVersion, FieldIndex.find?, RawField.expect, RawField.cursor, Cursor.start,
      hread]
  · simp only [FieldIndex.without, List.filter_cons, bne_self_eq_false, Bool.false_eq_true,
      if_false, List.filter_eq_self]
    exact fun f hm => by simpa using htags f hm

/-- `decodeMessage` of what `encodeMessage` has written: the receiver has what is present for both
sides as it was sent and the rest as in a new message. -/
theorem decodeMessage_encodeMessage {r : RecordType} {sender receiver : Context}
    {sent : List Value} {version : Nat} (hfaithful : r.layout.Faithful sender receiver)
    (hv : r.holds sent) (hversion : version < Varint.limit)
    (hhook : ∀ hook, r.hook = some hook → ∀ got, r.layout.Delivered sender receiver sent got →
      hook got receiver = .ok got)
    (h : (r.encodeMessage version sender sent).result = .ok ()) :
    ∃ got, r.decodeMessage receiver (r.encodeMessage version sender sent).bytes r.initials =
        (got, .ok ()) ∧
      r.layout.Delivered sender receiver sent got := by
  simp only [holds, Bool.and_eq_true, beq_iff_eq] at hv
  obtain ⟨hencode, hbytes⟩ := encodeMessage_ok h
  obtain ⟨hfields, hwritten⟩ := r.layout.encode_ok (fun _ _ => rfl) hencode
  obtain ⟨got, hdecode, hdelivered⟩ := Layout.decode_delivers hfaithful hv.2 hwritten
  -- declared tags begin at 1
  have htags : ∀ f ∈ (r.layout.walk sender sent 0).map (·.raw sender sent),
      f.tag ≠ formatVersionTag := by
    intro f hf
    obtain ⟨p, hp, rfl⟩ := List.mem_map.1 hf
    have hplace := (Layout.walk_sublist sender sent r.layout 0).subset hp
    exact Nat.ne_of_gt (hfaithful.range _ (Layout.declared_of_mem_places hplace)).1
  obtain ⟨index, hindex, hcheck, hwithout⟩ := index_of_version hversion
    (Layout.framed_walk hfaithful.tags (Layout.inRange_of_mem_walk hv.2) hwritten)
    (by
      rw [List.map_map]
      exact Layout.nodup_tags_walk hfaithful.tags sender sent 0) htags
  rw [← hfields, ← hbytes] at hindex
  refine ⟨got, ?_, hdelivered⟩
  have hindex : r.index (r.encodeMessage version sender sent).bytes = .ok index := by
    rw [RecordType.index, hindex]
    rfl
  simp only [decodeMessage, hindex, hcheck, hwithout, decodeIndexed, initials, hdecode]
  -- the hook, if there is one, has been promised to pass
  cases hr : r.hook with
  | none => rfl
  | some hook => simp only [hhook hook hr got hdelivered]

end RecordType

end Storefront
