import Storefront.Proofs.Schema.Transfer

/-! # Streams that are sent again

Writing a stream field takes its source away, even if it fails, so there is nothing left to be sent
when the field is written once more.  A size that was announced shows this: no octets follow it, and
the write is refused.  Without one, and with an announced size of zero, what is written is a whole
stream of no octets, and its receiver cannot tell it from one that was meant.

* `send_of_silent`, `send_of_announced`   what writing comes to without a source
* `receive_nothing`      what a receiver makes of a stream without octets
* `resend_refused_iff`   which fields refuse to be sent again
-/

namespace Storefront

namespace Source

theorem fill_nil (room : Nat) : fill room [] = (.ok [], []) := by
  rw [fill, fillFrom]
  split
  · rfl
  · split <;> simp_all [read]

/-- `pieces` of a source that has nothing. -/
theorem pieces_nil (tag : Nat) (max : Option Nat) (room : Nat) :
    pieces tag max room [] = ([], .ok ()) := by
  rw [pieces, piecesFrom]
  have hfill := fill_nil room
  split <;> simp_all

end Source

namespace StreamField

variable {field : StreamField} {m : FieldMeta}

/-- `send` takes the source away and leaves the rest of the field, unless the announced size is
refused before. -/
theorem send_field (m : FieldMeta) (field : StreamField) :
    (field.send m).field = field ∨ (field.send m).field = { field with source := none } := by
  unfold send
  cases field.declared.elim (.ok ()) (checkBound m.tag · m.maxSize) with
  | error e => exact .inl rfl
  | ok u =>
    right
    dsimp only
    cases ((field.source.getD []).pieces m.tag m.maxSize (chunkRoom m)).2 <;> rfl

/-- The field after it has been written any number of times. -/
def afterSends (field : StreamField) (later : List FieldMeta) : StreamField :=
  later.foldl (fun field m => (field.send m).field) field

/-- `afterSends` does not give back a source that has been taken. -/
theorem afterSends_of_drained (h : field.source = none) (later : List FieldMeta) :
    field.afterSends later = field := by
  -- Along the writes: each of them leaves the field that it was made on.
  induction later with
  | nil => rfl
  | cons m later ih =>
    have hsame : (field.send m).field = field := by
      have hdrained : { field with source := none } = field := by rw [← h]
      rcases send_field m field with hfield | hfield
      · exact hfield
      · rw [hfield, hdrained]
    have hstep : field.afterSends (m :: later) = (field.send m).field.afterSends later := rfl
    rw [hstep, hsame, ih]

/-- `declared` is a number of octets, other than none, or it is not. -/
theorem silent_or_announces (declared : Option Nat) :
    (declared = none ∨ declared = some 0) ∨ ∃ n, declared = some n ∧ n ≠ 0 := by
  cases declared with
  | none => exact .inl (.inl rfl)
  | some n =>
    by_cases hzero : n = 0
    · exact .inl (.inr (hzero ▸ rfl))
    · exact .inr ⟨n, rfl, hzero⟩

/-- `send` without a source writes a stream of no chunks, where no octets are announced. -/
theorem send_of_silent (h : field.source = none)
    (hd : field.declared = none ∨ field.declared = some 0) (m : FieldMeta) :
    field.send m =
      ⟨Wire.streamStart field.declared ++ Wire.streamEnd, field, .ok (), Progress.ofStream []⟩ := by
  have hzero : checkBound m.tag 0 m.maxSize = .ok () := checkBound_eq_ok.2 fun _ _ => Nat.zero_le _
  obtain ⟨source, declared, data, received, chunks, complete⟩ := field
  obtain rfl : source = none := h
  rcases hd with hd | hd
  · obtain rfl : declared = none := hd
    simp [send, Source.pieces_nil]
  · obtain rfl : declared = some 0 := hd
    simp [send, hzero, Source.pieces_nil]

/-- `send` without a source fails where octets are announced: their number is above the bound, or it
is missed at the end. -/
theorem send_of_announced (h : field.source = none) {n : Nat} (hd : field.declared = some n)
    (hn : n ≠ 0) (m : FieldMeta) :
    (field.send m).result = (checkBound m.tag n m.maxSize).bind fun _ =>
      .error (.invalidValue m.tag (.miscountedSource n 0)) := by
  cases hbound : checkBound m.tag n m.maxSize with
  | error e => simp [send, hd, hbound, Except.bind]
  | ok u => simp [send, hd, hbound, h, Source.pieces_nil, hn, Except.bind]

/-- `send` without a source fails exactly if octets are announced. -/
theorem send_error_iff_of_drained (h : field.source = none) (m : FieldMeta) :
    (∃ e, (field.send m).result = .error e) ↔ ∃ n, field.declared = some n ∧ n ≠ 0 := by
  constructor
  · rintro ⟨e, he⟩
    rcases silent_or_announces field.declared with hd | hannounced
    · rw [send_of_silent h hd] at he
      cases he
    · exact hannounced
  · rintro ⟨n, hd, hn⟩
    rw [send_of_announced h hd hn]
    cases checkBound m.tag n m.maxSize with
    | error e => exact ⟨e, rfl⟩
    | ok u => exact ⟨_, rfl⟩

/-- `receive` takes a stream of no chunks for a whole one if it announces nothing else. -/
theorem receive_nothing {declared : Option Nat} (hd : declared = none ∨ declared = some 0)
    (m : FieldMeta) (old : StreamField) (p : Nat) (rest : Bytes) :
    old.receive m ⟨p, Wire.streamStart declared ++ Wire.streamEnd ++ rest⟩ =
      ⟨{ source := old.source, declared, complete := true },
        ⟨p + (Wire.streamStart declared ++ Wire.streamEnd).length, rest⟩, .ok (),
        Progress.ofStream []⟩ := by
  have hannounced : ∀ n, declared = some n →
      n < Varint.limit ∧ n = ([] : List Bytes).flatten.length := by
    rintro n rfl
    rcases hd with hd | hd
    · cases hd
    · cases hd
      exact ⟨by decide, rfl⟩
  -- The mark of a stream that announces no size is not taken for a size.
  have hread : declared.filter (· != Wire.undeclaredSize) = declared := by
    rcases hd with rfl | rfl <;> rfl
  have hbound : checkBound m.tag ([] : List Bytes).flatten.length m.maxSize = .ok () :=
    checkBound_eq_ok.2 fun _ _ => Nat.zero_le _
  have hreceived := receive_chunks hannounced nofun hbound old p rest
  rw [List.flatMap_nil, List.append_nil, hread] at hreceived
  exact hreceived

/-- `send` has taken the source of a field, and then the field is sent again, however often.  Each
of these calls fails if `declared` is a number of octets, other than none, and so it does if the
source yielded some and they were all sent as announced.  Otherwise each of them succeeds with a
stream of no octets, which any `receive` takes for a whole one. -/
theorem resend_refused_iff (hsource : field.source.isSome)
    (htaken : (field.send m).field.source = none) (later : List FieldMeta) (m' : FieldMeta) :
    let again := ((field.send m).field.afterSends later).send m'
    ((∃ e, again.result = .error e) ↔ ∃ n, field.declared = some n ∧ n ≠ 0) ∧
      ((field.send m).result = .ok () → field.declared.isSome →
        (∀ bs, (field.source.getD []).Yields bs → bs ≠ []) → ∃ e, again.result = .error e) ∧
      (again.result = .ok () → again.reports = Progress.ofStream [] ∧
        ∀ m'' (old : StreamField) p rest, old.receive m'' ⟨p, again.bytes ++ rest⟩ =
          ⟨{ source := old.source, declared := field.declared, complete := true },
            ⟨p + again.bytes.length, rest⟩, .ok (), Progress.ofStream []⟩) := by
  intro again
  have hagain : again = { field with source := none }.send m' := by
    -- The first write has taken the source, and no later one gives it back.
    have hfield : (field.send m).field = { field with source := none } := by
      rcases send_field m field with hfield | hfield
      · rw [hfield] at htaken
        rw [htaken] at hsource
        cases hsource
      · exact hfield
    show ((field.send m).field.afterSends later).send m' = _
    rw [hfield, afterSends_of_drained rfl]
  have hrefused : (∃ e, again.result = .error e) ↔ ∃ n, field.declared = some n ∧ n ≠ 0 := by
    rw [hagain]
    exact send_error_iff_of_drained rfl m'
  refine ⟨hrefused, ?announced, ?empty⟩
  case announced =>
    intro hsent hdeclared hyields
    obtain ⟨chunks, hdrains⟩ := send_drains hsent
    obtain ⟨n, hn⟩ := Option.isSome_iff_exists.1 hdeclared
    -- The announced size was that of what the source yielded, which is not nothing.
    have hsome := hyields _ hdrains.yields
    have hcount := hdrains.announced n hn
    have hpositive := List.length_pos_iff.2 hsome
    exact hrefused.2 ⟨n, hn, by omega⟩
  case empty =>
    intro hok
    -- A write that succeeds has had no octets to account for.
    have hd : field.declared = none ∨ field.declared = some 0 := by
      rcases silent_or_announces field.declared with hd | hannounced
      · exact hd
      · obtain ⟨e, he⟩ := hrefused.2 hannounced
        rw [hok] at he
        cases he
    have hdrained : ({ field with source := none } : StreamField).source = none := rfl
    rw [hagain, send_of_silent hdrained hd]
    exact ⟨rfl, fun m'' old p rest => receive_nothing hd m'' old p rest⟩

/-- A sender of three octets at hand. -/
def threeOctets (declared : Option Nat) : StreamField :=
  .ofSource (.ofBytes [0x61, 0x62, 0x63]) declared

/-- `send` of the three octets. -/
theorem send_threeOctets {declared : Option Nat} (hd : ∀ n, declared = some n → n = 3) :
    (threeOctets declared).send (.plain 1 "file") =
      ⟨Wire.streamed declared FieldMeta.defaultChunkSize [0x61, 0x62, 0x63], { declared },
        .ok (), Progress.ofCut FieldMeta.defaultChunkSize [0x61, 0x62, 0x63]⟩ := by
  have hdelivers : (Source.ofBytes [0x61, 0x62, 0x63]).Delivers [0x61, 0x62, 0x63] :=
    .octets nofun .ended
  have hmax : ∀ max, (FieldMeta.plain 1 "file").maxSize = some max → 3 ≤ max := nofun
  exact send_of_delivers rfl hdelivers (by decide) (by decide) hmax hd

/-- `send` of three octets that are not `declared`, and once more: the second call finds no source,
and succeeds with a stream of no octets; `receive` calls the field that it reads from that
`complete`. -/
theorem resend_unnoticed :
    let first := (threeOctets none).send (.plain 1 "file")
    let again := first.field.send (.plain 1 "file")
    first.result = .ok () ∧ first.field.source = none ∧
      again.result = .ok () ∧ again.bytes = Wire.streamStart none ++ Wire.streamEnd ∧
      receive (.plain 1 "file") {} ⟨0, again.bytes ++ []⟩ =
        ⟨{ complete := true }, ⟨11, []⟩, .ok (), Progress.ofStream []⟩ := by
  intro first again
  have hfirst : first = _ := send_threeOctets nofun
  have hagain : again =
      ⟨Wire.streamStart none ++ Wire.streamEnd, {}, .ok (), Progress.ofStream []⟩ := by
    show first.field.send _ = _
    rw [hfirst]
    exact send_of_silent rfl (.inl rfl) _
  rw [hfirst, hagain]
  exact ⟨rfl, rfl, rfl, rfl, receive_nothing (.inl rfl) _ {} 0 []⟩

/-- `send` of three octets that were announced: it succeeds once, and neither at once nor
later again. -/
theorem resend_refused_three :
    let first := (threeOctets (some 3)).send (.plain 1 "file")
    ∃ e, ((first.field.afterSends [.plain 1 "file"]).send (.plain 1 "file")).result = .error e := by
  intro first
  have hfirst : first = _ := send_threeOctets fun n hn => (Option.some.inj hn).symm
  have htaken : first.field.source = none := by rw [hfirst]
  have hsent : first.result = .ok () := by rw [hfirst]
  have hsteady : (Source.ofBytes [0x61, 0x62, 0x63]).Steady := by
    intro a ha
    rw [List.mem_singleton.1 ha]
    rfl
  have hyields : ∀ bs, (Source.ofBytes [0x61, 0x62, 0x63]).Yields bs → bs ≠ [] := by
    rintro bs h rfl
    cases h.eq_octets hsteady
  have hrefused := resend_refused_iff rfl htaken [.plain 1 "file"] (.plain 1 "file")
  exact hrefused.2.1 hsent rfl hyields

end StreamField

end Storefront
