import Storefront.Proofs.Frame.Sending

/-! # Frames that are cut off

When a write fails in the middle of a frame, its beginning stays on the sink, and the frame that is
sent next stands right behind it.  As long as nothing is put behind such a beginning, frames stay
apart: at any time the sink holds whole frames and at most the beginning of one more.

* `Apart`                whole frames, and at most the beginning of another
* `Sends.octets`         what sends have put on the sink
* `frames_stay_apart`    frames stay apart while nothing is put behind one that is cut off
* `frames_run_together`  and do not when something is
-/

namespace Storefront

namespace Frame

/-- Nothing, or the beginning of one of the given frames. -/
def Begun (frames : List Frame) (part : Bytes) : Prop :=
  part = [] ∨ ∃ frame ∈ frames, ∃ missing, missing ≠ [] ∧ part ++ missing = frame.octets

/-- Some of the given frames as a whole, and at most the beginning of another one. -/
def Apart (frames : List Frame) (bs : Bytes) : Prop :=
  ∃ (whole : List Frame) (part : Bytes),
    whole.Sublist frames ∧ bs = whole.flatMap octets ++ part ∧ Begun frames part

variable {frames whole : List Frame} {bs part : Bytes}

/-- What stands in front of some place in a run of frames is a run of frames, with one that has
`Begun` behind it. -/
theorem exists_whole_of_prefix (hwhole : whole ⊆ frames) (hpart : Begun frames part)
    (h : bs <+: whole.flatMap octets ++ part) :
    ∃ whole' part', whole' <+: whole ∧ bs = whole'.flatMap octets ++ part' ∧
      Begun frames part' := by
  obtain ⟨behind, hbehind⟩ := h
  induction whole generalizing bs with
  | nil =>
    rw [List.flatMap_nil, List.nil_append] at hbehind
    -- No whole frame is left, so the place is in the beginning of one.
    subst hbehind
    refine ⟨[], bs, List.nil_prefix, rfl, ?_⟩
    rcases hpart with hnone | ⟨frame, hmem, missing, hmissing, hsplit⟩
    · exact .inl (List.append_eq_nil_iff.1 hnone).1
    · rw [List.append_assoc] at hsplit
      exact .inr ⟨frame, hmem, behind ++ missing, by simp [hmissing], hsplit⟩
  | cons first whole ih =>
    obtain ⟨hfirst, hwhole⟩ := List.cons_subset.1 hwhole
    rw [List.flatMap_cons, List.append_assoc, List.append_eq_append_iff] at hbehind
    rcases hbehind with ⟨missing, hsplit, -⟩ | ⟨more, rfl, hrest⟩
    · -- The place is in the first frame, or right behind it.
      by_cases hmissing : missing = []
      · refine ⟨[first], [], ⟨whole, rfl⟩, ?_, .inl rfl⟩
        rw [hmissing, List.append_nil] at hsplit
        simp [hsplit]
      · exact ⟨[], bs, List.nil_prefix, rfl, .inr ⟨first, hfirst, missing, hmissing, hsplit.symm⟩⟩
    · obtain ⟨whole', part', hwhole', rfl, hpart'⟩ := ih hwhole hrest.symm
      refine ⟨first :: whole', part', List.prefix_cons_inj first |>.2 hwhole', ?_, hpart'⟩
      rw [List.flatMap_cons, List.append_assoc]

/-- Octets in front of such a place are `Apart`. -/
theorem apart_of_prefix (hwhole : whole.Sublist frames) (hpart : Begun frames part)
    (h : bs <+: whole.flatMap octets ++ part) : Apart frames bs := by
  obtain ⟨whole', part', hprefix, hbs, hpart'⟩ := exists_whole_of_prefix hwhole.subset hpart h
  exact ⟨whole', part', hprefix.sublist.trans hwhole, hbs, hpart'⟩

theorem take_two_octets (frame : Frame) : frame.octets.take 2 = magic := by
  simp [octets, header, magic]

/-- Whatever frames octets are `Apart` for, the first of them starts with `magic`. -/
theorem Apart.take_two (h : Apart frames bs) (hlength : 2 ≤ bs.length) : bs.take 2 = magic := by
  obtain ⟨whole, part, -, rfl, hpart⟩ := h
  cases whole with
  | nil =>
    rw [List.flatMap_nil, List.nil_append] at hlength ⊢
    rcases hpart with rfl | ⟨frame, -, missing, -, hsplit⟩
    · exact absurd hlength (by decide)
    · rw [← frame.take_two_octets, ← hsplit, List.take_append_of_le_length hlength]
  | cons first whole =>
    have hheader : 2 ≤ first.octets.length := by
      rw [octets, List.length_append, length_header]
      exact Nat.le_add_right_of_le (by decide)
    rw [List.flatMap_cons, List.append_assoc, List.take_append_of_le_length hheader,
      first.take_two_octets]

end Frame

/-- The beginning of the frame is on the sink, and its end is not. -/
def Receipt.Torn (receipt : Receipt) : Prop := receipt.put ≠ [] ∧ receipt.missing ≠ []

namespace FrameWriter

/-- The frames that have been put on the sink as a whole. -/
def whole (receipts : List Receipt) : List Frame :=
  (receipts.filter (·.missing.isEmpty)).map (·.frame)

variable {writer writer' : FrameWriter} {receipt : Receipt} {receipts : List Receipt}
variable {part : Bytes}

/-- The whole frames are among those that sends were made of, in their order. -/
theorem whole_sublist (receipts : List Receipt) :
    (whole receipts).Sublist (receipts.map (·.frame)) :=
  List.filter_sublist.map _

theorem whole_cons_of_missing_eq_nil (h : receipt.missing = []) :
    whole (receipt :: receipts) = receipt.frame :: whole receipts := by
  rw [whole, List.filter_cons_of_pos (by simp [h])]
  rfl

theorem whole_cons_of_missing_ne_nil (h : receipt.missing ≠ []) :
    whole (receipt :: receipts) = whole receipts := by
  rw [whole, List.filter_cons_of_neg (by simpa using h)]
  rfl

/-- Where nothing has been `put` on the sink, no frame is `whole`. -/
theorem Sends.whole_eq_nil (h : writer.Sends receipts writer')
    (hnone : ∀ receipt ∈ receipts, receipt.put = []) : whole receipts = [] := by
  rw [whole, List.map_eq_nil_iff, List.filter_eq_nil_iff]
  intro receipt hmem hmissing
  obtain ⟨before, after, hmade⟩ := h.forall_made receipt hmem
  have hput := hmade.put_eq (List.isEmpty_iff.1 hmissing)
  exact Frame.octets_ne_nil _ (hput.symm.trans (hnone receipt hmem))

/-- Where nothing is put behind a frame that is `Torn`, sends put whole frames on the sink, and at
most one beginning behind them. -/
theorem Sends.octets (h : writer.Sends receipts writer')
    (hbehind : receipts.Pairwise fun earlier later => earlier.Torn → later.put = []) :
    ∃ part, receipts.flatMap (·.put) = (whole receipts).flatMap Frame.octets ++ part ∧
      (part = [] ∨ ∃ receipt ∈ receipts, receipt.Torn ∧ receipt.put = part) := by
  induction h with
  | none => exact ⟨[], rfl, .inl rfl⟩
  | @one writer writer₁ writer' receipt receipts hmade hsends ih =>
    obtain ⟨hfirst, hbehind⟩ := List.pairwise_cons.1 hbehind
    obtain ⟨part, hrest, hpart⟩ := ih hbehind
    have hpart' : part = [] ∨ ∃ other ∈ receipt :: receipts, other.Torn ∧ other.put = part :=
      hpart.imp_right fun ⟨other, hmem, htorn⟩ => ⟨other, List.mem_cons_of_mem _ hmem, htorn⟩
    by_cases hmissing : receipt.missing = []
    · refine ⟨part, ?_, hpart'⟩
      rw [whole_cons_of_missing_eq_nil hmissing, List.flatMap_cons, List.flatMap_cons, hrest,
        hmade.put_eq hmissing, List.append_assoc]
    · rw [whole_cons_of_missing_ne_nil hmissing, List.flatMap_cons]
      by_cases hput : receipt.put = []
      · exact ⟨part, by rw [hput, hrest, List.nil_append], hpart'⟩
      · -- This frame is cut off, so it is the last of which anything has been put on the sink.
        have hnone := fun later hmem => hfirst later hmem ⟨hput, hmissing⟩
        refine ⟨receipt.put, ?_, .inr ⟨receipt, List.mem_cons_self, ⟨hput, hmissing⟩, rfl⟩⟩
        rw [hsends.whole_eq_nil hnone, List.flatMap_eq_nil_iff.2 hnone, List.append_nil]
        rfl

/-- What a `Torn` receipt has put is a frame that has `Begun`. -/
theorem Sends.begun_of_torn (h : writer.Sends receipts writer')
    (hpart : part = [] ∨ ∃ receipt ∈ receipts, receipt.Torn ∧ receipt.put = part) :
    Frame.Begun (receipts.map (·.frame)) part := by
  refine hpart.imp_right ?_
  rintro ⟨receipt, hmem, htorn, rfl⟩
  obtain ⟨before, after, hmade⟩ := h.forall_made receipt hmem
  exact ⟨receipt.frame, List.mem_map_of_mem hmem, receipt.missing, htorn.2, hmade.split⟩

/-! ## Reading what has been put on the sink -/

section

variable {maxPayload : Nat}

/-- A `whole` frame `Fits` a reader whose limit is large enough. -/
theorem Sends.fits_whole (h : writer.Sends receipts writer')
    (hlimit : ∀ receipt ∈ receipts, receipt.frame.payload.length ≤ maxPayload) :
    ∀ frame ∈ whole receipts, frame.Fits maxPayload := by
  intro frame hframe
  obtain ⟨receipt, hwhole, rfl⟩ := List.mem_map.1 hframe
  obtain ⟨hmem, hmissing⟩ := List.mem_filter.1 hwhole
  obtain ⟨before, after, hmade⟩ := h.forall_made receipt hmem
  -- A frame that has been put down as a whole was not refused for its size.
  have hwrites := hmade.written_of_missing_eq_nil (List.isEmpty_iff.1 hmissing)
  exact ⟨hlimit receipt hmem, hmade.length_le hwrites⟩

/-- `decode` of what a `Torn` receipt has put answers `none`. -/
theorem decode_of_torn (h : writer.Sends receipts writer')
    (hlimit : ∀ receipt ∈ receipts, receipt.frame.payload.length ≤ maxPayload)
    (hpart : part = [] ∨ ∃ receipt ∈ receipts, receipt.Torn ∧ receipt.put = part) :
    Frame.decode maxPayload part = .ok none := by
  rcases hpart with rfl | ⟨receipt, hmem, ⟨hput, hmissing⟩, rfl⟩
  · rfl
  · obtain ⟨before, after, hmade⟩ := h.forall_made receipt hmem
    have hwrites : receipt.writes ≠ [] := fun hnone => hput (hmade.refused_of_unwritten hnone).2.2
    exact Frame.decode_of_unfinished ⟨hlimit receipt hmem, hmade.length_le hwrites⟩
      hmade.split.symm hmissing

end

/-- The frames whose `send` succeeded are among the `whole` ones. -/
theorem Sends.sent_sublist (h : writer.Sends receipts writer') :
    ((receipts.filter (·.result.isOk)).map (·.frame)).Sublist (whole receipts) := by
  -- A send that succeeds has put the whole frame down, so keeping the successful ones of the whole
  -- ones is keeping the successful ones.
  have hwhole : receipts.filter (·.result.isOk) =
      (receipts.filter (·.missing.isEmpty)).filter (·.result.isOk) := by
    rw [List.filter_filter]
    refine List.filter_congr fun receipt hmem => ?_
    obtain ⟨before, after, hmade⟩ := h.forall_made receipt hmem
    cases hresult : receipt.result with
    | error e => rfl
    | ok u => simp [Except.isOk, Except.toBool, hmade.missing_eq_nil_iff.2 (.inl hresult)]
  rw [hwhole]
  exact List.filter_sublist.map _

end FrameWriter

open FrameWriter FrameReader in
/-- Frames are sent one after the other, and nothing is put on the sink behind one that has been cut
off.  Then at any time what is there is `Apart`: some of the frames as a whole, and at most the
beginning of another one.  Those whose `FrameWriter.send` succeeded are among the whole ones, and
these are what the `FrameReader` of such a sink finds, in order, before `connectionClosed`. -/
theorem frames_stay_apart {writer writer' : FrameWriter} {receipts : List Receipt}
    (hsends : writer.Sends receipts writer')
    (hbehind : receipts.Pairwise fun earlier later => earlier.Torn → later.put = []) :
    writer'.sink.written = writer.sink.written ++ receipts.flatMap (·.put) ∧
      (∀ bs, bs <+: receipts.flatMap (·.put) → Frame.Apart (receipts.map (·.frame)) bs) ∧
      ((receipts.filter (·.result.isOk)).map (·.frame)).Sublist (whole receipts) ∧
      ∀ (source : Source) (maxPayload times : Nat),
        (∀ receipt ∈ receipts, receipt.frame.payload.length ≤ maxPayload) → source.Intact →
        source.octets = receipts.flatMap (·.put) →
        ∃ reader, (ofSource source maxPayload).run
            (List.replicate ((whole receipts).length + times) .read) =
          ((whole receipts).map .ok ++ List.replicate times (.error .connectionClosed), reader) := by
  obtain ⟨part, hoctets, hpart⟩ := hsends.octets hbehind
  refine ⟨hsends.written, fun bs hbs => ?_, hsends.sent_sublist,
    fun source maxPayload times hlimit hintact hsource => ?_⟩
  · rw [hoctets] at hbs
    exact Frame.apart_of_prefix (whole_sublist receipts) (hsends.begun_of_torn hpart) hbs
  · have hholds : (ofSource source maxPayload).Holds
        ((whole receipts).flatMap Frame.octets ++ part) := ⟨hsource.trans hoctets, hintact⟩
    obtain ⟨reader, hrun, -⟩ := hholds.run_reads (hsends.fits_whole hlimit)
      (decode_of_torn hsends hlimit hpart) times
    exact ⟨reader, hrun⟩

/-- A sink that takes one frame of 19 octets and five octets of the next one, and is broken from
then on. -/
def breakingWriter : FrameWriter :=
  ⟨⟨[.most 19, .most 5, .fault .brokenPipe, .fault .brokenPipe], [], []⟩, 8⟩

/-- What becomes of three frames on this sink. -/
def breakingReceipts : List Receipt :=
  [⟨pairFrame, .ok (), [.ok 19], [.ok ()], pairFrame.octets, []⟩,
    ⟨pairFrame, .error (.io .brokenPipe), [.ok 5, .error .brokenPipe], [],
      pairFrame.octets.take 5, pairFrame.octets.drop 5⟩,
    ⟨.keepalive, .error (.io .brokenPipe), [.error .brokenPipe], [], [], Frame.keepalive.octets⟩]

open FrameReader in
/-- `send` of a second frame that is cut off, with nothing behind it, and `run` over the
first one. -/
theorem frames_stay_apart_breaking :
    (breakingReceipts.Pairwise fun earlier later => earlier.Torn → later.put = []) ∧
      ∃ reader, (ofSource (.ofBytes (breakingReceipts.flatMap (·.put))) 8).run [.read, .read] =
        ([.ok pairFrame, .error .connectionClosed], reader) := by
  have hsends : breakingWriter.Sends breakingReceipts
      (breakingWriter.sendAll [pairFrame, pairFrame, .keepalive]).2 := by
    refine .one ⟨rfl, .one rfl (.none _), .one rfl (.none _), rfl, rfl, ?_⟩ <|
      .one ⟨rfl, .one rfl (.one rfl (.none _)), .none _, rfl, rfl, ?_⟩ <|
      .one ⟨rfl, .one rfl (.none _), .none _, rfl, rfl, ?_⟩ (.none _)
    · exact .whole rfl (.granted (by simp [Sink.refusal?])) rfl (by simp)
        (.granted (by simp [Sink.flushFailure?]))
    · exact .cut rfl rfl (.cons rfl (Sink.verdict_single rfl)) rfl (by decide)
    · exact .cut rfl rfl (Sink.verdict_single rfl) rfl (by decide)
  have hbehind : breakingReceipts.Pairwise fun earlier later =>
      earlier.Torn → later.put = [] := by
    simp [breakingReceipts, Receipt.Torn]
  refine ⟨hbehind, ?_⟩
  apply (frames_stay_apart hsends hbehind).2.2.2 _ 8 1
  · decide
  · exact Source.intact_ofBytes _
  · exact List.append_nil _

/-! ## Frames that run together -/

namespace FrameReader

variable {reader : FrameReader} {bs : Bytes}

/-- `run` over octets that do not start with `magic` answers `invalidMagic` every time. -/
theorem Holds.run_unmarked (h : reader.Holds bs) (hwhole : Frame.headerSize ≤ bs.length)
    (hmark : bs.take 2 ≠ Frame.magic) (calls : List Call) :
    ∀ result ∈ (reader.run calls).1, result = .error .invalidMagic := by
  induction calls generalizing reader with
  | nil => exact List.forall_mem_nil _
  | cons call calls ih =>
    cases call with
    | read =>
      obtain ⟨reader', hread, hholds, -⟩ := h.readFrame_first
      -- The header is refused, and the octets stay where they are for the next call.
      simp only [Frame.first, Frame.decode_of_unmarked hwhole hmark] at hread hholds
      simp only [run, hread]
      exact List.forall_mem_cons.2 ⟨rfl, ih hholds⟩
    | limit maxPayload => exact @ih { reader with maxPayload } ⟨h.octets, h.intact⟩

end FrameReader

/-- Two frames with payloads of one octet. -/
def firstFrame : Frame := ⟨⟨0, 4⟩, 1, [0xAA]⟩

/-- The frame that is sent behind `firstFrame`. -/
def secondFrame : Frame := ⟨⟨0, 4⟩, 2, [0xBB]⟩

/-- A sink that takes one octet, breaks, and takes everything from then on. -/
def mendedWriter : FrameWriter :=
  ⟨⟨[.most 1, .fault .brokenPipe], [], []⟩, Frame.defaultMaxPayload⟩

open FrameReader in
/-- `FrameWriter.send` may fail after the first octet of a frame, and the next `send` then succeeds
right behind it.  What is on the sink is not `Apart`, whatever the frames may be, and no call of a
`FrameReader` ever finds one. -/
theorem frames_run_together :
    (mendedWriter.sendAll [firstFrame, secondFrame]).1 = [.error (.io .brokenPipe), .ok ()] ∧
      (mendedWriter.sendAll [firstFrame, secondFrame]).2.sink.written =
        0x53 :: secondFrame.octets ∧
      (∀ frames, ¬ Frame.Apart frames (0x53 :: secondFrame.octets)) ∧
      ∀ source maxPayload calls, source.Intact → source.octets = 0x53 :: secondFrame.octets →
        ∀ frame, .ok frame ∉ ((ofSource source maxPayload).run calls).1 := by
  have hmark : (0x53 :: secondFrame.octets).take 2 ≠ Frame.magic := by decide
  refine ⟨rfl, rfl, fun frames hapart => hmark (hapart.take_two (by decide)),
    fun source maxPayload calls hintact hoctets frame hmem => ?_⟩
  have hholds : (ofSource source maxPayload).Holds (0x53 :: secondFrame.octets) :=
    ⟨hoctets, hintact⟩
  cases hholds.run_unmarked (by decide) hmark calls _ hmem

end Storefront
