import Mathlib.Data.List.Basic
import Storefront.Proofs.Frame.Delivery
import Storefront.Proofs.Frame.Reassembly

/-! # Frames on a sink that takes what it likes

A writer offers a frame to its sink again and again until all of it has been taken.  A write may take
a part, fail for now, take nothing, or fail for good; the last two end the matter, and then the
beginning of the frame stands on the sink without its end.  A flush may fail as well, but then the
whole frame is there.

* `offer_calls`, `settle_calls`  the writes and flushes that are made
* `Made`, `made_send`            what one send does
* `sends_sendAll`                what a run of them does
* `Holds.run_reads`              frames are read back, up to one that has no end
* `frames_sent_once`             all of this together
-/

namespace Storefront

namespace Sink

/-! ## Writes and flushes -/

/-- One write of what is left of some octets, given what this and later writes will meet.  Answers
how many octets it took. -/
def write : List Acceptance × Bytes → Except IoFault Nat × List Acceptance × Bytes
  | ([], bs) => (.ok bs.length, [], [])
  | (.most n :: writes, bs) => (.ok (min n bs.length), writes, bs.drop n)
  | (.fault f :: writes, bs) => (.error f, writes, bs)

/-- One flush, given what this and later flushes will meet. -/
def flushOnce : List IoFault → Except IoFault Unit × List IoFault
  | [] => (.ok (), [])
  | f :: flushes => (.error f, flushes)

/-- Calls made one after the other come to these outcomes. -/
inductive Calls {σ α : Type} (call : σ → Except IoFault α × σ) :
    σ → List (Except IoFault α) → σ → Prop
  | none (s : σ) : Calls call s [] s
  | one {s s₁ s' : σ} {outcome : Except IoFault α} {outcomes : List (Except IoFault α)}
    (h : call s = (outcome, s₁)) (hrest : Calls call s₁ outcomes s') :
    Calls call s (outcome :: outcomes) s'

theorem Calls.eq_of_nil {σ α : Type} {call : σ → Except IoFault α × σ} {s s' : σ}
    (h : Calls call s [] s') : s' = s := by
  cases h
  rfl

/-- The failure that a write of something comes to, unless it is to be followed by another one. -/
def refusal? : Except IoFault Nat → Option WireError
  | .ok 0 => some .connectionClosed
  | .ok (_ + 1) => none
  | .error fault => if retries fault then none else some (.io fault)

/-- The failure that a flush comes to, unless it has done its work or is to be made again. -/
def flushFailure? : Except IoFault Unit → Option WireError
  | .ok () => none
  | .error fault => if retries fault then none else some (.io fault)

/-- What calls come to that are made until one of them is refused. -/
inductive Verdict {α : Type} (refused? : Except IoFault α → Option WireError) :
    List (Except IoFault α) → Except WireError Unit → Prop
  | granted {outcomes : List (Except IoFault α)} (h : ∀ o ∈ outcomes, refused? o = none) :
    Verdict refused? outcomes (.ok ())
  | refused {before : List (Except IoFault α)} {last : Except IoFault α} {e : WireError}
    (h : ∀ o ∈ before, refused? o = none) (hlast : refused? last = some e) :
    Verdict refused? (before ++ [last]) (.error e)

/-- `refusal?` of a write: the sink is closed, or the fault is none that `retries`. -/
theorem refusal?_eq_some {o : Except IoFault Nat} {e : WireError} (h : refusal? o = some e) :
    e = .connectionClosed ∨ ∃ fault, e = .io fault ∧ retries fault = false := by
  unfold refusal? at h
  split at h
  · exact .inl (Option.some.inj h).symm
  · cases h
  · rename_i fault
    split at h
    · cases h
    · exact .inr ⟨fault, (Option.some.inj h).symm, by simpa using ‹¬ retries fault = true›⟩

/-- `flushFailure?` of a flush: the fault is none that `retries`. -/
theorem flushFailure?_eq_some {o : Except IoFault Unit} {e : WireError}
    (h : flushFailure? o = some e) : ∃ fault, e = .io fault ∧ retries fault = false := by
  unfold flushFailure? at h
  split at h
  · cases h
  · rename_i fault
    split at h
    · cases h
    · exact ⟨fault, (Option.some.inj h).symm, by simpa using ‹¬ retries fault = true›⟩

section

variable {α : Type} {refused? : Except IoFault α → Option WireError} {first : Except IoFault α}
variable {outcomes : List (Except IoFault α)} {result : Except WireError Unit} {e : WireError}

/-- A call that is not refused leaves the `Verdict` to those after it. -/
theorem Verdict.cons (hfirst : refused? first = none) (h : Verdict refused? outcomes result) :
    Verdict refused? (first :: outcomes) result := by
  cases h with
  | granted h => exact .granted (List.forall_mem_cons.2 ⟨hfirst, h⟩)
  | @refused before last e h hlast =>
    rw [← List.cons_append]
    exact .refused (List.forall_mem_cons.2 ⟨hfirst, h⟩) hlast

/-- A call that is refused is the `Verdict`. -/
theorem verdict_single (h : refused? first = some e) : Verdict refused? [first] (.error e) :=
  @Verdict.refused _ _ [] _ _ (List.forall_mem_nil _) h

/-- A `Verdict` that is an error is that of one of the calls. -/
theorem Verdict.exists_of_error (h : Verdict refused? outcomes (.error e)) :
    ∃ o ∈ outcomes, refused? o = some e := by
  cases h with
  | refused _ hlast => exact ⟨_, List.mem_append_right _ List.mem_cons_self, hlast⟩

end

/-- `offer` makes writes, each of which is offered what those before it have not taken. -/
theorem offer_calls (writes : List Acceptance) (bs : Bytes) :
    ∃ outcomes missing,
      Calls write (writes, bs) outcomes ((offer writes bs).2.1, missing) ∧
        (offer writes bs).2.2 ++ missing = bs ∧ Verdict refusal? outcomes (offer writes bs).1 ∧
        ((offer writes bs).1 = .ok () ↔ missing = []) := by
  -- By induction on the script of the sink: a write is made again while it takes some or fails for
  -- now.
  fun_induction offer writes bs with
  | case1 writes => exact ⟨[], [], .none _, rfl, .granted (List.forall_mem_nil _), by simp⟩
  | case2 bs hne =>
    -- Behind the script a write takes everything, and here there is something to take.
    obtain ⟨n, hn⟩ : ∃ n, bs.length = n + 1 :=
      Nat.exists_eq_succ_of_ne_zero fun h => hne (List.length_eq_zero_iff.1 h)
    refine ⟨[.ok bs.length], [], .one rfl (.none _), List.append_nil _, .granted ?_, by simp⟩
    rw [List.forall_mem_singleton, hn]
    rfl
  | case3 writes b bs =>
    -- A write that takes nothing is the last one.
    exact ⟨[.ok 0], b :: bs, .one rfl (.none _), rfl, verdict_single rfl, by simp⟩
  | case4 b bs writes n result left taken hr ih =>
    rw [hr] at ih
    obtain ⟨outcomes, missing, hcalls, hsplit, hverdict, hall⟩ := ih
    refine ⟨_, missing, .one rfl hcalls, ?_, hverdict.cons ?_, hall⟩
    · -- What this write took comes in front of what the later ones took.
      simp only at hsplit ⊢
      rw [List.append_assoc, hsplit, List.take_succ_cons, List.cons_append, List.take_append_drop]
    · rw [List.length_cons, Nat.succ_min_succ]
      rfl
  | case5 f writes b bs hretried ih =>
    obtain ⟨outcomes, missing, hcalls, hsplit, hverdict, hall⟩ := ih
    -- The same octets are offered again.
    exact ⟨_, missing, .one rfl hcalls, hsplit, hverdict.cons (if_pos hretried), hall⟩
  | case6 f writes b bs hfatal =>
    -- This fault is not retried, so the octets stay.
    exact ⟨[.error f], b :: bs, .one rfl (.none _), rfl, verdict_single (if_neg hfatal), by simp⟩

/-- `settle` flushes until that has done its work, or fails for good. -/
theorem settle_calls (flushes : List IoFault) :
    ∃ outcomes, outcomes ≠ [] ∧ Calls flushOnce flushes outcomes (settle flushes).2 ∧
      Verdict flushFailure? outcomes (settle flushes).1 := by
  induction flushes with
  | nil =>
    refine ⟨[.ok ()], by simp, .one rfl (.none _), .granted ?_⟩
    rw [List.forall_mem_singleton]
    rfl
  | cons f flushes ih =>
    rw [settle]
    split
    · -- The flush is made again.
      rename_i hretried
      obtain ⟨outcomes, -, hcalls, hverdict⟩ := ih
      exact ⟨_, by simp, .one rfl hcalls, hverdict.cons (if_pos hretried)⟩
    · -- The flush has failed for good, and there is none after it.
      rename_i hfatal
      exact ⟨[.error f], by simp, .one rfl (.none _), verdict_single (if_neg hfatal)⟩

end Sink

/-! ## Sends -/

/-- What became of a frame that was to be sent. -/
structure Receipt where
  frame : Frame
  result : Except WireError Unit
  /-- What the writes came to. -/
  writes : List (Except IoFault Nat)
  /-- What the flushes came to. -/
  flushes : List (Except IoFault Unit)
  /-- The octets that the sink has taken. -/
  put : Bytes
  /-- The octets of the frame that it has not. -/
  missing : Bytes

namespace Receipt

/-- The ways in which a send can end. -/
inductive Ending (receipt : Receipt) : Prop
  /-- The payload is too large, and nothing is written. -/
  | refused {size max : Nat} (hresult : receipt.result = .error (.payloadTooLarge size max))
    (hwrites : receipt.writes = []) (hflushes : receipt.flushes = []) (hput : receipt.put = [])
  /-- A write has failed, and the end of the frame is missing. -/
  | cut {e : WireError} (hresult : receipt.result = .error e)
    (hencode : receipt.frame.encode = .ok receipt.frame.octets)
    (hwrites : Sink.Verdict Sink.refusal? receipt.writes (.error e))
    (hflushes : receipt.flushes = []) (hmissing : receipt.missing ≠ [])
  /-- The frame has been written, and flushed if that worked. -/
  | whole (hencode : receipt.frame.encode = .ok receipt.frame.octets)
    (hwrites : Sink.Verdict Sink.refusal? receipt.writes (.ok ()))
    (hmissing : receipt.missing = []) (hmade : receipt.flushes ≠ [])
    (hflushes : Sink.Verdict Sink.flushFailure? receipt.flushes receipt.result)

/-- A frame is on the sink as a whole when its send succeeded, or failed for a flush; in part when a
write failed; and not at all when it was refused.  What was made again is never told. -/
structure Exact (receipt : Receipt) : Prop where
  whole : receipt.result = .ok () ∨ receipt.flushes ≠ [] →
    receipt.frame.encode = .ok receipt.put
  refused : (∃ size max, receipt.result = .error (.payloadTooLarge size max)) ↔ receipt.writes = []
  untouched : receipt.writes = [] → receipt.flushes = [] ∧ receipt.put = []
  part : receipt.result ≠ .ok () → receipt.writes ≠ [] → receipt.flushes = [] →
    receipt.frame.encode = .ok (receipt.put ++ receipt.missing) ∧ receipt.missing ≠ []
  silent : ∀ fault, Sink.retries fault → receipt.result ≠ .error (.io fault)

end Receipt

namespace FrameWriter

/-- A send that left this receipt, and the writer as `writer'`. -/
structure Made (writer : FrameWriter) (receipt : Receipt) (writer' : FrameWriter) : Prop where
  sent : writer.send receipt.frame = (receipt.result, writer')
  writes : Sink.Calls Sink.write (writer.sink.writes, receipt.frame.octets) receipt.writes
    (writer'.sink.writes, receipt.missing)
  flushes : Sink.Calls Sink.flushOnce writer.sink.flushes receipt.flushes writer'.sink.flushes
  written : writer'.sink.written = writer.sink.written ++ receipt.put
  split : receipt.put ++ receipt.missing = receipt.frame.octets
  ending : receipt.Ending

/-- Sends that were made one after the other. -/
inductive Sends : FrameWriter → List Receipt → FrameWriter → Prop
  | none (writer : FrameWriter) : Sends writer [] writer
  | one {writer writer₁ writer' : FrameWriter} {receipt : Receipt} {receipts : List Receipt}
    (h : Made writer receipt writer₁) (hrest : Sends writer₁ receipts writer') :
    Sends writer (receipt :: receipts) writer'

/-- Sends frames one after the other, whatever becomes of them. -/
def sendAll : FrameWriter → List Frame → List (Except WireError Unit) × FrameWriter
  | writer, [] => ([], writer)
  | writer, frame :: frames =>
    let x := writer.send frame
    let rest := sendAll x.2 frames
    (x.1 :: rest.1, rest.2)

variable {writer writer' : FrameWriter} {frame : Frame} {frames : List Frame} {receipt : Receipt}
variable {receipts : List Receipt}

/-- Every `send` leaves a receipt. -/
theorem made_send (writer : FrameWriter) (frame : Frame) :
    ∃ receipt, receipt.frame = frame ∧ receipt.result = (writer.send frame).1 ∧
      writer.Made receipt (writer.send frame).2 := by
  by_cases hfits : frame.Fits writer.maxPayload
  case neg =>
    -- The payload is too large, and the sink is not looked at.
    obtain ⟨size, max, hsend⟩ := send_of_not_fits hfits
    refine ⟨⟨frame, (writer.send frame).1, [], [], [], frame.octets⟩, rfl, rfl, ?_⟩
    rw [hsend]
    exact ⟨hsend, .none _, .none _, (List.append_nil _).symm, rfl, .refused rfl rfl rfl rfl⟩
  case pos =>
    -- The frame is offered until all of it is taken or a write is refused.
    obtain ⟨writes, missing, hwrites, hsplit, hverdict, hall⟩ :=
      Sink.offer_calls writer.sink.writes frame.octets
    have hsend := send_eq_of_fits hfits
    simp only [Sink.writeAll] at hsend
    cases hoffer : (Sink.offer writer.sink.writes frame.octets).1 with
    | error e =>
      rw [hoffer] at hsend hverdict hall
      refine ⟨⟨frame, (writer.send frame).1, writes, [],
        (Sink.offer writer.sink.writes frame.octets).2.2, missing⟩, rfl, rfl, ?_⟩
      rw [hsend]
      exact ⟨hsend, hwrites, .none _, rfl, hsplit,
        .cut rfl hfits.encode_eq hverdict rfl fun hnone => by simpa using hall.2 hnone⟩
    | ok u =>
      -- Nothing is missing, so the flush decides.
      obtain rfl : missing = [] := hall.1 hoffer
      rw [List.append_nil] at hsplit
      rw [hoffer] at hsend hverdict
      obtain ⟨flushes, hmade, hflushes, hflushed⟩ := Sink.settle_calls writer.sink.flushes
      refine ⟨⟨frame, (writer.send frame).1, writes, flushes, frame.octets, []⟩, rfl, rfl, ?_⟩
      rw [hsend]
      refine ⟨hsend, hwrites, hflushes, ?_, List.append_nil _,
        .whole hfits.encode_eq hverdict rfl hmade hflushed⟩
      exact congrArg (writer.sink.written ++ ·) hsplit

/-- `sendAll` leaves one receipt for each frame. -/
theorem sends_sendAll (writer : FrameWriter) (frames : List Frame) :
    ∃ receipts, writer.Sends receipts (writer.sendAll frames).2 ∧
      receipts.map (·.frame) = frames ∧ receipts.map (·.result) = (writer.sendAll frames).1 := by
  induction frames generalizing writer with
  | nil => exact ⟨[], .none _, rfl, rfl⟩
  | cons frame frames ih =>
    -- A send leaves a receipt whether it succeeds or not, and the others go on behind it.
    obtain ⟨receipt, hframe, hresult, hmade⟩ := made_send writer frame
    obtain ⟨receipts, hsends, hframes, hresults⟩ := ih (writer.send frame).2
    refine ⟨receipt :: receipts, .one hmade hsends, ?_, ?_⟩
    · rw [List.map_cons, hframe, hframes]
    · rw [List.map_cons, hresult, hresults]
      rfl

/-- `written` grows by what the receipts say, in their order. -/
theorem Sends.written (h : writer.Sends receipts writer') :
    writer'.sink.written = writer.sink.written ++ receipts.flatMap (·.put) := by
  induction h with
  | none => exact (List.append_nil _).symm
  | one hmade _ ih => rw [ih, hmade.written, List.flatMap_cons, List.append_assoc]

/-! ## What a receipt tells -/

namespace Made

/-- With nothing `missing`, the whole frame is on the sink. -/
theorem put_eq (h : writer.Made receipt writer') (hmissing : receipt.missing = []) :
    receipt.put = receipt.frame.octets := by
  rw [← h.split, hmissing, List.append_nil]

/-- Without a write all of the frame is `missing`. -/
theorem missing_of_unwritten (h : writer.Made receipt writer') (hnone : receipt.writes = []) :
    receipt.missing = receipt.frame.octets := by
  have hcalls := h.writes
  rw [hnone] at hcalls
  exact (Prod.mk.inj hcalls.eq_of_nil).2

theorem written_of_missing_eq_nil (h : writer.Made receipt writer')
    (hmissing : receipt.missing = []) : receipt.writes ≠ [] := fun hnone =>
  Frame.octets_ne_nil _ ((h.missing_of_unwritten hnone).symm.trans hmissing)

/-- Without a write the frame was refused by `encode`, and nothing was flushed. -/
theorem refused_of_unwritten (h : writer.Made receipt writer') (hnone : receipt.writes = []) :
    (∃ size max, receipt.result = .error (.payloadTooLarge size max)) ∧ receipt.flushes = [] ∧
      receipt.put = [] := by
  cases h.ending with
  | refused hresult _ hflushes hput => exact ⟨⟨_, _, hresult⟩, hflushes, hput⟩
  | cut _ _ hverdict =>
    -- A write that was refused has been made.
    obtain ⟨o, hmem, -⟩ := hverdict.exists_of_error
    rw [hnone] at hmem
    exact absurd hmem List.not_mem_nil
  | whole _ _ hmissing => exact absurd hnone (h.written_of_missing_eq_nil hmissing)

/-- With a write, `encode` has made the octets of the frame. -/
theorem encode_eq (h : writer.Made receipt writer') (hwrites : receipt.writes ≠ []) :
    receipt.frame.encode = .ok receipt.frame.octets := by
  cases h.ending with
  | refused _ hnone => exact absurd hnone hwrites
  | cut _ hencode => exact hencode
  | whole hencode => exact hencode

theorem length_le (h : writer.Made receipt writer') (hwrites : receipt.writes ≠ []) :
    receipt.frame.payload.length ≤ Frame.payloadLimit :=
  (Frame.encode_ok (h.encode_eq hwrites)).1

/-- Nothing is `missing` just where the `send` succeeded or came to a flush. -/
theorem missing_eq_nil_iff (h : writer.Made receipt writer') :
    receipt.missing = [] ↔ receipt.result = .ok () ∨ receipt.flushes ≠ [] := by
  cases h.ending with
  | refused hresult hnone hflushes =>
    have hmissing := h.missing_of_unwritten hnone
    simp [hresult, hflushes, hmissing, Frame.octets_ne_nil]
  | cut hresult _ _ hflushes hmissing => simp [hresult, hflushes, hmissing]
  | whole _ _ hmissing hmade => simp [hmissing, hmade]

/-- With a write, a `send` fails for a sink that is closed or has failed for good. -/
theorem fault_of_written (h : writer.Made receipt writer') {e : WireError}
    (hresult : receipt.result = .error e) (hwrites : receipt.writes ≠ []) :
    e = .connectionClosed ∨ ∃ fault, e = .io fault ∧ Sink.retries fault = false := by
  cases h.ending with
  | refused _ hnone => exact absurd hnone hwrites
  | cut hfailed _ hverdict =>
    rw [hfailed, Except.error.injEq] at hresult
    subst hresult
    obtain ⟨o, -, ho⟩ := hverdict.exists_of_error
    exact Sink.refusal?_eq_some ho
  | whole _ _ _ _ hverdict =>
    rw [hresult] at hverdict
    obtain ⟨o, -, ho⟩ := hverdict.exists_of_error
    exact .inr (Sink.flushFailure?_eq_some ho)

/-- Every receipt is `Exact`, whichever way the send has ended. -/
theorem exact (h : writer.Made receipt writer') : receipt.Exact := by
  constructor
  case whole =>
    intro hdone
    have hmissing := h.missing_eq_nil_iff.2 hdone
    rw [h.put_eq hmissing, h.encode_eq (h.written_of_missing_eq_nil hmissing)]
  case refused =>
    refine ⟨?_, fun hnone => (h.refused_of_unwritten hnone).1⟩
    rintro ⟨size, max, hresult⟩
    -- Once something was written, a failure is one of the sink.
    refine Classical.byContradiction fun hwrites => ?_
    rcases h.fault_of_written hresult hwrites with hclosed | ⟨fault, hfault, -⟩
    · cases hclosed
    · cases hfault
  case untouched => exact fun hnone => (h.refused_of_unwritten hnone).2
  case part =>
    intro hresult hwrites hflushes
    refine ⟨by rw [h.split, h.encode_eq hwrites], fun hmissing => ?_⟩
    rcases h.missing_eq_nil_iff.1 hmissing with hok | hmade
    · exact hresult hok
    · exact hmade hflushes
  case silent =>
    intro fault hretried hresult
    by_cases hwrites : receipt.writes = []
    · -- A frame that was refused has failed for its size.
      obtain ⟨⟨size, max, hrefused⟩, -⟩ := h.refused_of_unwritten hwrites
      rw [hresult] at hrefused
      cases hrefused
    · rcases h.fault_of_written hresult hwrites with hclosed | ⟨other, hother, hfatal⟩
      · cases hclosed
      · cases hother
        rw [hretried] at hfatal
        cases hfatal

end Made

/-- Every receipt of a run is `Made` by a `send`. -/
theorem Sends.forall_made (h : writer.Sends receipts writer') :
    ∀ receipt ∈ receipts, ∃ before after, FrameWriter.Made before receipt after := by
  induction h with
  | none => exact List.forall_mem_nil _
  | one hmade _ ih => exact List.forall_mem_cons.2 ⟨⟨_, _, hmade⟩, ih⟩

/-- A `send` that succeeded has put the whole frame on the sink. -/
theorem Sends.put_of_ok (h : writer.Sends receipts writer') :
    ∀ receipt ∈ receipts, receipt.result = .ok () →
      receipt.put = receipt.frame.octets ∧ receipt.frame.payload.length ≤ Frame.payloadLimit := by
  intro receipt hmem hresult
  obtain ⟨before, after, hmade⟩ := h.forall_made receipt hmem
  have hmissing := hmade.missing_eq_nil_iff.2 (.inl hresult)
  exact ⟨hmade.put_eq hmissing, hmade.length_le (hmade.written_of_missing_eq_nil hmissing)⟩

/-- Where every `send` succeeded, `written` has the frames. -/
theorem written_of_all_ok (h : ∀ result ∈ (writer.sendAll frames).1, result = .ok ()) :
    (writer.sendAll frames).2.sink.written =
        writer.sink.written ++ frames.flatMap Frame.octets ∧
      ∀ frame ∈ frames, frame.payload.length ≤ Frame.payloadLimit := by
  obtain ⟨receipts, hsends, rfl, hresults⟩ := sends_sendAll writer frames
  rw [← hresults, List.forall_mem_map] at h
  -- Every receipt is that of a send that succeeded.
  have hput := fun receipt hmem => hsends.put_of_ok receipt hmem (h receipt hmem)
  refine ⟨?_, List.forall_mem_map.2 fun receipt hmem => (hput receipt hmem).2⟩
  rw [hsends.written, List.flatMap_map, List.flatMap_congr fun receipt hmem => (hput receipt hmem).1]

end FrameWriter

/-! ## Reading back -/

namespace FrameReader

variable {reader : FrameReader} {frames : List Frame} {part : Bytes}

/-- `run` over what is no whole frame answers `connectionClosed` every time, and a reader still
holds it. -/
theorem Holds.run_closed (h : reader.Holds part)
    (hpart : Frame.decode reader.maxPayload part = .ok none) (times : Nat) :
    ∃ reader', reader.run (List.replicate times .read) =
        (List.replicate times (.error .connectionClosed), reader') ∧ reader'.Holds part := by
  induction times generalizing reader with
  | zero => exact ⟨reader, rfl, h⟩
  | succ times ih =>
    -- A reader that finds no whole frame is left with the same octets.
    obtain ⟨reader₁, hread, hholds, hmax⟩ := h.readFrame_first
    simp only [Frame.first, hpart] at hread hholds
    obtain ⟨reader', hrun, hholds'⟩ := ih hholds (hmax ▸ hpart)
    refine ⟨reader', ?_, hholds'⟩
    simp only [List.replicate_succ, run, hread, hrun]

/-- `run` over whole frames answers them one after the other, and then `connectionClosed`. -/
theorem Holds.run_reads (h : reader.Holds (frames.flatMap Frame.octets ++ part))
    (hfits : ∀ frame ∈ frames, frame.Fits reader.maxPayload)
    (hpart : Frame.decode reader.maxPayload part = .ok none) (times : Nat) :
    ∃ reader', reader.run (List.replicate (frames.length + times) .read) =
        (frames.map .ok ++ List.replicate times (.error .connectionClosed), reader') ∧
      reader'.Holds part := by
  induction frames generalizing reader with
  | nil =>
    rw [List.length_nil, Nat.zero_add]
    exact Holds.run_closed h hpart times
  | cons frame frames ih =>
    obtain ⟨hfirst, hfits⟩ := List.forall_mem_cons.1 hfits
    rw [List.flatMap_cons, List.append_assoc] at h
    obtain ⟨reader₁, hread, hholds, hmax⟩ := Holds.readFrame h hfirst
    -- The reader behind the first frame has the same limit.
    rw [← hmax] at hfits hpart
    obtain ⟨reader', hrun, hholds'⟩ := ih hholds hfits hpart
    refine ⟨reader', ?_, hholds'⟩
    rw [List.length_cons, Nat.add_right_comm, List.replicate_succ]
    simp only [run, hread, hrun, List.map_cons, List.cons_append]

end FrameReader

open FrameReader in
/-- `sendAll` hands frames, one after the other, to a sink that takes any part of what it is
offered, takes nothing, or fails, on a write or on a flush.

* Each `send` has an `Exact` receipt: it offers the sink what it has not taken of the frame yet, as
  often as need be.  The frame is there as a whole when the `send` succeeds or fails for a flush; it
  is there without its end when the `send` fails for a write; a frame that `Frame.encode` refuses is
  not offered.  Failures after which a call is made again are not told.
* When every `send` has succeeded, a `FrameReader` over what has been written finds the frames in
  order and then `connectionClosed`, however the octets are cut into reads. -/
theorem frames_sent_once :
    (∀ (writer : FrameWriter) (frames : List Frame), ∃ receipts,
      writer.Sends receipts (writer.sendAll frames).2 ∧ receipts.map (·.frame) = frames ∧
        receipts.map (·.result) = (writer.sendAll frames).1 ∧
        (writer.sendAll frames).2.sink.written =
          writer.sink.written ++ receipts.flatMap (·.put) ∧
        ∀ receipt ∈ receipts, receipt.Exact) ∧
      ∀ (writer : FrameWriter) (frames : List Frame) (source : Source) (maxPayload times : Nat),
        (∀ result ∈ (writer.sendAll frames).1, result = .ok ()) →
        (∀ frame ∈ frames, frame.payload.length ≤ maxPayload) → source.Intact →
        (writer.sendAll frames).2.sink.written = writer.sink.written ++ source.octets →
        ∃ reader, (ofSource source maxPayload).run (List.replicate (frames.length + times) .read) =
            (frames.map .ok ++ List.replicate times (.error .connectionClosed), reader) ∧
          reader.buffer = [] := by
  constructor
  · intro writer frames
    obtain ⟨receipts, hsends, hframes, hresults⟩ := writer.sends_sendAll frames
    refine ⟨receipts, hsends, hframes, hresults, hsends.written, fun receipt hmem => ?_⟩
    obtain ⟨before, after, hmade⟩ := hsends.forall_made receipt hmem
    exact hmade.exact
  · intro writer frames source maxPayload times hall hlimit hintact hwritten
    obtain ⟨hframes, hheader⟩ := FrameWriter.written_of_all_ok hall
    -- The source holds what has been written, which is the frames.
    have hoctets : source.octets = frames.flatMap Frame.octets ++ [] := by
      rw [hframes] at hwritten
      rw [← List.append_cancel_left hwritten, List.append_nil]
    have hholds : (ofSource source maxPayload).Holds (frames.flatMap Frame.octets ++ []) :=
      ⟨hoctets, hintact⟩
    obtain ⟨reader, hrun, hnone⟩ := hholds.run_reads
      (fun frame hmem => ⟨hlimit frame hmem, hheader frame hmem⟩) rfl times
    exact ⟨reader, hrun, (List.append_eq_nil_iff.1 hnone.octets).1⟩

/-- A sink that takes five octets, is interrupted, takes one, would block, and then takes what it is
offered; its first flush is interrupted. -/
def hesitantWriter : FrameWriter :=
  ⟨⟨[.most 5, .fault .interrupted, .most 1, .fault .wouldBlock], [.interrupted], []⟩, 8⟩

/-- What it has been sent arrives in reads of up to two octets, one of which is interrupted. -/
def hesitantSource : Source :=
  [.octets (pairFrame.octets.take 9) (some 2), .fault .interrupted,
    .octets (pairFrame.octets.drop 9 ++ Frame.keepalive.octets) (some 2)]

open FrameReader in
/-- `sendAll` of two frames on such a sink, and `run` over what it has taken. -/
theorem frames_sent_once_hesitant :
    ∃ reader, (ofSource hesitantSource 2).run [.read, .read, .read] =
        ([.ok pairFrame, .ok Frame.keepalive, .error .connectionClosed], reader) ∧
      reader.buffer = [] := by
  have hresults : (hesitantWriter.sendAll [pairFrame, Frame.keepalive]).1 = [.ok (), .ok ()] := rfl
  apply frames_sent_once.2 hesitantWriter [pairFrame, Frame.keepalive] hesitantSource 2 1
  · rw [hresults]
    simp
  · decide
  · constructor
    case steady => simp [hesitantSource, Source.Steady, Arrival.stalls]
    case faults => simp [hesitantSource]
  · rfl

end Storefront
