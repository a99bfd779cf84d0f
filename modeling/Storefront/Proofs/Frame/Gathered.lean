import Mathlib.Data.List.Induction
import Storefront.Proofs.Frame.Exact
import Storefront.Proofs.Frame.Reassembly

/-! # How much a reader gathers

A reader asks its source for more only while what it holds may still become a frame, and a payload
above the limit is refused as soon as it is announced.  So a peer cannot make it gather more than a
frame of the largest size and one read, whatever it sends and in however many pieces.

* `readFrame_round`       a call is made of rounds, each with one read at most
* `Reached`               the readers that a new one becomes, also in the middle of a call
* `Reached.run`           what any number of calls leave is among them
* `gathered_bounded`      how much they hold
-/

namespace Storefront

/-- A buffer for which `decode` answers `none` is shorter than the largest frame. -/
theorem Frame.length_of_waiting {maxPayload : Nat} {buffer : Bytes}
    (h : decode maxPayload buffer = .ok none) : buffer.length < headerSize + maxPayload := by
  rcases decode_eq_none_iff.1 h with hshort | ⟨size, -, hsize, hlength⟩
  · omega
  · -- The payload that is waited for is one within the limit.
    omega

namespace FrameReader

/-- What one round of a call comes to: an answer, or another round. -/
inductive Round where
  | answer (result : Except WireError Frame) (reader : FrameReader)
  | again (reader : FrameReader)

/-- One round of a call: a frame is taken off the buffer, or else a read is made. -/
def round (reader : FrameReader) : Round :=
  match Frame.takeFront reader.maxPayload reader.buffer with
  | (.ok (some frame), left) => .answer (.ok frame) { reader with buffer := left }
  | (.error e, left) => .answer (.error e) { reader with buffer := left }
  | (.ok none, left) =>
    match reader.source.read chunkSize with
    | (.error .interrupted, source) => .again { reader with source, buffer := left }
    | (.error fault, source) => .answer (.error (.io fault)) { reader with source, buffer := left }
    | (.ok [], source) => .answer (.error .connectionClosed) { reader with source, buffer := left }
    | (.ok (b :: bs), source) => .again { reader with source, buffer := left ++ b :: bs }

/-- `readFrame` is `round`, over and over until one of them has an answer. -/
theorem readFrame_round (reader : FrameReader) :
    reader.readFrame =
      match reader.round with
      | .answer result reader' => (result, reader')
      | .again reader' => reader'.readFrame := by
  rw [readFrame_takeFront, round]
  obtain ⟨front, left⟩ := Frame.takeFront reader.maxPayload reader.buffer
  rcases front with fault | (_ | frame)
  · rfl
  · -- Without a frame it is the read that decides.
    dsimp only
    obtain ⟨arrived, source⟩ := reader.source.read chunkSize
    rcases arrived with fault | (_ | ⟨b, bs⟩)
    · cases fault <;> rfl
    · rfl
    · rfl
  · rfl

/-- A new reader with a limit has become this one, by rounds of calls.  What its source meets need
not be settled before it meets it. -/
inductive Reached (maxPayload : Nat) : FrameReader → Prop
  | new (source : Source) : Reached maxPayload (ofSource source maxPayload)
  | again {reader reader' : FrameReader} (h : Reached maxPayload reader)
    (hround : reader.round = .again reader') : Reached maxPayload reader'
  | answer {reader reader' : FrameReader} {result : Except WireError Frame}
    (h : Reached maxPayload reader) (hround : reader.round = .answer result reader') :
    Reached maxPayload reader'
  | source {reader : FrameReader} (h : Reached maxPayload reader) (source : Source) :
    Reached maxPayload { reader with source }

variable {maxPayload : Nat} {reader reader' : FrameReader}

/-! ## Calls -/

/-- `readFrame` comes past readers that are `Reached`, and leaves one. -/
theorem Reached.readFrame (h : Reached maxPayload reader) :
    Reached maxPayload reader.readFrame.2 := by
  -- By induction over what the source has left, which every further round makes less.
  induction hn : reader.source.size using Nat.strongRecOn generalizing reader with
  | ind n ih =>
    rw [readFrame_round]
    cases hround : reader.round with
    | answer result reader' => exact h.answer hround
    | again reader' =>
      have hless : reader'.source.size < n := by
        subst hn
        unfold round at hround
        split at hround
        · cases hround
        · cases hround
        · split at hround <;> rename_i hread <;> cases hround
          · exact Source.read_size_of_error hread
          · exact Source.read_size_of_ok hread
      exact ih _ hless (h.again hround) rfl

theorem Reached.run (h : Reached maxPayload reader) (calls : Nat) :
    Reached maxPayload (reader.run (List.replicate calls .read)).2 := by
  induction calls generalizing reader with
  | zero => exact h
  | succ calls ih => exact ih h.readFrame

/-! ## What is held -/

/-- `round` leaves no more in the buffer than there was, unless octets have come in behind one that
was waiting for them. -/
theorem round_cases (reader : FrameReader) :
    (∃ result reader', reader.round = .answer result reader' ∧
      reader'.maxPayload = reader.maxPayload ∧ reader'.buffer.length ≤ reader.buffer.length) ∨
    ∃ reader' news, reader.round = .again reader' ∧ reader'.maxPayload = reader.maxPayload ∧
      Frame.decode reader.maxPayload reader.buffer = .ok none ∧
      reader'.buffer = reader.buffer ++ news ∧ news.length ≤ chunkSize := by
  unfold round
  cases hfront : Frame.takeFront reader.maxPayload reader.buffer with
  | mk taken left =>
    cases taken with
    | error e =>
      obtain ⟨rfl, -⟩ := Frame.takeFront_error_iff.1 hfront
      exact .inl ⟨_, _, rfl, rfl, Nat.le_refl _⟩
    | ok found =>
      cases found with
      | some frame =>
        have hshorter := Frame.decode_shorter (Frame.takeFront_some_iff.1 hfront)
        exact .inl ⟨_, _, rfl, rfl, Nat.le_of_lt hshorter⟩
      | none =>
        obtain ⟨rfl, hwaiting⟩ := Frame.takeFront_none_iff.1 hfront
        dsimp only
        split
        · exact .inr ⟨_, [], rfl, rfl, hwaiting, (List.append_nil _).symm, Nat.zero_le _⟩
        · exact .inl ⟨_, _, rfl, rfl, Nat.le_refl _⟩
        · exact .inl ⟨_, _, rfl, rfl, Nat.le_refl _⟩
        · rename_i b bs source hread
          exact .inr ⟨_, b :: bs, rfl, rfl, hwaiting, rfl, Source.read_length_le hread⟩

/-- A reader that is `Reached` has its first limit, and holds less than the largest frame and
one read. -/
theorem Reached.bounded (h : Reached maxPayload reader) :
    reader.maxPayload = maxPayload ∧
      reader.buffer.length < Frame.headerSize + maxPayload + chunkSize := by
  induction h with
  | new source => exact ⟨rfl, by simp [ofSource, chunkSize]⟩
  | source h source ih => exact ih
  | @again reader reader' h hround ih =>
    rcases round_cases reader with
      ⟨_, _, hother, -⟩ | ⟨next, news, hother, hlimit, hwaiting, hbuffer, hnews⟩
    · rw [hround] at hother
      cases hother
    · rw [hround, Round.again.injEq] at hother
      subst hother
      refine ⟨hlimit.trans ih.1, ?_⟩
      -- A reader that makes a read was waiting, so that what it held is less than a frame.
      have hheld := Frame.length_of_waiting hwaiting
      rw [hbuffer, List.length_append]
      omega
  | @answer reader reader' result h hround ih =>
    rcases round_cases reader with ⟨_, next, hother, hlimit, hle⟩ | ⟨_, _, hother, -⟩
    · rw [hround, Round.answer.injEq] at hother
      obtain ⟨-, rfl⟩ := hother
      exact ⟨hlimit.trans ih.1, Nat.lt_of_le_of_lt hle ih.2⟩
    · rw [hround] at hother
      cases hother

/-! ## The most that is held -/

/-- Octets that come in while a `Reached` reader waits make another one. -/
theorem Reached.gather (h : Reached maxPayload reader)
    (hwaiting : Frame.decode maxPayload reader.buffer = .ok none) (news : Bytes) (hne : news ≠ [])
    (hlength : news.length ≤ chunkSize) :
    Reached maxPayload { reader with source := [], buffer := reader.buffer ++ news } := by
  obtain ⟨b, bs, rfl⟩ := List.exists_cons_of_ne_nil hne
  -- All that the source hands out is in one arrival, for which a single read has room.
  have hread : Source.read chunkSize [.octets (b :: bs) none] = (.ok (b :: bs), []) := by
    simp [Source.read, Source.resume, List.take_of_length_le hlength,
      List.drop_of_length_le hlength]
  have hfront : Frame.takeFront reader.maxPayload reader.buffer = (.ok none, reader.buffer) := by
    rw [h.bounded.1]
    exact Frame.takeFront_none_iff.2 ⟨rfl, hwaiting⟩
  apply (h.source [.octets (b :: bs) none]).again
  simp only [round, hfront, hread]

/-- So the beginning of any frame that fits can be what a `Reached` reader holds. -/
theorem Reached.begin {frame : Frame} (hfits : frame.Fits maxPayload) {part missing : Bytes}
    (hsplit : frame.octets = part ++ missing) (hmissing : missing ≠ []) :
    Reached maxPayload ⟨[], part, maxPayload⟩ := by
  induction part using List.reverseRecOn generalizing missing with
  | nil => exact .new []
  | append_singleton part b ih =>
    rw [List.append_assoc] at hsplit
    have hnext : [b] ++ missing ≠ [] := by simp
    have hwaiting := Frame.decode_of_unfinished hfits hsplit hnext
    exact (ih hsplit hnext).gather hwaiting [b] (List.cons_ne_nil b []) (by simp [chunkSize])

/-- However many calls are made of a new `FrameReader`, whatever its source hands out and however
they end, in no state that is `Reached`, between calls or inside one, does its `buffer` hold as much
as a header, a payload of `maxPayload` and one read of `chunkSize`.  It does come to hold one octet
less than that, if a header can announce a payload of this size. -/
theorem gathered_bounded (maxPayload : Nat) :
    (∀ reader, Reached maxPayload reader →
      reader.buffer.length < Frame.headerSize + maxPayload + chunkSize) ∧
    (∀ source calls, Reached maxPayload
      ((ofSource source maxPayload).run (List.replicate calls .read)).2) ∧
    (maxPayload ≤ Frame.payloadLimit → ∃ reader, Reached maxPayload reader ∧
      reader.buffer.length + 1 = Frame.headerSize + maxPayload + chunkSize) := by
  refine ⟨fun reader h => h.bounded.2, fun source calls => (Reached.new source).run calls, ?_⟩
  intro hlimit
  -- All of the largest frame but its last octet, and then as much as one read hands out.
  let frame : Frame := ⟨⟨0, 1⟩, 0, List.replicate maxPayload 0⟩
  have hfits : frame.Fits maxPayload := by
    constructor <;> simp [frame, hlimit]
  have hlength : frame.octets.length = Frame.headerSize + maxPayload := by
    simp [Frame.octets, frame]
  have hsplit := (List.dropLast_concat_getLast frame.octets_ne_nil).symm
  have hwaiting := Frame.decode_of_unfinished hfits hsplit (List.cons_ne_nil _ [])
  have hreached := (Reached.begin hfits hsplit (List.cons_ne_nil _ [])).gather hwaiting
    (List.replicate chunkSize 0) (by decide) (by simp)
  refine ⟨_, hreached, ?_⟩
  simp only [List.length_append, List.length_dropLast, List.length_replicate, hlength,
    Frame.headerSize]
  omega

/-- Half of a header, a failure, and then octets without end that announce a payload of two. -/
def hostileSource : Source :=
  [.octets [0x53, 0x50, 2] (some 1), .fault .wouldBlock, .octets (List.replicate 20000 0) none]

/-- Three calls of `read` under a limit of one octet, on the hostile source. -/
theorem gathered_bounded_hostile :
    Reached 1 ((ofSource hostileSource 1).run (List.replicate 3 .read)).2 ∧
      ((ofSource hostileSource 1).run (List.replicate 3 .read)).2.buffer.length < 17 + 1 + 8192 ∧
      1 ≤ Frame.payloadLimit ∧
      ∃ reader, Reached 1 reader ∧ reader.buffer.length + 1 = 17 + 1 + 8192 :=
  have hreached := (gathered_bounded 1).2.1 hostileSource 3
  have hlimit : 1 ≤ Frame.payloadLimit := by decide
  ⟨hreached, (gathered_bounded 1).1 _ hreached, hlimit, (gathered_bounded 1).2.2 hlimit⟩

end FrameReader

end Storefront
