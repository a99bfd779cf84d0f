import Storefront.Proofs.Frame.Intact

/-! # Frames of a stream that arrives in pieces

A reader that is called again and again takes octets from its source and gives back frames.  What it
has taken is at any time the frames it has given back, as they were written, and what it has
gathered behind them; a failure changes nothing about that.  What can never be a frame is not
passed over.

* `Accounts`              what a run has taken, given back, and failed for
* `run_accounts`          every run accounts for all octets and all failures
* `run_congr`             how octets are cut into reads does not matter
* `run_of_broken`         a reader that cannot go on stays where it is
* `frames_reassembled`    all of this together
-/

namespace Storefront

namespace Source

/-- Reads of up to `room` octets, one after the other, come to these outcomes. -/
inductive Meets (room : Nat) : Source → List (Except IoFault Bytes) → Source → Prop
  | none (s : Source) : Meets room s [] s
  | read {s s₁ s' : Source} {outcome : Except IoFault Bytes}
    {outcomes : List (Except IoFault Bytes)} (h : s.read room = (outcome, s₁))
    (hrest : Meets room s₁ outcomes s') : Meets room s (outcome :: outcomes) s'

/-- The octets that reads have taken. -/
def taken (outcomes : List (Except IoFault Bytes)) : Bytes :=
  outcomes.flatMap fun outcome => outcome.toOption.getD []

@[simp] theorem taken_nil : taken [] = [] := rfl

@[simp] theorem taken_ok (bs : Bytes) (outcomes : List (Except IoFault Bytes)) :
    taken (.ok bs :: outcomes) = bs ++ taken outcomes := rfl

@[simp] theorem taken_error (fault : IoFault) (outcomes : List (Except IoFault Bytes)) :
    taken (.error fault :: outcomes) = taken outcomes := rfl

theorem taken_append (first second : List (Except IoFault Bytes)) :
    taken (first ++ second) = taken first ++ taken second :=
  List.flatMap_append

/-- Runs of reads that `Meets` describes can be put together. -/
theorem Meets.append {room : Nat} {s s₁ s' : Source}
    {first second : List (Except IoFault Bytes)} (h : Meets room s first s₁)
    (h' : Meets room s₁ second s') : Meets room s (first ++ second) s' := by
  induction h with
  | none => exact h'
  | read hread _ ih => exact .read hread (ih h')

/-- What has been `taken` and what is left in the source are what there was. -/
theorem Meets.octets {room : Nat} {s s' : Source} {outcomes : List (Except IoFault Bytes)}
    (h : Meets room s outcomes s') : taken outcomes ++ s'.octets = s.octets := by
  induction h with
  | none => rfl
  | @read _ _ _ outcome _ hread _ ih =>
    cases outcome with
    | error fault =>
      -- A read that fails takes nothing.
      rw [taken_error, ih]
      exact read_octets_of_error hread
    | ok bs =>
      rw [taken_ok, List.append_assoc, ih]
      exact read_octets hread

end Source

namespace FrameReader

/-- What a read comes to for a reader that waits for a frame, if it is an end or a failure.  A read
that is interrupted is made again. -/
def failure? : Except IoFault Bytes → Option WireError
  | .error .interrupted => none
  | .error fault => some (.io fault)
  | .ok [] => some .connectionClosed
  | .ok (_ :: _) => none

/-- The failure of the source for which there is no frame. -/
def sourceFailure? : Except WireError Frame → Option WireError
  | .error e => if isOfSource e then some e else none
  | .ok _ => none

/-- The frames among results. -/
def frames (results : List (Except WireError Frame)) : List Frame :=
  results.filterMap Except.toOption

/-- What is asked of a reader. -/
inductive Call where
  /-- The next frame. -/
  | read
  /-- Another limit from now on. -/
  | limit (maxPayload : Nat)
  deriving DecidableEq, Repr

/-- Makes calls one after the other.  Answers what was read. -/
def run : FrameReader → List Call → List (Except WireError Frame) × FrameReader
  | reader, [] => ([], reader)
  | reader, .read :: calls =>
    let x := reader.readFrame
    let rest := run x.2 calls
    (x.1 :: rest.1, rest.2)
  | reader, .limit maxPayload :: calls => run { reader with maxPayload } calls

/-- The limit that is in force after calls, given the one before them. -/
def lastLimit (maxPayload : Nat) : List Call → Nat
  | [] => maxPayload
  | .read :: calls => lastLimit maxPayload calls
  | .limit other :: calls => lastLimit other calls

/-! ## What becomes of octets and failures -/

/-- A reader that has made reads with these outcomes and given back these results is now `reader'`,
and nothing has got lost on the way. -/
structure Accounts (reader : FrameReader) (outcomes : List (Except IoFault Bytes))
    (results : List (Except WireError Frame)) (reader' : FrameReader) : Prop where
  reads : Source.Meets chunkSize reader.source outcomes reader'.source
  octets : reader.buffer ++ Source.taken outcomes =
    (frames results).flatMap Frame.octets ++ reader'.buffer
  encoded : ∀ frame ∈ frames results, frame.encode = .ok frame.octets
  failures : results.filterMap sourceFailure? = outcomes.filterMap failure?

variable {reader reader₁ reader' : FrameReader}
variable {outcomes outcomes' : List (Except IoFault Bytes)}
variable {results results' : List (Except WireError Frame)}

/-- No reads and no results are accounted for by `Accounts [] []`. -/
theorem accounts_refl (reader : FrameReader) : reader.Accounts [] [] reader where
  reads := .none _
  octets := List.append_nil _
  encoded := nofun
  failures := rfl

/-- Runs that `Accounts` describes can be put together. -/
theorem Accounts.trans (h : reader.Accounts outcomes results reader₁)
    (h' : reader₁.Accounts outcomes' results' reader') :
    reader.Accounts (outcomes ++ outcomes') (results ++ results') reader' := by
  have hframes : frames (results ++ results') = frames results ++ frames results' :=
    List.filterMap_append
  constructor
  case reads => exact h.reads.append h'.reads
  case octets =>
    calc reader.buffer ++ Source.taken (outcomes ++ outcomes')
        = (reader.buffer ++ Source.taken outcomes) ++ Source.taken outcomes' := by
          rw [Source.taken_append, List.append_assoc]
      _ = (frames results).flatMap Frame.octets ++ (reader₁.buffer ++ Source.taken outcomes') := by
          rw [h.octets, List.append_assoc]
      _ = (frames (results ++ results')).flatMap Frame.octets ++ reader'.buffer := by
          rw [h'.octets, hframes, List.flatMap_append, List.append_assoc]
  case encoded =>
    intro frame hmem
    rw [hframes] at hmem
    rcases List.mem_append.1 hmem with hmem | hmem
    · exact h.encoded frame hmem
    · exact h'.encoded frame hmem
  case failures =>
    rw [List.filterMap_append, List.filterMap_append, h.failures, h'.failures]

/-- A failure of `decode` is not the fault of the source. -/
theorem isOfSource_eq_false_of_decode {maxPayload : Nat} {buffer : Bytes} {e : WireError}
    (h : Frame.decode maxPayload buffer = .error e) : isOfSource e = false := by
  rcases Frame.decode_eq_error_iff.1 h with ⟨-, -, rfl⟩ | ⟨size, -, -, rfl⟩ <;> rfl

/-- `Accounts` with a read in front that brings octets, which is no failure. -/
theorem Accounts.gather {room : List UInt8} {source : Source} {b : UInt8}
    (hread : reader.source.read chunkSize = (.ok (b :: room), source))
    (h : Accounts { reader with source, buffer := reader.buffer ++ b :: room } outcomes results
      reader') :
    reader.Accounts (.ok (b :: room) :: outcomes) results reader' where
  reads := .read hread h.reads
  octets := by rw [← h.octets, Source.taken_ok, ← List.append_assoc]
  encoded := h.encoded
  failures := h.failures

/-- `Accounts` with an interrupted read in front, which leaves no trace. -/
theorem Accounts.interrupted {source : Source}
    (hread : reader.source.read chunkSize = (.error .interrupted, source))
    (h : Accounts { reader with source } outcomes results reader') :
    reader.Accounts (.error .interrupted :: outcomes) results reader' where
  reads := .read hread h.reads
  octets := h.octets
  encoded := h.encoded
  failures := h.failures

/-- One `readFrame`: the octets that it has taken are in the frame and in the buffer, and it fails
for the source at most once, with the last of its reads. -/
theorem readFrame_accounts (reader : FrameReader) :
    ∃ outcomes, reader.Accounts outcomes [(reader.readFrame).1] (reader.readFrame).2 := by
  -- By induction on the reads of the call, the last of which decides how it ends.
  fun_induction readFrame reader with
  | case1 reader e hdecode =>
    have hnone : sourceFailure? (.error e) = none := by
      simp [sourceFailure?, isOfSource_eq_false_of_decode hdecode]
    refine ⟨[], .none _, List.append_nil _, List.forall_mem_nil _, ?_⟩
    rw [List.filterMap_cons_none hnone]
    rfl
  | case2 reader frame rest hdecode =>
    -- The buffer holds a whole frame, and no read is made.
    obtain ⟨hbuffer, hfits, -⟩ := Frame.decode_some hdecode
    refine ⟨[], .none _, ?_, ?_, rfl⟩
    · simp [frames, Except.toOption, hbuffer]
    · intro other hmem
      obtain rfl : other = frame := by simpa [frames, Except.toOption] using hmem
      exact hfits.encode_eq
  | case3 reader _ source hr ih =>
    obtain ⟨outcomes, h⟩ := ih
    exact ⟨_, h.interrupted hr⟩
  | case4 reader _ fault source hfault hr =>
    have hsome : failure? (.error fault) = some (.io fault) := by
      cases fault <;> first | rfl | exact absurd rfl hfault
    refine ⟨[.error fault], .read hr (.none _), List.append_nil _, List.forall_mem_nil _, ?_⟩
    rw [List.filterMap_cons_some hsome]
    rfl
  | case5 reader _ source hr =>
    exact ⟨[.ok []], .read hr (.none _), List.append_nil _, List.forall_mem_nil _, rfl⟩
  | case6 reader _ b bs source hr ih =>
    obtain ⟨outcomes, h⟩ := ih
    -- The octets are gathered, and the call goes on.
    exact ⟨_, h.gather hr⟩

/-- Any calls, in any order, are accounted for. -/
theorem run_accounts (reader : FrameReader) (calls : List Call) :
    ∃ outcomes, reader.Accounts outcomes (reader.run calls).1 (reader.run calls).2 := by
  induction calls generalizing reader with
  | nil => exact ⟨[], accounts_refl reader⟩
  | cons call calls ih =>
    cases call with
    | read =>
      obtain ⟨first, hfirst⟩ := readFrame_accounts reader
      obtain ⟨others, hothers⟩ := ih (reader.readFrame).2
      exact ⟨first ++ others, hfirst.trans hothers⟩
    | limit maxPayload =>
      obtain ⟨outcomes, h⟩ := ih { reader with maxPayload }
      -- Another limit takes nothing and gives nothing back.
      exact ⟨outcomes, h.reads, h.octets, h.encoded, h.failures⟩

/-- What calls have read is gone from the front of `buffer` and source, and nothing else is. -/
theorem Accounts.whole (h : reader.Accounts outcomes results reader') :
    reader.buffer ++ reader.source.octets =
      (frames results).flatMap Frame.octets ++ (reader'.buffer ++ reader'.source.octets) := by
  rw [← h.reads.octets, ← List.append_assoc, h.octets, List.append_assoc]

/-- `readFrame` takes the octets of its frame off the front. -/
theorem octets_of_readFrame_ok {frame : Frame} (h : reader.readFrame = (.ok frame, reader')) :
    reader.buffer ++ reader.source.octets =
      frame.octets ++ (reader'.buffer ++ reader'.source.octets) := by
  obtain ⟨outcomes, haccounts⟩ := readFrame_accounts reader
  rw [h] at haccounts
  have hframes : frames [.ok frame] = [frame] := rfl
  rw [haccounts.whole, hframes, List.flatMap_singleton]

/-- `readFrame` takes nothing off when it fails. -/
theorem octets_of_readFrame_error {e : WireError} (h : reader.readFrame = (.error e, reader')) :
    reader.buffer ++ reader.source.octets = reader'.buffer ++ reader'.source.octets := by
  obtain ⟨outcomes, haccounts⟩ := readFrame_accounts reader
  rw [h] at haccounts
  exact haccounts.whole

/-- A frame that `nextFrame` answers stands behind keepalives only. -/
theorem nextFrame_octets {patient : IoFault → Bool} {frame : Frame}
    (h : reader.nextFrame patient = (.ok frame, reader')) :
    frame.isKeepalive = false ∧ ∃ keepalives : List Frame,
      (∀ other ∈ keepalives, other.isKeepalive = true) ∧
      reader.buffer ++ reader.source.octets =
        keepalives.flatMap Frame.octets ++
          (frame.octets ++ (reader'.buffer ++ reader'.source.octets)) := by
  fun_induction nextFrame patient reader with
  | case1 reader other reader₁ hread hkeepalive ih =>
    -- A keepalive has been passed over.
    obtain ⟨hframe, keepalives, hothers, hrest⟩ := ih h
    refine ⟨hframe, other :: keepalives, List.forall_mem_cons.2 ⟨hkeepalive, hothers⟩, ?_⟩
    rw [octets_of_readFrame_ok hread, hrest, List.flatMap_cons, List.append_assoc]
  | case2 reader other reader₁ hread hkeepalive =>
    cases h
    exact ⟨by simpa using hkeepalive, [], List.forall_mem_nil _, octets_of_readFrame_ok hread⟩
  | case3 reader fault reader₁ hread hpatient ih =>
    -- A failure that is waited out has taken nothing.
    rw [octets_of_readFrame_error hread]
    exact ih h
  | case4 => cases h
  | case5 => cases h

/-- `interrupted` is never answered. -/
theorem Accounts.not_interrupted (h : reader.Accounts outcomes results reader') :
    .error (.io .interrupted) ∉ results := by
  intro hmem
  have htold : WireError.io .interrupted ∈ results.filterMap sourceFailure? :=
    List.mem_filterMap.2 ⟨_, hmem, rfl⟩
  -- What is told is the failure of a read, and an interruption is none.
  rw [h.failures, List.mem_filterMap] at htold
  obtain ⟨outcome, -, houtcome⟩ := htold
  unfold failure? at houtcome
  split at houtcome <;> simp_all

/-! ## How octets are cut -/

/-- `run` gives the same results on readers that hold the same octets. -/
theorem run_congr {bs : Bytes} (h : reader.Holds bs) (h' : reader'.Holds bs)
    (hmax : reader.maxPayload = reader'.maxPayload) (calls : List Call) :
    (reader.run calls).1 = (reader'.run calls).1 := by
  induction calls generalizing reader reader' bs with
  | nil => rfl
  | cons call calls ih =>
    cases call with
    | read =>
      -- Each reader answers the first frame of the octets, and is left with the same ones.
      obtain ⟨next, hread, hnext, hsame⟩ := h.readFrame_first
      obtain ⟨next', hread', hnext', hsame'⟩ := h'.readFrame_first
      rw [← hmax] at hread' hnext' hsame'
      have hrest := ih hnext hnext' (hsame.trans hsame'.symm)
      simp only [run, hread, hread', hrest]
    | limit maxPayload =>
      exact ih ⟨h.octets, h.intact⟩ ⟨h'.octets, h'.intact⟩ rfl

/-! ## What can never be a frame -/

/-- `readFrame` that fails for its buffer still has it, and `decode` still fails. -/
theorem decode_of_readFrame_error {e : WireError} (h : reader.readFrame = (.error e, reader'))
    (he : isOfSource e = false) : Frame.decode reader'.maxPayload reader'.buffer = .error e := by
  fun_induction readFrame reader with
  | case1 reader e' hdecode =>
    cases h
    exact hdecode
  | case2 => cases h
  | case3 reader _ source hr ih => exact ih h
  | case4 => cases h; cases he
  | case5 => cases h; cases he
  | case6 reader _ b bs source hr ih => exact ih h

/-- `readFrame` fails at once, without a read, for a buffer for which `decode` does. -/
theorem readFrame_of_decode_error {e : WireError}
    (h : Frame.decode reader.maxPayload reader.buffer = .error e) :
    reader.readFrame = (.error e, reader) := by
  rw [readFrame]
  split <;> simp_all

/-- As long as `maxPayload` is such that `decode` fails for the buffer, every call of `run` fails
alike and reads nothing. -/
theorem run_of_broken (stays : Nat → Prop) {e : Nat → WireError}
    (hbroken : ∀ n, stays n → Frame.decode n reader.buffer = .error (e n))
    (hnow : stays reader.maxPayload) (calls : List Call)
    (hcalls : ∀ n, .limit n ∈ calls → stays n) :
    let later := { reader with maxPayload := lastLimit reader.maxPayload calls }
    (reader.run calls).2 = later ∧ later.readFrame = (.error (e later.maxPayload), later) := by
  induction calls generalizing reader with
  | nil => exact ⟨rfl, readFrame_of_decode_error (hbroken _ hnow)⟩
  | cons call calls ih =>
    have hothers : ∀ n, .limit n ∈ calls → stays n := fun n hmem =>
      hcalls n (List.mem_cons_of_mem _ hmem)
    cases call with
    | read =>
      -- The call fails on the buffer, and the reader is as before.
      have hfirst := readFrame_of_decode_error (hbroken _ hnow)
      simp only [run, hfirst]
      exact ih hbroken hnow hothers
    | limit maxPayload =>
      exact @ih { reader with maxPayload } hbroken (hcalls _ List.mem_cons_self) hothers

/-- `readFrame` with a header whose size is within the limit answers the frame that it announces, or
a failure of the source. -/
theorem readFrame_of_announces {size : Nat} {result : Except WireError Frame}
    (hread : reader.readFrame = (result, reader')) (h : Frame.Announces reader.buffer size)
    (hle : size ≤ reader.maxPayload) :
    (∃ frame, result = .ok frame ∧ frame.payload.length = size) ∨
      ∃ e, result = .error e ∧ isOfSource e := by
  fun_induction readFrame reader with
  | case1 reader e hdecode =>
    rcases h.decode_of_le hle with hnone | ⟨frame, rest, hsome, -⟩
    · rw [hdecode] at hnone
      cases hnone
    · rw [hdecode] at hsome
      cases hsome
  | case2 reader frame rest hdecode =>
    cases hread
    rcases h.decode_of_le hle with hnone | ⟨frame', rest', hsome, hsize⟩
    · rw [hdecode] at hnone
      cases hnone
    · rw [hdecode] at hsome
      cases hsome
      exact .inl ⟨frame, rfl, hsize⟩
  | case3 reader _ source hr ih => exact ih hread h hle
  | case4 => cases hread; exact .inr ⟨_, rfl, rfl⟩
  | case5 => cases hread; exact .inr ⟨_, rfl, rfl⟩
  | case6 reader _ b bs source hr ih => exact ih hread (h.append _) hle

/-- After `invalidMagic` every call answers that. -/
theorem run_of_invalidMagic (h : reader.readFrame = (.error .invalidMagic, reader'))
    (calls : List Call) :
    let later := { reader' with maxPayload := lastLimit reader'.maxPayload calls }
    (reader'.run calls).2 = later ∧ later.readFrame = (.error .invalidMagic, later) := by
  have hdecode := decode_of_readFrame_error h rfl
  -- The magic does not depend on the limit.
  rcases Frame.decode_eq_error_iff.1 hdecode with ⟨hwhole, hmark, -⟩ | ⟨size, -, -, he⟩
  · exact run_of_broken (fun _ => True)
      (fun n _ => Frame.decode_of_unmarked hwhole hmark n) trivial calls (fun _ _ => trivial)
  · cases he

/-- After `payloadTooLarge` every call answers that under any limit below the size. -/
theorem run_of_payloadTooLarge {size max : Nat}
    (h : reader.readFrame = (.error (.payloadTooLarge size max), reader')) {calls : List Call}
    (hcalls : ∀ n, .limit n ∈ calls → n < size) :
    let later := { reader' with maxPayload := lastLimit max calls }
    (reader'.run calls).2 = later ∧
      later.readFrame = (.error (.payloadTooLarge size later.maxPayload), later) := by
  have hdecode := decode_of_readFrame_error h rfl
  rcases Frame.decode_eq_error_iff.1 hdecode with ⟨-, -, he⟩ | ⟨size', hannounces, hlarge, he⟩
  · cases he
  · cases he
    -- The header announces the same size under any limit.
    have hbroken : ∀ n, n < size → Frame.decode n reader'.buffer =
        .error (.payloadTooLarge size n) := fun n hn =>
      Frame.decode_eq_error_iff.2 (.inr ⟨size, hannounces, hn, rfl⟩)
    exact run_of_broken (· < size) hbroken hlarge calls hcalls

/-- `readFrame` under a limit that has been raised to the size answers the frame, or a failure of
the source. -/
theorem readFrame_of_raised {size max larger : Nat} {result : Except WireError Frame}
    {reader'' : FrameReader}
    (h : reader.readFrame = (.error (.payloadTooLarge size max), reader')) (hle : size ≤ larger)
    (hread : readFrame { reader' with maxPayload := larger } = (result, reader'')) :
    (∃ frame more, result = .ok frame ∧ frame.payload.length = size ∧
        reader'.buffer ++ more = frame.octets ++ reader''.buffer) ∨
      ∃ e, result = .error e ∧ isOfSource e := by
  have hdecode := decode_of_readFrame_error h rfl
  rcases Frame.decode_eq_error_iff.1 hdecode with ⟨-, -, he⟩ | ⟨size', hannounces, -, he⟩
  · cases he
  · cases he
    rcases readFrame_of_announces hread hannounces hle with ⟨frame, rfl, hsize⟩ | hfailed
    · -- The octets of the frame begin with those that were there.
      obtain ⟨outcomes, haccounts⟩ := readFrame_accounts { reader' with maxPayload := larger }
      have hoctets := haccounts.octets
      rw [hread] at hoctets
      refine .inl ⟨frame, Source.taken outcomes, rfl, hsize, ?_⟩
      simpa [frames, Except.toOption] using hoctets
    · exact .inr hfailed

end FrameReader

open FrameReader in
/-- A `FrameReader` is called any number of times, over a source that hands out its octets in any
pieces, fails, and comes to ends in any order.

* What it has `taken` from its source is the `frames` it has given back, in order and as
  `Frame.encode` writes them, and what it holds in its `buffer`.  A read that fails is told once,
  and so is an end; `interrupted` is not told.
* Over a source that is `Intact`, the results are up to the octets, not to how they are cut.
* After `invalidMagic`, every `readFrame` answers `invalidMagic`, and none reads or takes anything.
* After `payloadTooLarge`, the same holds as long as `maxPayload` stays below that size; when the
  limit is raised to it, the next frame is the one with this payload, unless the source fails. -/
theorem frames_reassembled :
    (∀ source maxPayload calls, ∃ outcomes,
      let (results, reader) := (ofSource source maxPayload).run calls
      Source.Meets chunkSize source outcomes reader.source ∧
        Source.taken outcomes ++ reader.source.octets = source.octets ∧
        Source.taken outcomes = (frames results).flatMap Frame.octets ++ reader.buffer ∧
        (∀ frame ∈ frames results, frame.encode = .ok frame.octets) ∧
        results.filterMap sourceFailure? = outcomes.filterMap failure? ∧
        .error (.io .interrupted) ∉ results) ∧
      (∀ (s t : Source) maxPayload calls, s.Intact → t.Intact → s.octets = t.octets →
        ((ofSource s maxPayload).run calls).1 = ((ofSource t maxPayload).run calls).1) ∧
      (∀ reader reader' : FrameReader, reader.readFrame = (.error .invalidMagic, reader') →
        ∀ calls,
          let later := { reader' with maxPayload := lastLimit reader'.maxPayload calls }
          (reader'.run calls).2 = later ∧ later.readFrame = (.error .invalidMagic, later)) ∧
      ∀ (reader reader' : FrameReader) size max,
        reader.readFrame = (.error (.payloadTooLarge size max), reader') →
        (∀ calls, (∀ n, .limit n ∈ calls → n < size) →
          let later := { reader' with maxPayload := lastLimit max calls }
          (reader'.run calls).2 = later ∧
            later.readFrame = (.error (.payloadTooLarge size later.maxPayload), later)) ∧
        ∀ larger, size ≤ larger → ∀ result reader'',
          readFrame { reader' with maxPayload := larger } = (result, reader'') →
          (∃ frame more, result = .ok frame ∧ frame.payload.length = size ∧
            reader'.buffer ++ more = frame.octets ++ reader''.buffer) ∨
            ∃ e, result = .error e ∧ isOfSource e := by
  refine ⟨fun source maxPayload calls => ?_, fun s t maxPayload calls hs ht hoctets => ?_,
    fun _ _ h calls => run_of_invalidMagic h calls,
    fun _ _ _ _ h => ⟨fun _ hcalls => run_of_payloadTooLarge h hcalls,
      fun _ hle _ _ hread => readFrame_of_raised h hle hread⟩⟩
  · obtain ⟨outcomes, h⟩ := run_accounts (ofSource source maxPayload) calls
    exact ⟨outcomes, h.reads, h.reads.octets, h.octets, h.encoded, h.failures, h.not_interrupted⟩
  · have hone : (ofSource s maxPayload).Holds s.octets := ⟨rfl, hs⟩
    have hother : (ofSource t maxPayload).Holds s.octets := ⟨hoctets.symm, ht⟩
    exact run_congr hone hother rfl calls

/-- A frame with a payload of two octets. -/
def pairFrame : Frame := ⟨⟨2, 2⟩, 7, [1, 2]⟩

/-- A reader that has gathered this frame under a limit of one octet. -/
def strictReader : FrameReader := ⟨[], pairFrame.octets, 1⟩

/-- A reader of something else. -/
def strangeReader : FrameReader := ⟨[.octets [5] none], List.replicate 17 0, 1⟩

open FrameReader in
/-- `run` on a pair of frames that come octet by octet and with an interruption, under limits of one
octet, of none and of two, and on octets with a strange magic. -/
theorem frames_reassembled_pair :
    ((ofSource [.octets pairFrame.octets (some 1), .fault .interrupted] 8).run
        [.read, .read]).1 = ((ofSource (.ofBytes pairFrame.octets) 8).run [.read, .read]).1 ∧
      ((strangeReader.run [.read, .limit 3]).2).readFrame =
        (.error .invalidMagic, { strangeReader with maxPayload := 3 }) ∧
      ((strictReader.run [.read, .limit 0, .read]).2).readFrame =
        (.error (.payloadTooLarge 2 0), { strictReader with maxPayload := 0 }) ∧
      ∃ frame, (readFrame { strictReader with maxPayload := 2 }).1 = .ok frame ∧
        frame.payload.length = 2 := by
  have hbroken : strangeReader.readFrame = (.error .invalidMagic, strangeReader) :=
    readFrame_of_decode_error rfl
  have hlarge : strictReader.readFrame = (.error (.payloadTooLarge 2 1), strictReader) :=
    readFrame_of_decode_error rfl
  refine ⟨?_, ?_, ?_, ?_⟩
  · apply frames_reassembled.2.1
    · constructor
      case steady => simp [Source.Steady, Arrival.stalls]
      case faults => simp
    · exact Source.intact_ofBytes _
    · rfl
  · obtain ⟨hlater, hread⟩ := frames_reassembled.2.2.1 _ _ hbroken [.read, .limit 3]
    rw [hlater, hread]
    rfl
  · obtain ⟨hlater, hread⟩ := (frames_reassembled.2.2.2 _ _ _ _ hlarge).1 [.read, .limit 0, .read]
      (by simp)
    rw [hlater, hread]
    rfl
  · have hraised := (frames_reassembled.2.2.2 _ _ _ _ hlarge).2 2 (Nat.le_refl 2) _ _ rfl
    rcases hraised with ⟨frame, -, hread, hsize, -⟩ | ⟨e, hread, hsource⟩
    · exact ⟨frame, hread, hsize⟩
    · -- The whole frame has been gathered, so the source is not asked.
      have hdecode : Frame.decode 2 strictReader.buffer = .ok (some (pairFrame, [])) := rfl
      rw [readFrame] at hread
      split at hread <;> simp_all [strictReader]

end Storefront
