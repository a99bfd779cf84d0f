import Storefront.Proofs.Peer.Connection

/-! # What a connection reads

A connection makes sense of one frame after the other.  What a request reads while it waits is kept,
in order, up to the message that it stops at.

* `FrameReader.Finds`     the messages between two points of a reader
* `Finds.unique`          there is one such run of messages only
* `readMessage_eq`        what one read does
* `awaits`                how waiting for an answer can end
-/

namespace Storefront

namespace FrameReader

/-- The next message that a reader comes to, for someone to whom frames have the given meaning. -/
def nextMessage (meaning : Frame → Except PeerError Message) (reader : FrameReader) :
    Except PeerError Message × FrameReader :=
  match reader.nextFrame (fun _ => false) with
  | (.ok frame, reader') => (meaning frame, reader')
  | (.error e, reader') => (.error (.ofRead .receive e), reader')

/-! ## Readers do not grow -/

/-- `readFrame` does not make a reader larger. -/
theorem readFrame_size_le (reader : FrameReader) : (reader.readFrame).2.size ≤ reader.size := by
  -- Octets move from the source to the buffer, and leave it as a frame.
  fun_induction readFrame reader with
  | case1 => exact Nat.le_refl _
  | case2 reader frame rest hdecode =>
    have := Frame.decode_shorter hdecode
    simp only [size]
    omega
  | case3 reader _ source hr ih =>
    have := Source.read_size_of_error hr
    simp only [size] at *
    omega
  | case4 reader _ fault source _ hr =>
    have := Source.read_size_of_error hr
    simp only [size]
    omega
  | case5 reader _ source hr =>
    have hle := Source.read_size_le chunkSize reader.source
    rw [hr] at hle
    exact Nat.add_le_add_right hle _
  | case6 reader _ b bs source hr ih =>
    have := Source.read_size_add hr
    simp only [size, List.length_append] at *
    omega

/-- `nextFrame` does not make a reader larger. -/
theorem nextFrame_size_le (patient : IoFault → Bool) (reader : FrameReader) :
    (reader.nextFrame patient).2.size ≤ reader.size := by
  -- One read at a time makes the reader no larger.
  have hone : ∀ {reader reader' : FrameReader} {result : Except WireError Frame},
      reader.readFrame = (result, reader') → reader'.size ≤ reader.size := by
    intro reader reader' result h
    have hle := readFrame_size_le reader
    rwa [h] at hle
  fun_induction nextFrame patient reader with
  | case1 _ _ _ hr _ ih | case3 _ _ _ hr _ ih => exact Nat.le_trans ih (hone hr)
  | case2 _ _ _ hr | case4 _ _ _ hr | case5 _ _ _ _ hr => exact hone hr

section

variable {meaning : Frame → Except PeerError Message} {reader reader' : FrameReader}

/-- `nextMessage` does not make a reader larger. -/
theorem nextMessage_size_le (meaning : Frame → Except PeerError Message) (reader : FrameReader) :
    (reader.nextMessage meaning).2.size ≤ reader.size := by
  have hle := nextFrame_size_le (fun _ => false) reader
  unfold nextMessage
  split <;> (rename_i hread; rwa [hread] at hle)

/-- `nextMessage` that answers a message makes the reader smaller. -/
theorem nextMessage_size_of_ok {m : Message} (h : reader.nextMessage meaning = (.ok m, reader')) :
    reader'.size < reader.size := by
  unfold nextMessage at h
  split at h
  · rename_i hread
    simp only [Prod.mk.injEq] at h
    exact h.2 ▸ nextFrame_size_of_ok hread
  · simp at h

/-- `nextMessage` does not change `maxPayload`. -/
theorem nextMessage_maxPayload (meaning : Frame → Except PeerError Message)
    (reader : FrameReader) : (reader.nextMessage meaning).2.maxPayload = reader.maxPayload := by
  have hmax := nextFrame_maxPayload (fun _ => false) reader
  unfold nextMessage
  split <;> (rename_i hread; rwa [hread] at hmax)

/-- `nextMessage` never answers `bufferFull`, as no frame means that. -/
theorem nextMessage_ne_bufferFull (hmeaning : ∀ frame n, meaning frame ≠ .error (.bufferFull n))
    {n : Nat} : reader.nextMessage meaning ≠ (.error (.bufferFull n), reader') := by
  unfold nextMessage
  split
  · rename_i frame _ _
    exact fun h => hmeaning frame n (congrArg Prod.fst h)
  · rename_i e _ _
    cases e <;> simp [PeerError.ofRead]

/-- `nextMessage` answers what one of the frames means that the reader `Faces`, and those that it
faces then are among them. -/
theorem Faces.nextMessage {more : Bytes} {frames : List Frame} (h : reader.Faces more frames)
    (meaning : Frame → Except PeerError Message) :
    ∃ frames', (reader.nextMessage meaning).2.Faces more frames' ∧
      Frame.messages frames' ⊆ Frame.messages frames ∧
      ∀ m, (reader.nextMessage meaning).1 = .ok m →
        ∃ frame ∈ Frame.messages frames, meaning frame = .ok m := by
  unfold FrameReader.nextMessage
  rcases hread : reader.nextFrame (fun _ => false) with ⟨e | frame, reader'⟩
  · -- A read that fails has passed keepalives at most.
    obtain ⟨-, frames', hmessages, hfaces⟩ := h.nextFrame_error hread
    exact ⟨frames', hfaces, hmessages ▸ List.Subset.refl _, by simp⟩
  · -- The first of the messages has been read.
    obtain ⟨frames', hmessages, -, hfaces⟩ := h.nextFrame_ok hread
    refine ⟨frames', hfaces, ?_, fun m hm => ⟨frame, ?_, hm⟩⟩
    · rw [hmessages]
      exact List.subset_cons_self _ _
    · rw [hmessages]
      exact List.mem_cons_self

end

/-! ## The messages between two points -/

/-- Reading on from one point of a reader to another, someone to whom frames have the given meaning
finds these messages.  What cannot be read is passed over. -/
inductive Finds (meaning : Frame → Except PeerError Message) :
    FrameReader → List Message → FrameReader → Prop
  | nothing (reader : FrameReader) : Finds meaning reader [] reader
  | message {reader reader' reader'' : FrameReader} {m : Message} {ms : List Message}
    (hread : reader.nextMessage meaning = (.ok m, reader'))
    (hrest : Finds meaning reader' ms reader'') : Finds meaning reader (m :: ms) reader''
  | fault {reader reader' reader'' : FrameReader} {e : PeerError} {ms : List Message}
    (hread : reader.nextMessage meaning = (.error e, reader'))
    (hrest : Finds meaning reader' ms reader'') : Finds meaning reader ms reader''

namespace Finds

variable {meaning : Frame → Except PeerError Message} {reader reader' reader'' : FrameReader}
  {ms ms' : List Message}

/-- Runs that `Finds` describes can be put together. -/
theorem append (h : reader.Finds meaning ms reader') (h' : reader'.Finds meaning ms' reader'') :
    reader.Finds meaning (ms ++ ms') reader'' := by
  induction h with
  | nothing => exact h'
  | message hread _ ih => exact .message hread (ih h')
  | fault hread _ ih => exact .fault hread (ih h')

/-- Each message that is found takes something off the `size` of the reader. -/
theorem size_add_le (h : reader.Finds meaning ms reader') :
    reader'.size + ms.length ≤ reader.size := by
  induction h with
  | nothing => exact Nat.le_refl _
  | message hread _ ih =>
    have := nextMessage_size_of_ok hread
    simp only [List.length_cons]
    omega
  | @fault reader _ _ _ _ hread _ ih =>
    have hle := nextMessage_size_le meaning reader
    rw [hread] at hle
    exact Nat.le_trans ih hle

theorem eq_nil (h : reader.Finds meaning ms reader) : ms = [] := by
  have := h.size_add_le
  exact List.length_eq_zero_iff.1 (by omega)

/-- `Finds` is a function of the two readers. -/
theorem unique (h : reader.Finds meaning ms reader') (h' : reader.Finds meaning ms' reader') :
    ms = ms' := by
  induction h generalizing ms' with
  | nothing => exact h'.eq_nil.symm
  | message hread hrest ih =>
    cases h' with
    | nothing => exact (Finds.message hread hrest).eq_nil
    | message hread' hrest' =>
      -- The two runs begin with the same read.
      cases hread.symm.trans hread'
      rw [ih hrest']
    | fault hread' _ => cases hread.symm.trans hread'
  | fault hread hrest ih =>
    cases h' with
    | nothing => exact (Finds.fault hread hrest).eq_nil
    | message hread' _ => cases hread.symm.trans hread'
    | fault hread' hrest' =>
      cases hread.symm.trans hread'
      exact ih hrest'

end Finds

end FrameReader

namespace Connection

/-- What a frame means to a connection: a message from its peer, or a fault. -/
def meaning (c : Connection) (frame : Frame) : Except PeerError Message :=
  match c.registry.decodeFrame frame c.context with
  | .error e => .error (.schema e)
  | .ok m => .ok { m with envelope := { m.envelope with sender := c.peerId } }

/-- No frame has the `meaning` that there is no room. -/
theorem meaning_ne_bufferFull (c : Connection) (frame : Frame) (n : Nat) :
    c.meaning frame ≠ .error (.bufferFull n) := by
  unfold meaning
  split <;> simp

/-- `readMessage` is `nextMessage`: it changes the reader and nothing else. -/
theorem readMessage_eq (c : Connection) :
    readMessage c =
      match c.link.reader.nextMessage c.meaning with
      | (.ok m, reader) => .ok m { c with link := { c.link with reader } }
      | (.error e, reader) => .error e { c with link := { c.link with reader } } := by
  unfold readMessage Exchange.receive FrameReader.nextMessage meaning
  -- The reader is left behind the frame, whatever this means.
  cases c.link.reader.nextFrame (fun _ => false) with
  | mk result reader =>
    cases result with
    | error e => rfl
    | ok frame =>
      simp only
      cases c.registry.decodeFrame frame c.context with
      | error e => rfl
      | ok m => rfl

variable {c c' : Connection} {m : Message} {e : PeerError}

/-- `readMessage` answers the next message, and the reader is behind it. -/
theorem readMessage_ok (h : readMessage c = .ok m c') :
    c.link.reader.nextMessage c.meaning = (.ok m, c'.link.reader) ∧
      c' = { c with link := { c.link with reader := c'.link.reader } } := by
  rw [readMessage_eq] at h
  split at h
  · rename_i m' reader hread
    simp only [EStateM.Result.ok.injEq] at h
    obtain ⟨rfl, rfl⟩ := h
    exact ⟨hread, rfl⟩
  · cases h

/-- `readMessage` fails for the next message, and the reader is behind what it has passed. -/
theorem readMessage_error (h : readMessage c = .error e c') :
    c.link.reader.nextMessage c.meaning = (.error e, c'.link.reader) ∧
      c' = { c with link := { c.link with reader := c'.link.reader } } := by
  rw [readMessage_eq] at h
  split at h
  · cases h
  · rename_i e' reader hread
    simp only [EStateM.Result.error.injEq] at h
    obtain ⟨rfl, rfl⟩ := h
    exact ⟨hread, rfl⟩

/-! ## Waiting for an answer -/

/-- A connection that has read on to a point and kept messages on the way there. -/
def keep (c : Connection) (kept : List Message) (reader : FrameReader) : Connection :=
  { c with link := { c.link with reader }, pending := c.pending ++ kept }

/-- Messages that are kept while one with a given id is waited for: none of them is this one, and
there was room for all. -/
structure Keeps (id : UInt64) (c : Connection) (kept : List Message) : Prop where
  others : ∀ m ∈ kept, m.envelope.requestId ≠ id
  room : kept = [] ∨ (c.pending ++ kept).length ≤ c.maxPending

/-- How waiting for the message with a given id can end. -/
inductive Awaits (id : UInt64) (type : MessageType) (c : Connection) :
    EStateM.Result PeerError Connection Message → Prop
  /-- With the first message that has the id, whatever its type. -/
  | answered {kept : List Message} {m : Message} {reader : FrameReader} (hkeeps : Keeps id c kept)
    (hfinds : c.link.reader.Finds c.meaning (kept ++ [m]) reader)
    (hm : m.envelope.requestId = id) : Awaits id type c (expect type m (c.keep kept reader))
  /-- With another message for which there is no room.  It has been read and is not kept. -/
  | overflowed {kept : List Message} {lost : Message} {reader : FrameReader}
    (hkeeps : Keeps id c kept) (hfinds : c.link.reader.Finds c.meaning (kept ++ [lost]) reader)
    (hlost : lost.envelope.requestId ≠ id)
    (hfull : c.maxPending ≤ (c.keep kept reader).pending.length) :
    Awaits id type c
      (.error (.bufferFull (c.keep kept reader).pending.length) (c.keep kept reader))
  /-- With a read that fails. -/
  | failed {kept : List Message} {e : PeerError} {reader : FrameReader} (hkeeps : Keeps id c kept)
    (hfinds : c.link.reader.Finds c.meaning kept reader) (he : ∀ n, e ≠ .bufferFull n) :
    Awaits id type c (.error e (c.keep kept reader))

/-- A message that is kept comes before those that `Keeps` has after it. -/
theorem Keeps.cons {id : UInt64} {kept : List Message} (h : Keeps id c' kept)
    (hother : m.envelope.requestId ≠ id) (hroom : c.pending.length < c.maxPending)
    (hpending : c'.pending = c.pending ++ [m]) (hmax : c'.maxPending = c.maxPending) :
    Keeps id c (m :: kept) := by
  refine ⟨fun other hmem => ?_, .inr ?_⟩
  · rcases List.mem_cons.1 hmem with rfl | hmem
    · exact hother
    · exact h.others other hmem
  · -- There was room for those behind it, and so for all.
    rcases h.room with rfl | hlength
    · rw [List.length_append]
      exact hroom
    · rwa [hpending, hmax, List.append_assoc, List.singleton_append] at hlength

/-- `Awaits` behind a message that is kept is up to the connection that has kept it. -/
theorem Awaits.cons {id : UInt64} {type : MessageType}
    {result : EStateM.Result PeerError Connection Message} (hread : readMessage c = .ok m c')
    (hother : m.envelope.requestId ≠ id) (hroom : c'.pending.length < c'.maxPending)
    (h : Awaits id type { c' with pending := c'.pending ++ [m] } result) :
    Awaits id type c result := by
  obtain ⟨hfound, hc'⟩ := readMessage_ok hread
  rw [hc'] at h hroom
  -- What is kept later stands behind this message.
  have hkeep : ∀ {kept : List Message} {reader : FrameReader},
      keep { c with link := { c.link with reader := c'.link.reader }, pending := c.pending ++ [m] }
        kept reader = c.keep (m :: kept) reader := by
    intro kept reader
    simp only [keep, List.append_assoc, List.singleton_append]
  cases h with
  | answered hkeeps hfinds hm =>
    rw [hkeep]
    exact .answered (hkeeps.cons hother hroom rfl rfl) (.message hfound hfinds) hm
  | overflowed hkeeps hfinds hlost hfull =>
    rw [hkeep] at hfull ⊢
    exact .overflowed (hkeeps.cons hother hroom rfl rfl) (.message hfound hfinds) hlost hfull
  | failed hkeeps hfinds he =>
    rw [hkeep]
    exact .failed (hkeeps.cons hother hroom rfl rfl) (.message hfound hfinds) he

/-- `awaitAnswer` ends in one of the ways of `Awaits`. -/
theorem awaits (id : UInt64) (type : MessageType) (c : Connection) :
    Awaits id type c (awaitAnswer id type c) := by
  have hnone : ∀ c : Connection, Keeps id c [] := fun c => ⟨by simp, .inl rfl⟩
  have hkeep : ∀ (c : Connection) (reader : FrameReader),
      { c with link := { c.link with reader } } = c.keep [] reader := by
    intro c reader
    simp only [keep, List.append_nil]
  -- By induction on the messages that are read: any but the last is kept.
  fun_induction awaitAnswer id type c with
  | case1 c e c' hread =>
    obtain ⟨hfound, hc'⟩ := readMessage_error hread
    rw [hc', hkeep]
    refine .failed (hnone c) (.fault hfound (.nothing _)) fun n he => ?_
    exact FrameReader.nextMessage_ne_bufferFull c.meaning_ne_bufferFull (he ▸ hfound)
  | case2 c m c' hread hid =>
    obtain ⟨hfound, hc'⟩ := readMessage_ok hread
    rw [hc', hkeep]
    exact .answered (hnone c) (.message hfound (.nothing _)) hid
  | case3 c m c' hread hid hfull =>
    obtain ⟨hfound, hc'⟩ := readMessage_ok hread
    rw [hc', hkeep] at hfull ⊢
    exact .overflowed (hnone c) (.message hfound (.nothing _)) hid hfull
  | case4 c m c' hread hid hroom ih =>
    exact ih.cons hread hid (Nat.lt_of_not_le hroom)

end Connection

end Storefront
