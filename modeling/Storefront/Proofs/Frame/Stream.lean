import Storefront.Frame.Reader
import Storefront.Frame.Writer
import Storefront.Proofs.Schema.Stream

/-! # Frames from end to end

However a run of frames is cut on its way, its reader finds the frames that were written, in order.
A reader `Faces` frames when the octets it has gathered, those its source holds, and those that are
still on their way make up these frames.

* `decode_octets`, `decode_of_unfinished`   a whole frame, and the beginning of one
* `Faces.readFrame_ok`, `Faces.nextFrame_ok`  the frame that is handed out is the first
* `Faces.nextFrame_error`                     a failed read loses no message
* `send_ok`                                   what a writer adds
-/

namespace Storefront

namespace Frame

/-- The octets of a frame. -/
def octets (frame : Frame) : Bytes :=
  header frame.key frame.requestId frame.payload.length ++ frame.payload

theorem octets_ne_nil (frame : Frame) : frame.octets ≠ [] := by
  simp [octets, header, magic]

/-- The payload of a frame is within the limit of a connection, and its size fits a header. -/
structure Fits (maxPayload : Nat) (frame : Frame) : Prop where
  payload : frame.payload.length ≤ maxPayload
  header : frame.payload.length ≤ payloadLimit

theorem Fits.mono {frame : Frame} {max max' : Nat} (h : frame.Fits max) (hle : max ≤ max') :
    frame.Fits max' :=
  ⟨Nat.le_trans h.payload hle, h.header⟩

/-- What the usual limit allows fits a header. -/
theorem fits_default {frame : Frame} (h : frame.payload.length ≤ defaultMaxPayload) :
    frame.Fits defaultMaxPayload :=
  ⟨h, Nat.le_trans h (by decide)⟩

/-- `Frame.encode` gives the octets of a frame, if its size fits a header. -/
theorem encode_ok {frame : Frame} {bs : Bytes} (h : frame.encode = .ok bs) :
    frame.payload.length ≤ payloadLimit ∧ bs = frame.octets := by
  unfold encode at h
  by_cases hsize : payloadLimit < frame.payload.length
  · rw [if_pos hsize] at h
    cases h
  · rw [if_neg hsize] at h
    exact ⟨Nat.le_of_not_lt hsize, (Except.ok.inj h).symm⟩

/-- `encode` of a frame that `Fits` makes its `octets`. -/
theorem Fits.encode_eq {frame : Frame} {maxPayload : Nat} (h : frame.Fits maxPayload) :
    frame.encode = .ok frame.octets := by
  rw [encode, if_neg (Nat.not_lt.2 h.header)]
  rfl

/-- What `decode` looks up in a `header`. -/
theorem header_fields (key : MessageKey) (requestId : UInt64) {size : Nat}
    (h : size ≤ payloadLimit) :
    (header key requestId size).take 2 = magic ∧
      LittleEndian.decode (((header key requestId size).drop 2).take 4) = size ∧
      LittleEndian.decode (((header key requestId size).drop 6).take 1) = key.family.toNat ∧
      LittleEndian.decode (((header key requestId size).drop 7).take 2) = key.message.toNat ∧
      LittleEndian.decode (((header key requestId size).drop 9).take 8) = requestId.toNat := by
  -- Every number is smaller than what its octets can hold.
  have hnumber : ∀ {width n : Nat}, n < LittleEndian.limit width →
      LittleEndian.decode (LittleEndian.encode width n) = n := by
    intro width n hn
    rw [LittleEndian.decode_encode, Nat.mod_eq_of_lt hn]
  have hsize : LittleEndian.decode (LittleEndian.encode 4 size) = size := by
    apply hnumber
    simp only [LittleEndian.limit, payloadLimit] at *
    omega
  have hfamily : LittleEndian.decode (LittleEndian.encode 1 key.family.toNat) = key.family.toNat :=
    hnumber key.family.toNat_lt
  have hmessage :
      LittleEndian.decode (LittleEndian.encode 2 key.message.toNat) = key.message.toNat :=
    hnumber key.message.toNat_lt
  have hrequest : LittleEndian.decode (LittleEndian.encode 8 requestId.toNat) = requestId.toNat :=
    hnumber requestId.toNat_lt
  -- A field is found behind those in front of it, which are dropped as a whole.
  have hpassed : ∀ {width n k : Nat}, width ≤ k → (LittleEndian.encode width n).drop k = [] := by
    intro width n k hk
    exact List.drop_of_length_le (by rwa [LittleEndian.length_encode])
  refine ⟨?_, ?_, ?_, ?_, ?_⟩
  · simp [header, magic]
  · simp [header, magic, hsize]
  · simp [header, magic, hfamily]
  · simp [header, magic, List.drop_append, hpassed, hmessage]
  · simp [header, magic, List.drop_append, hpassed, List.take_of_length_le, hrequest]

/-- `decode` reads the `octets` of a frame that `Fits`, whatever is behind them. -/
theorem decode_octets {frame : Frame} {maxPayload : Nat} (h : frame.Fits maxPayload)
    (rest : Bytes) : decode maxPayload (frame.octets ++ rest) = .ok (some (frame, rest)) := by
  have hlength := length_header frame.key frame.requestId frame.payload.length
  have hhead : Bytes.split? (frame.octets ++ rest) headerSize =
      some (header frame.key frame.requestId frame.payload.length, frame.payload ++ rest) := by
    rw [octets, List.append_assoc, ← hlength, Bytes.split?_append]
  obtain ⟨hmagic, hsize, hfamily, hmessage, hrequest⟩ :=
    header_fields frame.key frame.requestId h.header
  simp only [decode, hhead, hmagic, hsize, hfamily, hmessage, hrequest, ne_eq, not_true_eq_false,
    if_false, Nat.not_lt.2 h.payload, Bytes.split?_append]
  simp

/-- `decode` of the beginning of a frame answers `none`. -/
theorem decode_of_unfinished {frame : Frame} {maxPayload : Nat} (h : frame.Fits maxPayload)
    {buffer missing : Bytes} (hsplit : frame.octets = buffer ++ missing) (hmissing : missing ≠ []) :
    decode maxPayload buffer = .ok none := by
  have hlength := length_header frame.key frame.requestId frame.payload.length
  have hpositive := List.length_pos_iff.2 hmissing
  by_cases hhead : buffer.length < headerSize
  · have hnone : Bytes.split? buffer headerSize = none := Bytes.split?_eq_none.2 hhead
    simp only [decode, hnone]
  · -- The header is there as a whole, and the payload is not.
    obtain ⟨part, hpart⟩ : ∃ part, header frame.key frame.requestId frame.payload.length ++ part =
        buffer := by
      have hfront : header frame.key frame.requestId frame.payload.length <+: frame.octets :=
        List.prefix_append _ _
      have hgathered : buffer <+: frame.octets := by
        rw [hsplit]
        exact List.prefix_append _ _
      apply List.prefix_of_prefix_length_le hfront hgathered
      omega
    have hpayload : part ++ missing = frame.payload := by
      rw [octets, ← hpart, List.append_assoc] at hsplit
      exact (List.append_cancel_left hsplit).symm
    have hshort : part.length < frame.payload.length := by
      rw [← hpayload, List.length_append]
      omega
    have hsome : Bytes.split? buffer headerSize =
        some (header frame.key frame.requestId frame.payload.length, part) := by
      rw [← hpart, ← hlength, Bytes.split?_append]
    have hnone : Bytes.split? part frame.payload.length = none := Bytes.split?_eq_none.2 hshort
    obtain ⟨hmagic, hsize, -⟩ := header_fields frame.key frame.requestId h.header
    simp only [decode, hsome, hmagic, hsize, ne_eq, not_true_eq_false, if_false,
      Nat.not_lt.2 h.payload, hnone]

/-- The frames that carry messages. -/
def messages (frames : List Frame) : List Frame := frames.filter (!·.isKeepalive)

end Frame

namespace FrameReader

/-- A reader is in front of some frames: they are what it has gathered, what its source holds, and
what is still on its way (`more`). -/
structure Faces (reader : FrameReader) (more : Bytes) (frames : List Frame) : Prop where
  octets : reader.buffer ++ (reader.source.octets ++ more) = frames.flatMap Frame.octets
  fits : ∀ frame ∈ frames, frame.Fits reader.maxPayload

/-- The failures that come from the source of a reader, not from what it has read. -/
def isOfSource : WireError → Bool
  | .io _ | .connectionClosed => true
  | _ => false

variable {reader reader' : FrameReader} {more : Bytes} {frames : List Frame} {frame : Frame}

/-- The buffer of a reader that `Faces` frames is the beginning of the first one, or this frame as a
whole with something behind it. -/
theorem Faces.decode (h : reader.Faces more frames) :
    Frame.decode reader.maxPayload reader.buffer = .ok none ∨
      ∃ frame rest frames', frames = frame :: frames' ∧
        Frame.decode reader.maxPayload reader.buffer = .ok (some (frame, rest)) ∧
        FrameReader.Faces { reader with buffer := rest } more frames' := by
  cases frames with
  | nil =>
    have hempty := h.octets
    rw [List.flatMap_nil, List.append_eq_nil_iff] at hempty
    left
    rw [hempty.1]
    rfl
  | cons frame frames =>
    have hfits := h.fits frame List.mem_cons_self
    have hoctets := h.octets
    rw [List.flatMap_cons, List.append_eq_append_iff] at hoctets
    -- Either the buffer ends within the first frame, or this frame ends within the buffer.
    rcases hoctets with ⟨missing, hsplit, hmore⟩ | ⟨rest, hbuffer, hrest⟩
    · cases missing with
      | cons b missing =>
        exact .inl (Frame.decode_of_unfinished hfits hsplit (List.cons_ne_nil _ _))
      | nil =>
        -- The first frame is there and nothing else.
        rw [List.append_nil] at hsplit
        have hdecode := Frame.decode_octets hfits []
        rw [List.append_nil, hsplit] at hdecode
        exact .inr ⟨frame, [], frames, rfl, hdecode, hmore,
          fun other hother => h.fits other (List.mem_cons_of_mem _ hother)⟩
    · refine .inr ⟨frame, rest, frames, rfl, ?_, hrest.symm,
        fun other hother => h.fits other (List.mem_cons_of_mem _ hother)⟩
      rw [hbuffer]
      exact Frame.decode_octets hfits rest

/-- `decode` never fails for a buffer that `Faces` frames. -/
theorem Faces.decode_ne_error (h : reader.Faces more frames) (e : WireError) :
    Frame.decode reader.maxPayload reader.buffer ≠ .error e := by
  intro hdecode
  rcases h.decode with hnone | ⟨frame, rest, frames', -, hsome, -⟩
  · rw [hdecode] at hnone
    cases hnone
  · rw [hdecode] at hsome
    cases hsome

/-- A successful read moves octets from the source to the buffer, and the reader `Faces`
the same. -/
theorem Faces.gather {room : Nat} {bs : Bytes} {source : Source} (h : reader.Faces more frames)
    (hr : reader.source.read room = (.ok bs, source)) :
    FrameReader.Faces { reader with source, buffer := reader.buffer ++ bs } more frames := by
  refine ⟨?_, h.fits⟩
  rw [← h.octets, ← Source.read_octets hr]
  simp only [List.append_assoc]

/-- A read that fails takes no octets, and the reader `Faces` the same. -/
theorem Faces.afterFault {room : Nat} {fault : IoFault} {source : Source}
    (h : reader.Faces more frames) (hr : reader.source.read room = (.error fault, source)) :
    FrameReader.Faces { reader with source } more frames := by
  refine ⟨?_, h.fits⟩
  rw [← h.octets, ← Source.read_octets_of_error hr]

/-- `readFrame` answers the first of the frames that the reader `Faces`. -/
theorem Faces.readFrame_ok (h : reader.Faces more frames)
    (hread : reader.readFrame = (.ok frame, reader')) :
    ∃ frames', frames = frame :: frames' ∧ reader'.Faces more frames' := by
  fun_induction readFrame reader with
  | case1 => simp at hread
  | case2 reader frame' rest hdecode =>
    simp only [Prod.mk.injEq, Except.ok.injEq] at hread
    obtain ⟨rfl, rfl⟩ := hread
    rcases h.decode with hnone | ⟨first, rest', frames', hframes, hsome, hfaces⟩
    · rw [hdecode] at hnone
      cases hnone
    · rw [hdecode, Except.ok.injEq, Option.some.injEq, Prod.mk.injEq] at hsome
      obtain ⟨rfl, rfl⟩ := hsome
      exact ⟨frames', hframes, hfaces⟩
  | case3 reader _ source hr ih =>
    exact ih (h.afterFault hr) hread
  | case4 => simp at hread
  | case5 => simp at hread
  | case6 reader _ b bs source hr ih =>
    exact ih (h.gather hr) hread

/-- `readFrame` fails for the source only, and the reader `Faces` the same. -/
theorem Faces.readFrame_error {e : WireError} (h : reader.Faces more frames)
    (hread : reader.readFrame = (.error e, reader')) : isOfSource e ∧ reader'.Faces more frames := by
  fun_induction readFrame reader with
  | case1 reader e' hdecode =>
    exact absurd hdecode (h.decode_ne_error e')
  | case2 => simp at hread
  | case3 reader _ source hr ih =>
    exact ih (h.afterFault hr) hread
  | case4 reader _ fault source _ hr =>
    simp only [Prod.mk.injEq, Except.error.injEq] at hread
    obtain ⟨rfl, rfl⟩ := hread
    exact ⟨rfl, h.afterFault hr⟩
  | case5 reader _ source hr =>
    simp only [Prod.mk.injEq, Except.error.injEq] at hread
    obtain ⟨rfl, rfl⟩ := hread
    have hsame := h.gather hr
    rw [List.append_nil] at hsame
    exact ⟨rfl, hsame⟩
  | case6 reader _ b bs source hr ih =>
    exact ih (h.gather hr) hread

/-- `nextFrame` answers the first frame that carries a message. -/
theorem Faces.nextFrame_ok {patient : IoFault → Bool} (h : reader.Faces more frames)
    (hread : reader.nextFrame patient = (.ok frame, reader')) :
    ∃ frames', Frame.messages frames = frame :: Frame.messages frames' ∧
      frame ∈ frames ∧ reader'.Faces more frames' := by
  fun_induction nextFrame patient reader generalizing frames with
  | case1 reader first reader₁ hr hkeepalive ih =>
    obtain ⟨frames₁, rfl, hfaces⟩ := h.readFrame_ok hr
    -- A keepalive is gone from the frames, and was none of the messages.
    obtain ⟨frames', hmessages, hmem, hfaces'⟩ := ih hfaces hread
    refine ⟨frames', ?_, List.mem_cons_of_mem _ hmem, hfaces'⟩
    rw [Frame.messages, List.filter_cons_of_neg (by simp [hkeepalive])]
    exact hmessages
  | case2 reader first reader₁ hr hkeepalive =>
    simp only [Prod.mk.injEq, Except.ok.injEq] at hread
    obtain ⟨rfl, rfl⟩ := hread
    obtain ⟨frames', rfl, hfaces⟩ := h.readFrame_ok hr
    refine ⟨frames', ?_, List.mem_cons_self, hfaces⟩
    rw [Frame.messages, List.filter_cons_of_pos (by simpa using hkeepalive)]
    rfl
  | case3 reader fault reader₁ hr _ ih => exact ih (h.readFrame_error hr).2 hread
  | case4 => simp at hread
  | case5 => simp at hread

/-- `nextFrame` that fails has passed over keepalives at most. -/
theorem Faces.nextFrame_error {patient : IoFault → Bool} {e : WireError}
    (h : reader.Faces more frames) (hread : reader.nextFrame patient = (.error e, reader')) :
    isOfSource e ∧ ∃ frames', Frame.messages frames = Frame.messages frames' ∧
      reader'.Faces more frames' := by
  fun_induction nextFrame patient reader generalizing frames with
  | case1 reader first reader₁ hr hkeepalive ih =>
    -- Only keepalives have been passed over before the failure.
    obtain ⟨frames₁, rfl, hfaces⟩ := h.readFrame_ok hr
    obtain ⟨hsource, frames', hmessages, hfaces'⟩ := ih hfaces hread
    refine ⟨hsource, frames', ?_, hfaces'⟩
    rw [← hmessages, Frame.messages, List.filter_cons_of_neg (by simp [hkeepalive])]
    rfl
  | case2 => simp at hread
  | case3 reader fault reader₁ hr _ ih => exact ih (h.readFrame_error hr).2 hread
  | case4 reader fault reader₁ hr _ =>
    simp only [Prod.mk.injEq, Except.error.injEq] at hread
    obtain ⟨rfl, rfl⟩ := hread
    exact ⟨rfl, frames, rfl, (h.readFrame_error hr).2⟩
  | case5 reader e' reader₁ _ hr =>
    simp only [Prod.mk.injEq, Except.error.injEq] at hread
    obtain ⟨rfl, rfl⟩ := hread
    exact ⟨(h.readFrame_error hr).1, frames, rfl, (h.readFrame_error hr).2⟩

/-- `readFrame` over a source that is `Steady` answers `connectionClosed` only where no frame
is left. -/
theorem Faces.readFrame_closed (h : reader.Faces [] frames) (hsteady : reader.source.Steady)
    (hread : reader.readFrame = (.error .connectionClosed, reader')) : frames = [] := by
  fun_induction readFrame reader with
  | case1 reader e' hdecode =>
    exact absurd hdecode (h.decode_ne_error e')
  | case2 => simp at hread
  | case3 reader _ source hr ih =>
    exact ih (h.afterFault hr) (hsteady.read hr) hread
  | case4 => simp at hread
  | case5 reader hdecode source hr =>
    -- An empty read of a source that does not stall is the end, so everything has been gathered.
    have hempty := hsteady.octets_of_read_nil (by decide) hr
    have hoctets := h.octets
    rw [hempty, List.append_nil, List.append_nil] at hoctets
    cases frames with
    | nil => rfl
    | cons frame frames =>
      -- The first frame would be there as a whole.
      have hwhole := Frame.decode_octets (h.fits frame List.mem_cons_self)
        (frames.flatMap Frame.octets)
      rw [← List.flatMap_cons, ← hoctets, hdecode] at hwhole
      cases hwhole
  | case6 reader _ b bs source hr ih =>
    exact ih (h.gather hr) (hsteady.read hr) hread

/-- `readFrame` leaves a `Steady` source steady. -/
theorem readFrame_steady (hsteady : reader.source.Steady) :
    (reader.readFrame).2.source.Steady := by
  fun_induction readFrame reader with
  | case1 | case2 => exact hsteady
  | case3 _ _ _ hr ih | case6 _ _ _ _ _ hr ih => exact ih (hsteady.read hr)
  | case4 _ _ _ _ _ hr | case5 _ _ _ hr => exact hsteady.read hr

/-- `nextFrame` reports `connectionClosed` over a `Steady` source only where no message is left. -/
theorem Faces.nextFrame_closed {patient : IoFault → Bool} (h : reader.Faces [] frames)
    (hsteady : reader.source.Steady)
    (hread : reader.nextFrame patient = (.error .connectionClosed, reader')) :
    Frame.messages frames = [] := by
  fun_induction nextFrame patient reader generalizing frames with
  | case1 reader first reader₁ hr hkeepalive ih =>
    obtain ⟨frames₁, rfl, hfaces⟩ := h.readFrame_ok hr
    have hsteady₁ := readFrame_steady hsteady
    rw [hr] at hsteady₁
    rw [Frame.messages, List.filter_cons_of_neg (by simp [hkeepalive])]
    exact ih hfaces hsteady₁ hread
  | case2 => simp at hread
  | case3 reader fault reader₁ hr _ ih =>
    have hsteady₁ := readFrame_steady hsteady
    rw [hr] at hsteady₁
    exact ih (h.readFrame_error hr).2 hsteady₁ hread
  | case4 => simp at hread
  | case5 reader e' reader₁ _ hr =>
    simp only [Prod.mk.injEq, Except.error.injEq] at hread
    obtain ⟨rfl, rfl⟩ := hread
    rw [h.readFrame_closed hsteady hr]
    rfl

/-- `nextFrame` does not change `maxPayload`. -/
theorem nextFrame_maxPayload (patient : IoFault → Bool) (reader : FrameReader) :
    (reader.nextFrame patient).2.maxPayload = reader.maxPayload := by
  have hone : ∀ reader : FrameReader, (reader.readFrame).2.maxPayload = reader.maxPayload := by
    intro reader
    fun_induction readFrame reader with
    | case3 _ _ _ _ ih | case6 _ _ _ _ _ _ ih => exact ih
    | _ => rfl
  fun_induction nextFrame patient reader with
  | case1 reader _ reader₁ hr _ ih | case3 reader _ reader₁ hr _ ih =>
    rw [ih, ← hone reader, hr]
  | case2 reader _ reader₁ hr | case4 reader _ reader₁ hr | case5 reader _ reader₁ _ hr =>
    rw [← hone reader, hr]

/-- Octets that arrive are on their way no longer, and the reader `Faces` the same. -/
theorem Faces.arrive {arrivals : Source} (h : reader.Faces (arrivals.octets ++ more) frames) :
    FrameReader.Faces { reader with source := reader.source ++ arrivals } more frames := by
  refine ⟨?_, h.fits⟩
  rw [← h.octets, Source.octets_append, List.append_assoc]

/-- Frames that are written come last of those that the reader `Faces`. -/
theorem Faces.writtenAll {news : List Frame} (h : reader.Faces more frames)
    (hfits : ∀ frame ∈ news, frame.Fits reader.maxPayload) :
    reader.Faces (more ++ news.flatMap Frame.octets) (frames ++ news) := by
  constructor
  case octets =>
    rw [List.flatMap_append, ← h.octets]
    simp only [List.append_assoc]
  case fits =>
    intro frame hframe
    rcases List.mem_append.1 hframe with hframe | hframe
    · exact h.fits frame hframe
    · exact hfits frame hframe

/-- A frame that is written comes last of those that the reader `Faces`. -/
theorem Faces.written (h : reader.Faces more frames) (hfits : frame.Fits reader.maxPayload) :
    reader.Faces (more ++ frame.octets) (frames ++ [frame]) := by
  have hall := h.writtenAll (List.forall_mem_singleton.2 hfits)
  rwa [List.flatMap_singleton] at hall

end FrameReader

namespace FrameWriter

/-- `send` that succeeds has put the whole frame on the sink. -/
theorem send_ok {writer writer' : FrameWriter} {frame : Frame}
    (h : writer.send frame = (.ok (), writer')) :
    writer'.maxPayload = writer.maxPayload ∧ frame.Fits writer.maxPayload ∧
      writer'.sink.written = writer.sink.written ++ frame.octets := by
  unfold send at h
  by_cases hmax : writer.maxPayload < frame.payload.length
  · rw [if_pos hmax] at h
    cases h
  · rw [if_neg hmax] at h
    split at h
    · cases h
    · rename_i bs hencode
      obtain ⟨hlimit, rfl⟩ := Frame.encode_ok hencode
      split at h
      · cases h
      · rename_i sink hwrite
        have hwritten := Sink.writeAll_written hwrite
        have hflush := Sink.flush_written sink
        simp only [flush, Prod.mk.injEq] at h
        obtain ⟨-, rfl⟩ := h
        exact ⟨rfl, ⟨Nat.le_of_not_lt hmax, hlimit⟩, hflush.trans hwritten⟩

/-- `send` does not change `maxPayload`. -/
theorem send_maxPayload (writer : FrameWriter) (frame : Frame) :
    (writer.send frame).2.maxPayload = writer.maxPayload := by
  unfold send flush
  split
  · rfl
  · split
    · rfl
    · split <;> rfl

end FrameWriter

end Storefront
