import Storefront.Proofs.Frame.Decode

/-! # Frames taken off a buffer

Who gathers octets takes a frame off their front as soon as there is one, and leaves them alone
otherwise.  Taking a frame and writing it undo each other, and what has been found out about a
buffer still holds when more octets have come in behind it.

* `readFrame_takeFront`  a reader takes its frames off its buffer in this way
* `decode_eq_none_iff`   when a buffer may still become a frame
* `front_exact`          what a call takes, leaves and answers, for all buffers
-/

namespace Storefront

namespace Frame

variable {buffer left : Bytes} {maxPayload : Nat}

/-- One call on a buffer: the frame at its front, if it is complete, and the buffer afterwards. -/
def takeFront (maxPayload : Nat) (buffer : Bytes) : Except WireError (Option Frame) × Bytes :=
  match decode maxPayload buffer with
  | .ok (some (frame, rest)) => (.ok (some frame), rest)
  | .ok none => (.ok none, buffer)
  | .error e => (.error e, buffer)

/-- A frame is taken just when `decode` finds it in front. -/
theorem takeFront_some_iff {frame : Frame} :
    takeFront maxPayload buffer = (.ok (some frame), left) ↔
      decode maxPayload buffer = .ok (some (frame, left)) := by
  rw [takeFront]
  cases h : decode maxPayload buffer with
  | error e => simp
  | ok found => cases found <;> simp [Prod.ext_iff]

/-- Nothing is taken, and the buffer stays, while `decode` has no answer. -/
theorem takeFront_none_iff :
    takeFront maxPayload buffer = (.ok none, left) ↔
      left = buffer ∧ decode maxPayload buffer = .ok none := by
  rw [takeFront]
  cases h : decode maxPayload buffer with
  | error e => simp
  | ok found => cases found <;> simp [eq_comm]

/-- `takeFront` fails just when `decode` does, and leaves the buffer as well. -/
theorem takeFront_error_iff {e : WireError} :
    takeFront maxPayload buffer = (.error e, left) ↔
      left = buffer ∧ decode maxPayload buffer = .error e := by
  rw [takeFront]
  cases h : decode maxPayload buffer with
  | error e' => simp [eq_comm, and_comm]
  | ok found => cases found <;> simp

end Frame

/-- `readFrame` is `takeFront` on its buffer, and a `read` of its source only when there is neither
a frame nor a refusal. -/
theorem FrameReader.readFrame_takeFront (reader : FrameReader) :
    reader.readFrame =
      match Frame.takeFront reader.maxPayload reader.buffer with
      | (.ok (some frame), left) => (.ok frame, { reader with buffer := left })
      | (.error e, left) => (.error e, { reader with buffer := left })
      | (.ok none, left) =>
        match reader.source.read chunkSize with
        | (.error .interrupted, source) => readFrame { reader with source, buffer := left }
        | (.error fault, source) => (.error (.io fault), { reader with source, buffer := left })
        | (.ok [], source) => (.error .connectionClosed, { reader with source, buffer := left })
        | (.ok (b :: bs), source) =>
          readFrame { reader with source, buffer := left ++ b :: bs } := by
  rw [readFrame, Frame.takeFront]
  cases Frame.decode reader.maxPayload reader.buffer with
  | error e => rfl
  | ok found =>
    cases found with
    | some taken => rfl
    | none =>
      -- Nothing has been taken, so the reader goes on with the buffer that it had.
      dsimp only
      split <;> simp_all

namespace Frame

variable {buffer : Bytes} {maxPayload : Nat}

/-- `decode` of a buffer that announces no more than `maxPayload` answers `none` exactly while
octets of the payload are missing. -/
theorem Announces.decode_eq_none_iff {size : Nat} (h : Announces buffer size)
    (hle : size ≤ maxPayload) :
    decode maxPayload buffer = .ok none ↔ buffer.length < headerSize + size := by
  have hwhole := h.whole
  have hsplit : Bytes.split? (buffer.drop headerSize) size = none ↔
      buffer.length < headerSize + size := by
    rw [Bytes.split?_eq_none, List.length_drop]
    omega
  rw [h.decode_eq, if_neg (Nat.not_lt.2 hle), Except.ok.injEq, Option.map_eq_none_iff, hsplit]

/-- `decode` answers `none` while the header is not whole, or a payload that it announces within
the limit. -/
theorem decode_eq_none_iff :
    decode maxPayload buffer = .ok none ↔
      buffer.length < headerSize ∨
        ∃ size, Announces buffer size ∧ size ≤ maxPayload ∧ buffer.length < headerSize + size := by
  constructor
  · intro h
    rcases short_or_unmarked_or_announces buffer with hshort | ⟨hwhole, hmark⟩ | ⟨size, hsize⟩
    · exact .inl hshort
    · rw [decode_of_unmarked hwhole hmark] at h
      cases h
    · by_cases hle : size ≤ maxPayload
      · exact .inr ⟨size, hsize, hle, (hsize.decode_eq_none_iff hle).1 h⟩
      · -- A payload that is too large is not waited for.
        rw [hsize.decode_eq, if_pos (Nat.lt_of_not_le hle)] at h
        cases h
  · rintro (hshort | ⟨size, hsize, hle, hlt⟩)
    · exact decode_of_short hshort maxPayload
    · exact (hsize.decode_eq_none_iff hle).2 hlt

/-- Taking a frame off a buffer undoes `Frame.encode`, whatever stands behind it, and a frame that
is taken was written there.  Without a frame the buffer stays as it is.  Octets that come in behind
a buffer change neither a frame that was taken nor a refusal, and `takeFront` answers `none` exactly
while the header is not whole, or a payload within `maxPayload`. -/
theorem front_exact (maxPayload : Nat) :
    (∀ frame rest, frame.Fits maxPayload → ∃ bs, frame.encode = .ok bs ∧
      takeFront maxPayload (bs ++ rest) = (.ok (some frame), rest)) ∧
    ∀ buffer left,
      (∀ frame, takeFront maxPayload buffer = (.ok (some frame), left) →
        frame.Fits maxPayload ∧ (∃ bs, frame.encode = .ok bs ∧ buffer = bs ++ left) ∧
        ∀ more, takeFront maxPayload (buffer ++ more) = (.ok (some frame), left ++ more)) ∧
      (∀ e, takeFront maxPayload buffer = (.error e, left) →
        left = buffer ∧
        ∀ more, takeFront maxPayload (buffer ++ more) = (.error e, buffer ++ more)) ∧
      (takeFront maxPayload buffer = (.ok none, left) ↔
        left = buffer ∧ (buffer.length < headerSize ∨
          ∃ size, Announces buffer size ∧ size ≤ maxPayload ∧
            buffer.length < headerSize + size)) := by
  constructor
  · intro frame rest hfits
    have htaken : takeFront maxPayload (frame.octets ++ rest) = (.ok (some frame), rest) :=
      takeFront_some_iff.2 (decode_octets hfits rest)
    exact ⟨frame.octets, hfits.encode_eq, htaken⟩
  · intro buffer left
    refine ⟨?taken, ?refused, ?waiting⟩
    case taken =>
      intro frame h
      rw [takeFront_some_iff] at h
      obtain ⟨hbuffer, hfits, -⟩ := decode_some h
      refine ⟨hfits, ⟨frame.octets, hfits.encode_eq, hbuffer⟩, ?_⟩
      intro more
      rw [takeFront_some_iff]
      exact decode_append_of_some h more
    case refused =>
      intro e h
      obtain ⟨hleft, hdecode⟩ := takeFront_error_iff.1 h
      refine ⟨hleft, ?_⟩
      intro more
      rw [takeFront_error_iff]
      exact ⟨rfl, decode_append_of_error hdecode more⟩
    case waiting =>
      rw [takeFront_none_iff, decode_eq_none_iff]

/-- A frame of two octets, followed by the beginning of another. -/
def smallFrame : Frame := ⟨⟨2, 5⟩, 9, [0xaa, 0xbb]⟩

/-- `takeFront` of the small frame under a limit of two octets, with an octet more behind it, and
under a limit of one. -/
theorem front_exact_small :
    takeFront 2 (smallFrame.octets ++ [0x53]) = (.ok (some smallFrame), [0x53]) ∧
      takeFront 2 (smallFrame.octets ++ [0x53] ++ [0x50]) =
        (.ok (some smallFrame), [0x53] ++ [0x50]) ∧
      takeFront 1 (smallFrame.octets ++ [0x53] ++ [0x50]) =
        (.error (.payloadTooLarge 2 1), smallFrame.octets ++ [0x53] ++ [0x50]) := by
  have hfits : smallFrame.Fits 2 := ⟨by decide, by decide⟩
  obtain ⟨bs, hencode, htaken⟩ := (front_exact 2).1 smallFrame [0x53] hfits
  obtain rfl : smallFrame.octets = bs := by
    rw [hfits.encode_eq] at hencode
    exact Except.ok.inj hencode
  -- The header alone settles that the payload is too large, before it has come in.
  have hrefused : takeFront 1 (smallFrame.octets ++ [0x53]) =
      (.error (.payloadTooLarge 2 1), smallFrame.octets ++ [0x53]) :=
    takeFront_error_iff.2 ⟨rfl, rfl⟩
  have hmore := (((front_exact 2).2 _ _).1 smallFrame htaken).2.2
  have hstill := (((front_exact 1).2 _ _).2.1 _ hrefused).2
  exact ⟨htaken, hmore [0x50], hstill [0x50]⟩

end Frame

end Storefront
