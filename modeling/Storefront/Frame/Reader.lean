import Storefront.Frame.Basic
import Storefront.Io.Source

/-! # Reading frames

A frame reader gathers what its source hands out until a whole frame has arrived.  Failures of the
source are passed on; what has been gathered stays for the next call.  A read that is interrupted is
made again.

* `readFrame_size_of_ok`, `readFrame_size_of_io`  a frame or a failed read leaves a smaller reader
-/

namespace Storefront

/-- Frames over a byte source. -/
structure FrameReader where
  source : Source
  /-- What has been read but not yet handed out as a frame. -/
  buffer : Bytes
  maxPayload : Nat
  deriving Repr

namespace FrameReader

/-- How much one read asks for. -/
def chunkSize : Nat := 8 * 1024

/-- A reader that has read nothing yet. -/
def ofSource (source : Source) (maxPayload : Nat) : FrameReader := ⟨source, [], maxPayload⟩

/-- The next frame. -/
def readFrame (reader : FrameReader) : Except WireError Frame × FrameReader :=
  match Frame.decode reader.maxPayload reader.buffer with
  -- The broken frame stays in the buffer, so every later call fails alike.
  | .error e => (.error e, reader)
  | .ok (some (frame, rest)) => (.ok frame, { reader with buffer := rest })
  | .ok none =>
    match _h : reader.source.read chunkSize with
    | (.error .interrupted, source) => readFrame { reader with source }
    | (.error fault, source) => (.error (.io fault), { reader with source })
    | (.ok [], source) => (.error .connectionClosed, { reader with source })
    | (.ok (b :: bs), source) =>
      readFrame { reader with source, buffer := reader.buffer ++ b :: bs }
termination_by reader.source.size
decreasing_by
  · exact Source.read_size_of_error _h
  · exact Source.read_size_of_ok _h

/-- A measure of what is still to come: what has been gathered and what the source will meet. -/
def size (reader : FrameReader) : Nat := reader.source.size + reader.buffer.length

theorem readFrame_size_of_ok {reader reader' : FrameReader} {frame : Frame}
    (h : reader.readFrame = (.ok frame, reader')) : reader'.size < reader.size := by
  fun_induction readFrame reader with
  | case1 => simp at h
  -- The frame leaves the buffer.
  | case2 reader frame' rest hd =>
    simp only [Prod.mk.injEq, Except.ok.injEq] at h
    obtain ⟨rfl, rfl⟩ := h
    have := Frame.decode_shorter hd
    simp only [size]
    omega
  -- An interrupted read uses up what it met.
  | case3 reader _ source hr ih =>
    have := ih h
    have := Source.read_size_of_error hr
    simp only [size] at *
    omega
  | case4 => simp at h
  | case5 => simp at h
  -- Octets move from the source to the buffer; the source loses one more for what they came in.
  | case6 reader _ b bs source hr ih =>
    have := ih h
    have := Source.read_size_add hr
    simp only [size, List.length_append] at *
    omega

theorem readFrame_size_of_io {reader reader' : FrameReader} {fault : IoFault}
    (h : reader.readFrame = (.error (.io fault), reader')) : reader'.size < reader.size := by
  fun_induction readFrame reader with
  | case1 reader e hd =>
    simp only [Prod.mk.injEq, Except.error.injEq] at h
    obtain ⟨rfl, -⟩ := h
    -- What has been gathered is at hand, so taking it apart does not fail for want of a source.
    exact absurd hd Frame.decode_ne_io
  | case2 => simp at h
  | case3 reader _ source hr ih =>
    have := ih h
    have := Source.read_size_of_error hr
    simp only [size] at *
    omega
  | case4 reader _ fault' source _ hr =>
    simp only [Prod.mk.injEq] at h
    obtain ⟨-, rfl⟩ := h
    have := Source.read_size_of_error hr
    simp only [size]
    omega
  | case5 => simp at h
  | case6 reader _ b bs source hr ih =>
    have := ih h
    have := Source.read_size_add hr
    simp only [size, List.length_append] at *
    omega

/-- The next frame that carries a message.  Keepalives are passed over, and so are the failures that
`patient` says to wait out. -/
def nextFrame (patient : IoFault → Bool) (reader : FrameReader) :
    Except WireError Frame × FrameReader :=
  match _h : reader.readFrame with
  | (.ok frame, reader') =>
    if frame.isKeepalive then nextFrame patient reader' else (.ok frame, reader')
  | (.error (.io fault), reader') =>
    if patient fault then nextFrame patient reader' else (.error (.io fault), reader')
  | (.error e, reader') => (.error e, reader')
termination_by reader.size
decreasing_by
  · exact readFrame_size_of_ok _h
  · exact readFrame_size_of_io _h

theorem nextFrame_size_of_ok {patient : IoFault → Bool} {reader reader' : FrameReader}
    {frame : Frame} (h : reader.nextFrame patient = (.ok frame, reader')) :
    reader'.size < reader.size := by
  fun_induction nextFrame patient reader with
  | case1 _ _ _ hr _ ih =>
    have := readFrame_size_of_ok hr
    have := ih h
    omega
  | case2 _ _ _ hr =>
    simp only [Prod.mk.injEq, Except.ok.injEq] at h
    obtain ⟨rfl, rfl⟩ := h
    exact readFrame_size_of_ok hr
  | case3 _ _ _ hr _ ih =>
    have := readFrame_size_of_io hr
    have := ih h
    omega
  | case4 => simp at h
  | case5 => simp at h

end FrameReader

end Storefront
