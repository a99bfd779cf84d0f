import Storefront.Frame.Basic
import Storefront.Io.Sink

/-! # Writing frames

A frame writer puts whole frames on its sink, one after the other.  A payload above the limit is
refused before anything is written.
-/

namespace Storefront

/-- Frames over a byte sink. -/
structure FrameWriter where
  sink : Sink
  maxPayload : Nat
  deriving Repr

namespace FrameWriter

/-- Makes sure that what was written is on its way. -/
def flush (writer : FrameWriter) : Except WireError Unit × FrameWriter :=
  let (result, sink) := writer.sink.flush
  (result, { writer with sink })

/-- Writes a frame and flushes. -/
def send (writer : FrameWriter) (frame : Frame) : Except WireError Unit × FrameWriter :=
  if writer.maxPayload < frame.payload.length then
    (.error (.payloadTooLarge frame.payload.length writer.maxPayload), writer)
  else
    match frame.encode with
    | .error e => (.error e, writer)
    | .ok bs =>
      match writer.sink.writeAll bs with
      | (.error e, sink) => (.error e, { writer with sink })
      | (.ok (), sink) => flush { writer with sink }

end FrameWriter

end Storefront
