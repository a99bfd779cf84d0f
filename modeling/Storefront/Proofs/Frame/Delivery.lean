import Storefront.Frame.Writer
import Storefront.Proofs.Frame.Stream

/-! # Frames on a sink that takes what it is given

A frame that keeps to the limits goes out as a whole, however many writes that takes; of any other
frame nothing goes out.

* `Willing`            a sink that takes what it is given
* `send_of_fits`       a frame that goes out
* `send_of_not_fits`   a frame that does not
-/

namespace Storefront

namespace Sink

/-- A sink that takes what it is given.  A write may take only a part, and a call may have to be
made again. -/
structure Willing (sink : Sink) : Prop where
  writes : ∀ a ∈ sink.writes, a ≠ .most 0 ∧ ∀ fault, a = .fault fault → retries fault
  flushes : ∀ fault ∈ sink.flushes, retries fault

/-- `unlimited` is `Willing`. -/
theorem willing_unlimited : unlimited.Willing :=
  ⟨List.forall_mem_nil _, List.forall_mem_nil _⟩

variable {sink : Sink}

/-- `offer` succeeds where every write takes an octet at least or is made again. -/
theorem offer_of_willing {writes : List Acceptance}
    (h : ∀ a ∈ writes, a ≠ .most 0 ∧ ∀ fault, a = .fault fault → retries fault) (bs : Bytes) :
    (offer writes bs).1 = .ok () := by
  fun_induction offer writes bs with
  | case1 => rfl
  | case2 => rfl
  | case3 b bs writes => exact absurd rfl (h _ List.mem_cons_self).1
  | case4 b bs writes n result left taken hr ih =>
    rw [hr] at ih
    exact ih fun a ha => h a (List.mem_cons_of_mem _ ha)
  | case5 f writes b bs hf ih => exact ih fun a ha => h a (List.mem_cons_of_mem _ ha)
  | case6 f writes b bs hf => exact absurd ((h _ List.mem_cons_self).2 f rfl) hf

/-- `settle` succeeds where every flush that fails is made again. -/
theorem settle_of_willing {flushes : List IoFault} (h : ∀ fault ∈ flushes, retries fault) :
    (settle flushes).1 = .ok () := by
  induction flushes with
  | nil => rfl
  | cons fault flushes ih =>
    rw [settle, if_pos (h fault List.mem_cons_self)]
    exact ih fun other hother => h other (List.mem_cons_of_mem _ hother)

/-- `writeAll` on a `Willing` sink puts all octets there, and `flush` succeeds then. -/
theorem Willing.writeAll (h : sink.Willing) (bs : Bytes) :
    ∃ sink', sink.writeAll bs = (.ok (), sink') ∧ sink'.written = sink.written ++ bs ∧
      (sink'.flush).1 = .ok () := by
  have hwrite : sink.writeAll bs = (.ok (), (sink.writeAll bs).2) :=
    Prod.ext (offer_of_willing h.writes bs) rfl
  exact ⟨_, hwrite, writeAll_written hwrite, settle_of_willing h.flushes⟩

end Sink

namespace FrameWriter

variable {writer : FrameWriter} {frame : Frame}

/-- `send` of a frame that `Fits` is `writeAll` and then `flush`. -/
theorem send_eq_of_fits (h : frame.Fits writer.maxPayload) :
    writer.send frame =
      match writer.sink.writeAll frame.octets with
      | (.error e, sink) => (.error e, { writer with sink })
      | (.ok (), sink) => flush { writer with sink } := by
  rewrite [send, if_neg (Nat.not_lt.2 h.payload), h.encode_eq]
  rfl

/-- `send` of a frame that `Fits` puts the whole frame on a `Willing` sink. -/
theorem send_of_fits (h : writer.sink.Willing) (hfits : frame.Fits writer.maxPayload) :
    ∃ writer', writer.send frame = (.ok (), writer') ∧
      writer'.sink.written = writer.sink.written ++ frame.octets := by
  obtain ⟨sink, hwrite, hwritten, hflush⟩ := h.writeAll frame.octets
  refine ⟨{ writer with sink := (sink.flush).2 }, ?_, hwritten⟩
  rw [send_eq_of_fits hfits, hwrite]
  simp only [flush]
  rw [← hflush]

/-- `send` refuses a frame that does not fit, and puts nothing on the sink. -/
theorem send_of_not_fits (h : ¬ frame.Fits writer.maxPayload) :
    ∃ size max, writer.send frame = (.error (.payloadTooLarge size max), writer) := by
  by_cases hpayload : writer.maxPayload < frame.payload.length
  · rw [send, if_pos hpayload]
    exact ⟨_, _, rfl⟩
  · -- The writer would take it, but a header has no room for its size.
    have hheader : Frame.payloadLimit < frame.payload.length :=
      Nat.lt_of_not_le fun hle => h ⟨Nat.le_of_not_lt hpayload, hle⟩
    rw [send, if_neg hpayload, Frame.encode, if_pos hheader]
    exact ⟨_, _, rfl⟩

end FrameWriter

end Storefront
