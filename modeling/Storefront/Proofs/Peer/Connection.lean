import Storefront.Proofs.Frame.Stream
import Storefront.Proofs.Peer.Numbering

/-! # What one side does

Sending changes the writer of a connection and the id it gives next, receiving its reader, and
nothing else.

* `send_ok`, `keepalive_ok`           a frame as a whole is on its way
* `receive_ok`, `receive_error`       what a receive makes of the next frame
-/

namespace Storefront

namespace Connection

variable {c c' : Connection} {m : Message}

/-- `sendFrame` that succeeds has handed the frame to the writer, and done nothing else. -/
theorem sendFrame_ok {frame : Frame} (h : sendFrame frame c = .ok () c') :
    ∃ writer, c.link.writer.send frame = (.ok (), writer) ∧
      c' = { c with link := { c.link with writer } } := by
  unfold sendFrame Exchange.send at h
  -- `Exchange.send` passes on the result of `FrameWriter.send` and puts the writer back
  cases hsend : c.link.writer.send frame with
  | mk result writer =>
    cases result with
    | error e => simp [hsend] at h
    | ok u =>
      simp only [hsend, EStateM.Result.ok.injEq, true_and] at h
      exact ⟨writer, rfl, h.symm⟩

theorem keepalive_ok (h : keepalive c = .ok () c') :
    ∃ writer, c.link.writer.send Frame.keepalive = (.ok (), writer) ∧
      c' = { c with link := { c.link with writer } } :=
  sendFrame_ok h

/-- `send` that succeeds has put the message on its way in a frame of its own, under the id that
it answers. -/
theorem send_ok {id : UInt64} (h : send m c = .ok id c') :
    ∃ key body writer, c.registry.encode m c.context = .ok (key, body) ∧
      c.link.writer.send ⟨key, id, body⟩ = (.ok (), writer) ∧
      c' = { c with link := { c.link with writer }, nextId := c'.nextId } := by
  -- `takeId` touches the next id alone, whichever id it answers
  obtain ⟨next, hnext⟩ : ∃ next, (c.takeId m).2 = { c with nextId := next } := ⟨_, takeId_snd c m⟩
  unfold send at h
  simp only [hnext] at h
  cases hencode : c.registry.encode m c.context with
  | error e => simp [hencode] at h
  | ok written =>
    obtain ⟨key, body⟩ := written
    -- `encode` comes first, so a message that cannot be written sends no frame
    cases hframe : sendFrame ⟨key, (c.takeId m).1, body⟩ { c with nextId := next } with
    | error e c₁ => simp [hencode, hframe] at h
    | ok u c₁ =>
      simp only [hencode, hframe, EStateM.Result.ok.injEq] at h
      obtain ⟨rfl, rfl⟩ := h
      obtain ⟨writer, hsend, rfl⟩ := sendFrame_ok hframe
      exact ⟨key, body, writer, rfl, hsend, rfl⟩

/-- `receive` with nothing pending answers the message of the next frame. -/
theorem receive_ok (hpending : c.pending = []) (h : receive c = .ok m c') :
    ∃ frame reader found, c.link.reader.nextFrame (fun _ => false) = (.ok frame, reader) ∧
      c.registry.decodeFrame frame c.context = .ok found ∧
      m = { found with envelope := { found.envelope with sender := c.peerId } } ∧
      c' = { c with link := { c.link with reader } } := by
  unfold receive readMessage Exchange.receive at h
  -- `pending` is empty, so `receive` has to read a frame
  cases hread : c.link.reader.nextFrame (fun _ => false) with
  | mk result reader =>
    cases result with
    | error e => simp [hpending, hread] at h
    | ok frame =>
      cases hdecode : c.registry.decodeFrame frame c.context with
      | error e => simp [hpending, hread, hdecode] at h
      | ok found =>
        simp only [hpending, hread, hdecode, EStateM.Result.ok.injEq] at h
        refine ⟨frame, reader, found, rfl, hdecode, h.1.symm, ?_⟩
        rw [hpending]
        exact h.2.symm

/-- `receive` fails when no frame is to be had, or when `decodeFrame` fails for it. -/
theorem receive_error (hpending : c.pending = []) {e : PeerError} (h : receive c = .error e c') :
    ∃ result reader, c.link.reader.nextFrame (fun _ => false) = (result, reader) ∧
      c' = { c with link := { c.link with reader } } ∧
      match result with
      | .error fault => e = .ofRead .receive fault
      | .ok frame => ∃ fault, c.registry.decodeFrame frame c.context = .error fault := by
  unfold receive readMessage Exchange.receive at h
  -- either `nextFrame` failed, or its frame did not decode
  cases hread : c.link.reader.nextFrame (fun _ => false) with
  | mk result reader =>
    cases result with
    | error fault =>
      simp only [hpending, hread, EStateM.Result.error.injEq] at h
      refine ⟨_, reader, rfl, ?_, h.1.symm⟩
      rw [hpending]
      exact h.2.symm
    | ok frame =>
      cases hdecode : c.registry.decodeFrame frame c.context with
      | ok found => simp [hpending, hread, hdecode] at h
      | error fault =>
        simp only [hpending, hread, hdecode, EStateM.Result.error.injEq] at h
        refine ⟨_, reader, rfl, ?_, fault, hdecode⟩
        rw [hpending]
        exact h.2.symm

end Connection

end Storefront
