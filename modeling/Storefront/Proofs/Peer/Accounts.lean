import Mathlib.Data.List.Forall2
import Storefront.Proofs.Peer.Reading

/-! # Accounts of a connection

Whatever is asked of a connection, each message that it has read is accounted for: it has been
handed over by a receive, it was the answer to a request, it is still kept, or it is the one for
which a request found no room.

* `Connection.history`                  calls in a row and what came of them
* `Step.Has`                            what a call made of messages
* `send_changes`, `receive_takes`       what single actions do
* `make_balances`, `history_balances`   one call, and calls in a row
* `calls_account`                       all messages are accounted for
* `bufferFull_loses_one`                what happens where there is no room
-/

namespace Storefront

/-- What is asked of a connection. -/
inductive Call where
  | send (m : Message)
  | receive
  | receiveAs (type : MessageType)
  | request (m : Message) (answer : MessageType)
  | keepalive

/-- What a call answers. -/
inductive Reply where
  | id (id : UInt64)
  | message (m : Message)
  | done

/-- What a call does to a connection. -/
def Call.action : Call → Connection.Action Reply
  | .send m => Reply.id <$> Connection.send m
  | .receive => Reply.message <$> Connection.receive
  | .receiveAs type => Reply.message <$> Connection.receiveAs type
  | .request m answer => Reply.message <$> Connection.request m answer
  | .keepalive => (fun _ => Reply.done) <$> Connection.keepalive

/-- A call on a connection, and what came of it. -/
structure Step where
  before : Connection
  call : Call
  result : Except PeerError Reply
  after : Connection

/-- How a step failed, if it did. -/
def Step.fault? (s : Step) : Option PeerError :=
  match s.result with
  | .ok _ => none
  | .error e => some e

namespace Connection

/-- What an action has answered, and the connection behind it. -/
def outcome {α : Type} : EStateM.Result PeerError Connection α → Except PeerError α × Connection
  | .ok a c => (.ok a, c)
  | .error e c => (.error e, c)

@[simp] theorem outcome_ok {α : Type} (a : α) (c : Connection) :
    outcome (.ok a c) = (.ok a, c) := rfl

@[simp] theorem outcome_error {α : Type} (e : PeerError) (c : Connection) :
    outcome (α := α) (.error e c) = (.error e, c) := rfl

/-- Makes a call. -/
def make (c : Connection) (call : Call) : Step :=
  let (result, after) := outcome (call.action c)
  ⟨c, call, result, after⟩

/-- Calls that are made one after the other, whether they succeed or not. -/
def history (c : Connection) : List Call → List Step
  | [] => []
  | call :: calls => c.make call :: (c.make call).after.history calls

/-- The connection behind calls that are made one after the other. -/
def after (c : Connection) : List Call → Connection
  | [] => c
  | call :: calls => (c.make call).after.after calls

/-- The results of receives that are made one after the other, and the connection behind them. -/
def receives : Nat → Connection → List (Except PeerError Message) × Connection
  | 0, c => ([], c)
  | n + 1, c =>
    let (result, c) := outcome (receive c)
    let (results, c) := receives n c
    (result :: results, c)

/-- A message can be sent, and the frame that carries it bears the given id. -/
def SendsUnder (c : Connection) (m : Message) (id : UInt64) : Prop :=
  ∃ key body writer c', send m c = .ok id c' ∧ c.registry.encode m c.context = .ok (key, body) ∧
    c.link.writer.send ⟨key, id, body⟩ = (.ok (), writer)

end Connection

/-- What someone gets who has called for a type and comes to a message. -/
inductive Handed (registry : Registry) (type : MessageType) (m : Message) :
    Except PeerError Reply → Prop
  | over (h : m.type = type) : Handed registry type m (.ok (.message m))
  | refused {key : MessageKey} (h : m.type ≠ type) (hkey : registry.keyOf type = .ok key) :
    Handed registry type m (.error (.unexpected type.name m.type.name key))
  /-- A message is refused as well where the type called for has no key to be named by. -/
  | nameless {e : SchemaError} (h : m.type ≠ type) (hkey : registry.keyOf type = .error e) :
    Handed registry type m (.error (.schema e))

/-- What a call makes of messages. -/
structure Deed where
  /-- Those that were read and are there for receives. -/
  kept : List Message := []
  /-- The one that was read as the answer to a request. -/
  answer : Option Message := none
  /-- The one that was read where there was no room for it. -/
  lost : Option Message := none
  /-- The one that was there for receives and has been handed over or refused. -/
  taken : Option Message := none

/-- The messages that were read, in order. -/
def Deed.read (d : Deed) : List Message := d.kept ++ (d.answer.toList ++ d.lost.toList)

/-- `read` is `kept` where neither an answer was read nor a message lost. -/
theorem Deed.read_of_kept (kept : List Message) (taken : Option Message) :
    Deed.read { kept, taken } = kept := List.append_nil kept

/-- What a call with the given result may have made of messages. -/
inductive Call.Did (c : Connection) : Call → Except PeerError Reply → Deed → Prop
  | sent {m : Message} {result : Except PeerError Reply} : Did c (.send m) result {}
  | keptAlive {result : Except PeerError Reply} : Did c .keepalive result {}
  | received {kept : List Message} {m : Message} :
    Did c .receive (.ok (.message m)) { kept, taken := some m }
  | receivedAs {kept : List Message} {type : MessageType} {m : Message}
    {result : Except PeerError Reply} (h : Handed c.registry type m result) :
    Did c (.receiveAs type) result { kept, taken := some m }
  | answered {kept : List Message} {request m : Message} {type : MessageType}
    {result : Except PeerError Reply} (hid : c.SendsUnder request m.envelope.requestId)
    (h : Handed c.registry type m result) :
    Did c (.request request type) result { kept, answer := some m }
  | overflowed {kept : List Message} {request lost : Message} {type : MessageType} {id : UInt64}
    {n : Nat} (hid : c.SendsUnder request id) (h : lost.envelope.requestId ≠ id)
    (hfull : c.maxPending ≤ n) :
    Did c (.request request type) (.error (.bufferFull n)) { kept, lost := some lost }
  /-- A call that fails for another reason has come to no message of its own. -/
  | failed {kept : List Message} {call : Call} {e : PeerError} (h : ∀ n, e ≠ .bufferFull n) :
    Did c call (.error e) { kept }

/-- A step has made this of messages. -/
structure Step.Has (s : Step) (d : Deed) : Prop where
  read : s.before.link.reader.Finds s.before.meaning d.read s.after.link.reader
  did : s.call.Did s.before s.result d

/-- Nothing is `lost` unless the step answers `bufferFull`. -/
theorem Step.Has.lost_eq_none {s : Step} {d : Deed} (h : s.Has d)
    (hroom : ∀ n, s.result ≠ .error (.bufferFull n)) : d.lost = none := by
  obtain ⟨before, call, result, after⟩ := s
  cases h.did with
  | @overflowed _ _ _ _ _ n => exact absurd rfl (hroom n)
  | _ => rfl

namespace Connection

variable {c c' : Connection} {m : Message} {e : PeerError}

/-- A connection goes on as another one that reads and keeps messages alike. -/
structure Continues (c c' : Connection) : Prop where
  registry : c'.registry = c.registry
  meaning : c'.meaning = c.meaning
  maxPending : c'.maxPending = c.maxPending

/-! ## One action -/

/-- `outcome` of a mapped action: the answer is mapped, and the connection left alone. -/
theorem outcome_map {α β : Type} (f : α → β) (action : Action α) (c : Connection) :
    outcome ((f <$> action) c) = ((outcome (action c)).1.map f, (outcome (action c)).2) := by
  show outcome (EStateM.map f action c) = _
  unfold EStateM.map
  cases action c <;> rfl

/-- `sendFrame` is up to the writer and concerns nothing else. -/
theorem sendFrame_outcome (frame : Frame) (c : Connection) :
    outcome (sendFrame frame c) = ((c.link.writer.send frame).1.mapError .wire,
      { c with link := { c.link with writer := (c.link.writer.send frame).2 } }) := by
  unfold sendFrame Exchange.send
  rcases c.link.writer.send frame with ⟨_ | _, writer⟩ <;> rfl

/-- `send` uses up an id, and comes to `sendFrame` if the message can be encoded. -/
theorem send_outcome (m : Message) (c : Connection) :
    outcome (send m c) =
      match c.registry.encode m c.context with
      | .error e => (.error (.schema e), { c with nextId := (c.takeId m).2.nextId })
      | .ok (key, body) =>
        let sent := c.link.writer.send ⟨key, (c.takeId m).1, body⟩
        ((sent.1.mapError .wire).map fun _ => (c.takeId m).1,
          { c with link := { c.link with writer := sent.2 }, nextId := (c.takeId m).2.nextId }) := by
  have htake := c.takeId_snd m
  generalize (c.takeId m).2.nextId = nextId at htake
  unfold send
  simp only [htake]
  cases c.registry.encode m c.context with
  | error e => rfl
  | ok written =>
    obtain ⟨key, body⟩ := written
    -- `sendFrame` is called with the id taken already, and touches the writer only
    have hframe := sendFrame_outcome ⟨key, (c.takeId m).1, body⟩ { c with nextId }
    simp only
    cases hsend : sendFrame ⟨key, (c.takeId m).1, body⟩ { c with nextId } with
    | ok u c' =>
      rw [hsend, outcome_ok, Prod.mk.injEq] at hframe
      rw [outcome_ok, ← hframe.1, hframe.2]
      rfl
    | error e c' =>
      rw [hsend, outcome_error, Prod.mk.injEq] at hframe
      rw [outcome_error, ← hframe.1, hframe.2]
      rfl

/-- `send` uses up an id if the message brings none, and concerns the writer.  If it succeeds, the
message is on its way under this id, in a frame of its own.  It does not fail with `bufferFull`. -/
theorem send_changes (m : Message) (c : Connection) :
    ∃ writer, (outcome (send m c)).2 =
        { c with link := { c.link with writer }, nextId := (c.takeId m).2.nextId } ∧
      writer.maxPayload = c.link.writer.maxPayload ∧
      (∀ id, (outcome (send m c)).1 = .ok id → id = (c.takeId m).1 ∧
        ∃ key body, c.registry.encode m c.context = .ok (key, body) ∧
          c.link.writer.send ⟨key, id, body⟩ = (.ok (), writer)) ∧
      ∀ n, (outcome (send m c)).1 ≠ .error (.bufferFull n) := by
  rw [send_outcome]
  cases hencode : c.registry.encode m c.context with
  | error e => exact ⟨c.link.writer, rfl, rfl, by simp, by simp⟩
  | ok written =>
    obtain ⟨key, body⟩ := written
    refine ⟨_, rfl, c.link.writer.send_maxPayload ⟨key, (c.takeId m).1, body⟩, fun id hid => ?_,
      fun n hfull => ?_⟩
    · cases hsent : c.link.writer.send ⟨key, (c.takeId m).1, body⟩ with
      | mk result writer =>
        cases result with
        | ok u =>
          simp only [hsent] at hid
          cases hid
          exact ⟨rfl, key, body, rfl, hsent⟩
        | error e => simp [hsent, Except.mapError, Except.map] at hid
    · -- A writer fails with faults of its own.
      cases hsent : (c.link.writer.send ⟨key, (c.takeId m).1, body⟩).1 <;>
        simp [hsent, Except.mapError, Except.map] at hfull

/-- `receive` hands over the oldest message that is there for receives: the first of those pending,
or else the next one to be read. -/
theorem receive_takes (h : receive c = .ok m c') :
    ∃ kept, c.link.reader.Finds c.meaning kept c'.link.reader ∧
      c.pending ++ kept = m :: c'.pending ∧ c'.pending.length ≤ c.pending.length ∧
      c.Continues c' := by
  unfold receive at h
  -- a message that is pending is handed over without reading
  split at h
  · rename_i first pending hpending
    simp only [EStateM.Result.ok.injEq] at h
    obtain ⟨rfl, rfl⟩ := h
    exact ⟨[], .nothing _, by rw [hpending, List.append_nil], by simp [hpending], ⟨rfl, rfl, rfl⟩⟩
  · -- Nothing is kept, so what is received is read.
    rename_i hpending
    obtain ⟨hread, hc'⟩ := readMessage_ok h
    refine ⟨[m], .message hread (.nothing _), ?_, ?_, ?_⟩
    · have hnothing : c'.pending = [] := by
        rw [hc']
        exact hpending
      simp only [hpending, hnothing, List.nil_append]
    · exact Nat.le_of_eq (by rw [hc'])
    · rw [hc']
      exact ⟨rfl, rfl, rfl⟩

/-- `receive` that fails takes nothing. -/
theorem receive_fails (h : receive c = .error e c') :
    c.link.reader.Finds c.meaning [] c'.link.reader ∧ c'.pending = c.pending ∧ c.Continues c' ∧
      ∀ n, e ≠ .bufferFull n := by
  unfold receive at h
  split at h
  · cases h
  · -- a pending message cannot fail, so a read has
    obtain ⟨hread, hc'⟩ := readMessage_error h
    refine ⟨.fault hread (.nothing _), ?_, ?_, fun n he => ?_⟩
    · rw [hc']
    · rw [hc']
      exact ⟨rfl, rfl, rfl⟩
    · exact FrameReader.nextMessage_ne_bufferFull c.meaning_ne_bufferFull (he ▸ hread)

/-- `expect` hands the message over or refuses it, and leaves the connection alone. -/
theorem expect_handed (type : MessageType) (m : Message) (c : Connection) :
    (outcome (expect type m c)).2 = c ∧
      Handed c.registry type m ((outcome (expect type m c)).1.map .message) := by
  unfold expect
  split
  · rename_i htype
    exact ⟨rfl, .over htype⟩
  · rename_i htype
    split
    · rename_i hkey
      exact ⟨rfl, .nameless htype hkey⟩
    · rename_i hkey
      exact ⟨rfl, .refused htype hkey⟩

/-- `request` is `send`, and then `awaitAnswer` under the id that was sent. -/
theorem request_eq (m : Message) (answer : MessageType) (c : Connection) :
    request m answer c =
      match send m c with
      | .ok id c' => awaitAnswer id answer c'
      | .error e c' => .error e c' := by
  show EStateM.bind (send m) _ c = _
  unfold EStateM.bind
  cases send m c <;> rfl

/-- `receiveAs` is `receive`, and a look at the type of what it gives. -/
theorem receiveAs_eq (type : MessageType) (c : Connection) :
    receiveAs type c =
      match receive c with
      | .ok m c' => expect type m c'
      | .error e c' => .error e c' := by
  show EStateM.bind receive _ c = _
  unfold EStateM.bind
  cases receive c <;> rfl

/-- `send` that succeeds answers the id that the message `SendsUnder`. -/
theorem sendsUnder_of_send {id : UInt64} (h : send m c = .ok id c') : c.SendsUnder m id := by
  obtain ⟨key, body, writer, hencode, hwriter, -⟩ := send_ok h
  exact ⟨key, body, writer, c', h, hencode, hwriter⟩

end Connection

/-- What a step has made of messages, with nothing left out: those that were kept, before it or by
it, have been taken or are kept behind it.  No more are kept than there is room for. -/
structure Step.Balances (s : Step) (d : Deed) : Prop where
  has : s.Has d
  balance : s.before.pending ++ d.kept = d.taken.toList ++ s.after.pending
  continues : s.before.Continues s.after
  room : s.after.pending.length ≤ max s.before.pending.length s.before.maxPending

namespace Connection

variable {c c' : Connection} {m : Message} {e : PeerError} {call : Call}
  {result : Except PeerError Reply}

/-- A step that only writes `Balances` with no deed. -/
theorem balances_of_written {writer : FrameWriter} {nextId : UInt64} (hdid : call.Did c result {}) :
    Step.Balances ⟨c, call, result, { c with link := { c.link with writer }, nextId }⟩ {} := by
  refine ⟨⟨.nothing _, hdid⟩, ?_, ⟨rfl, rfl, rfl⟩, Nat.le_max_left _ _⟩
  simp

/-- A step that receives `Balances` with the oldest message `taken`. -/
theorem balances_of_received (h : receive c = .ok m c')
    (hdid : ∀ kept, call.Did c result { kept, taken := some m }) :
    ∃ d, Step.Balances ⟨c, call, result, c'⟩ d := by
  obtain ⟨kept, hfinds, hpending, hroom, hcontinues⟩ := receive_takes h
  refine ⟨{ kept, taken := some m }, ⟨?_, hdid kept⟩, hpending, hcontinues, ?_⟩
  · rwa [Deed.read_of_kept]
  · exact Nat.le_trans hroom (Nat.le_max_left _ _)

/-- A step that cannot receive `Balances` with no deed. -/
theorem balances_of_failed (h : receive c = .error e c') :
    Step.Balances ⟨c, call, .error e, c'⟩ {} := by
  obtain ⟨hfinds, hpending, hcontinues, he⟩ := receive_fails h
  refine ⟨⟨hfinds, .failed he⟩, ?_, hcontinues, ?_⟩
  · simp [hpending]
  · rw [hpending]
    exact Nat.le_max_left _ _

/-- A step that `Keeps` messages while it waits `Balances` with these behind those that were
kept before. -/
theorem balances_of_keeps {id : UInt64} {kept : List Message} {reader : FrameReader}
    {writer : FrameWriter} {nextId : UInt64} {d : Deed} (hdid : call.Did c result d)
    (hkeeps : Keeps id { c with link := { c.link with writer }, nextId } kept)
    (hfinds : c.link.reader.Finds c.meaning d.read reader) (hkept : d.kept = kept)
    (htaken : d.taken = none) :
    Step.Balances ⟨c, call, result,
      keep { c with link := { c.link with writer }, nextId } kept reader⟩ d := by
  refine ⟨⟨hfinds, hdid⟩, ?_, ⟨rfl, rfl, rfl⟩, ?_⟩
  · rw [hkept, htaken]
    rfl
  · -- either nothing was kept, or there was room for all that was
    rcases hkeeps.room with rfl | hroom
    · rw [keep, List.append_nil]
      exact Nat.le_max_left _ _
    · exact Nat.le_trans hroom (Nat.le_max_right _ _)

/-- A step that waits `Balances` with the messages before the one that it stops at. -/
theorem balances_of_awaits {id : UInt64} {request : Message} {type : MessageType}
    {writer : FrameWriter} {nextId : UInt64} {end' : EStateM.Result PeerError Connection Message}
    (hid : c.SendsUnder request id)
    (h : Awaits id type { c with link := { c.link with writer }, nextId } end') :
    ∃ d, Step.Balances ⟨c, .request request type, (outcome end').1.map .message,
      (outcome end').2⟩ d := by
  -- `awaitAnswer` stops at the answer, at a full buffer, or at a failure
  cases h with
  | @answered kept m reader hkeeps hfinds hm =>
    obtain ⟨hexpect, hhanded⟩ := expect_handed type m
      (keep { c with link := { c.link with writer }, nextId } kept reader)
    rw [hexpect]
    exact ⟨{ kept, answer := some m },
      balances_of_keeps (.answered (hm ▸ hid) hhanded) hkeeps hfinds rfl rfl⟩
  | @overflowed kept lost reader hkeeps hfinds hlost hfull =>
    exact ⟨{ kept, lost := some lost },
      balances_of_keeps (.overflowed hid hlost hfull) hkeeps hfinds rfl rfl⟩
  | @failed kept e reader hkeeps hfinds he =>
    refine ⟨{ kept }, balances_of_keeps (.failed he) hkeeps ?_ rfl rfl⟩
    rw [Deed.read_of_kept]
    exact hfinds

/-- `make` of any call `Balances`, however it ends. -/
theorem make_balances (c : Connection) (call : Call) : ∃ d, (c.make call).Balances d := by
  unfold make
  cases call with
  | send m =>
    obtain ⟨writer, hafter, -⟩ := send_changes m c
    simp only [Call.action, outcome_map, hafter]
    exact ⟨{}, balances_of_written .sent⟩
  | keepalive =>
    simp only [Call.action, outcome_map, keepalive, sendFrame_outcome]
    exact ⟨{}, balances_of_written .keptAlive⟩
  | receive =>
    simp only [Call.action, outcome_map]
    cases hreceive : receive c with
    | ok m c' => exact balances_of_received hreceive fun _ => .received
    | error e c' => exact ⟨{}, balances_of_failed hreceive⟩
  | receiveAs type =>
    simp only [Call.action, outcome_map, receiveAs_eq]
    cases hreceive : receive c with
    | ok m c' =>
      -- The message has been taken, whether its type is the one called for or not.
      obtain ⟨hexpect, hhanded⟩ := expect_handed type m c'
      obtain ⟨-, -, -, -, hcontinues⟩ := receive_takes hreceive
      rw [hcontinues.registry] at hhanded
      simp only [hexpect]
      exact balances_of_received hreceive fun _ => .receivedAs hhanded
    | error e c' => exact ⟨{}, balances_of_failed hreceive⟩
  | request m type =>
    simp only [Call.action, outcome_map, request_eq]
    obtain ⟨writer, hafter, -, -, hroom⟩ := send_changes m c
    cases hsend : send m c with
    | ok id c' =>
      -- A request that was sent goes on by waiting for its answer.
      rw [hsend] at hafter
      simp only [outcome_ok] at hafter
      subst hafter
      exact balances_of_awaits (sendsUnder_of_send hsend) (awaits id type _)
    | error e c' =>
      -- A request that could not be sent has read nothing.
      rw [hsend] at hafter hroom
      simp only [outcome_error] at hafter
      subst hafter
      exact ⟨{}, balances_of_written (.failed fun n he => hroom n (congrArg _ he))⟩

/-! ## Calls in a row -/

/-- `history` as a whole balances, by induction over the calls. -/
theorem history_balances (c : Connection) (calls : List Call) :
    ∃ deeds, List.Forall₂ Step.Has (c.history calls) deeds ∧
      c.link.reader.Finds c.meaning (deeds.flatMap Deed.read) (c.after calls).link.reader ∧
      c.pending ++ deeds.flatMap Deed.kept =
        deeds.filterMap Deed.taken ++ (c.after calls).pending ∧
      (c.after calls).pending.length ≤ max c.pending.length c.maxPending := by
  induction calls generalizing c with
  | nil =>
    refine ⟨[], .nil, .nothing _, ?_, Nat.le_max_left _ _⟩
    simp [after]
  | cons call calls ih =>
    obtain ⟨d, hd⟩ := c.make_balances call
    obtain ⟨deeds, hhas, hfinds, hbalance, hroom⟩ := ih (c.make call).after
    have hfirst := hd.has.read
    -- The connection behind the first call gives frames the same meaning and has the same room.
    rw [hd.continues.meaning] at hfinds
    rw [hd.continues.maxPending] at hroom
    refine ⟨d :: deeds, .cons hd.has hhas, ?_, ?_, ?_⟩
    · rw [List.flatMap_cons]
      exact hfirst.append hfinds
    · calc c.pending ++ (d :: deeds).flatMap Deed.kept
          = (c.pending ++ d.kept) ++ deeds.flatMap Deed.kept := by
            rw [List.flatMap_cons, List.append_assoc]
        _ = d.taken.toList ++ ((c.make call).after.pending ++ deeds.flatMap Deed.kept) := by
            rw [← List.append_assoc]
            exact congrArg (· ++ deeds.flatMap Deed.kept) hd.balance
        _ = d.taken.toList ++
            (deeds.filterMap Deed.taken ++ (c.after (call :: calls)).pending) := by
            rw [hbalance]
            rfl
        _ = (d :: deeds).filterMap Deed.taken ++ (c.after (call :: calls)).pending := by
            rw [← List.append_assoc, List.filterMap_cons]
            cases d.taken <;> rfl
    · exact Nat.le_trans hroom (Nat.max_le.2 ⟨hd.room, Nat.le_max_right _ _⟩)

end Connection

open Connection in
/-- Every message that a connection has read since the handshake is accounted for, whatever has been
asked of it and whatever failed.  Each call has its `Deed`.  The messages read are those of the
deeds, in order, and leaving out the `answer`s that `request` has come to, and those that it `lost`
for want of room, makes exactly the messages that `receive` and `receiveAs` have `taken`, in order,
and behind them those that are still `pending`.  A `request` that finds no room says so by
`bufferFull`, and otherwise no message is lost.  No more than `maxPending` messages are kept. -/
theorem calls_account (link : Link) (registry : Registry) (handshake : Handshake)
    (config : ConnectionConfig) (calls : List Call) :
    let c := ofHandshake link registry handshake config
    (∃ deeds, List.Forall₂ Step.Has (c.history calls) deeds ∧
      (∀ arrived, c.link.reader.Finds c.meaning arrived (c.after calls).link.reader ↔
        arrived = deeds.flatMap Deed.read) ∧
      deeds.flatMap Deed.kept = deeds.filterMap Deed.taken ++ (c.after calls).pending ∧
      ((∀ step ∈ c.history calls, ∀ n, step.result ≠ .error (.bufferFull n)) →
        ∀ d ∈ deeds, d.lost = none)) ∧
      (c.after calls).pending.length ≤ config.maxPending := by
  intro c
  obtain ⟨deeds, hhas, hfinds, hbalance, hroom⟩ := c.history_balances calls
  refine ⟨⟨deeds, hhas, fun arrived => ⟨fun h => h.unique hfinds, fun h => h ▸ hfinds⟩,
    hbalance, ?_⟩, ?_⟩
  · -- Along the steps: a step without `bufferFull` loses nothing (`lost_eq_none`).
    clear hfinds hbalance
    generalize c.history calls = steps at hhas
    intro hroom
    induction hhas with
    | nil => simp
    | cons hd _ ih =>
      rw [List.forall_mem_cons] at hroom ⊢
      exact ⟨hd.lost_eq_none hroom.1, ih hroom.2⟩
  · -- Nothing is kept to begin with.
    have hzero : max c.pending.length c.maxPending = config.maxPending :=
      Nat.max_eq_right (Nat.zero_le _)
    rwa [hzero] at hroom

namespace Connection

/-- A connection with room for so many messages, to which two notices have come. -/
def noticed (room : Nat) : Connection :=
  let notice (id : UInt64) : Frame := ⟨⟨0, 4⟩, id, [0, 1, 8, 3, 18, 2, 0x6E, 0x6F]⟩
  .ofHandshake ⟨.ofSource (.ofBytes ((notice 98).octets ++ (notice 99).octets)) 0, ⟨.unlimited, 0⟩⟩
    .standard ⟨"peer", .main, .ofLocal⟩ ⟨64, room⟩

/-- A request that finds the notices and no answer, and receives of which the last one calls for
another type. -/
def askAndReceive : List Call :=
  [.request (.new (.main .listOSesRequest)) (.main .listOSesResponse), .receive,
    .receiveAs (.main .listOSesResponse)]

end Connection

open Connection in
/-- `history` of three calls: both notices are `taken`, although the request and the last
receive fail. -/
theorem calls_account_noticed :
    ((noticed 2).history askAndReceive).map Step.fault? = [some (.disconnected .receive), none,
      some (.unexpected "ListOSesResponse" "Response" ⟨2, 3⟩)] ∧
    ∃ deeds, List.Forall₂ Step.Has ((noticed 2).history askAndReceive) deeds ∧
      (∀ d ∈ deeds, d.lost = none) ∧ deeds.flatMap Deed.kept = deeds.filterMap Deed.taken := by
  have hfaults : ((noticed 2).history askAndReceive).map Step.fault? =
      [some (.disconnected .receive), none,
        some (.unexpected "ListOSesResponse" "Response" ⟨2, 3⟩)] := by
    decide +kernel
  have hroom : ∀ step ∈ (noticed 2).history askAndReceive, ∀ n,
      step.result ≠ .error (.bufferFull n) := by
    intro step hstep n hfull
    have hmem : some (.bufferFull n) ∈ ((noticed 2).history askAndReceive).map Step.fault? :=
      List.mem_map.2 ⟨step, hstep, by rw [Step.fault?, hfull]⟩
    rw [hfaults] at hmem
    simp at hmem
  have hnothing : ((noticed 2).after askAndReceive).pending = [] :=
    List.isEmpty_iff.1 (by decide +kernel)
  obtain ⟨⟨deeds, hhas, -, hbalance, hlost⟩, -⟩ := calls_account (noticed 2).link .standard
    ⟨"peer", .main, .ofLocal⟩ ⟨64, 2⟩ askAndReceive
  refine ⟨hfaults, deeds, hhas, hlost hroom, ?_⟩
  calc deeds.flatMap Deed.kept
      = deeds.filterMap Deed.taken ++ ((noticed 2).after askAndReceive).pending := hbalance
    _ = deeds.filterMap Deed.taken := by rw [hnothing, List.append_nil]

/-! ## No room -/

namespace Connection

/-- `receives` hands over what is `pending`, one by one. -/
theorem receives_pending (c : Connection) :
    receives c.pending.length c = (c.pending.map .ok, { c with pending := [] }) := by
  obtain ⟨peerId, link, registry, context, maxPending, nextId, pending⟩ := c
  -- Each receive takes the oldest message off those that are kept.
  induction pending with
  | nil => rfl
  | cons m pending ih =>
    simp only [List.length_cons, receives, receive, outcome_ok, ih, List.map_cons]

/-- `request` answers `bufferFull` after it has read one message that it does not keep. -/
theorem request_bufferFull {answer : MessageType} {n : Nat}
    (h : request m answer c = .error (.bufferFull n) c') :
    ∃ id kept lost, c.SendsUnder m id ∧ lost.envelope.requestId ≠ id ∧
      c.link.reader.Finds c.meaning (kept ++ [lost]) c'.link.reader ∧
      c'.pending = c.pending ++ kept ∧ c'.pending.length = n ∧ c.maxPending ≤ n := by
  obtain ⟨writer, hsent, -, -, hroom⟩ := send_changes m c
  rw [request_eq] at h
  cases hsend : send m c with
  | error e c₁ =>
    simp only [hsend, EStateM.Result.error.injEq] at h
    exact absurd (by rw [hsend, outcome_error, h.1]) (hroom n)
  | ok id c₁ =>
    simp only [hsend, outcome_ok] at h hsent
    have hawaits := awaits id answer c₁
    rw [h, hsent] at hawaits
    generalize hresult : EStateM.Result.error (PeerError.bufferFull n) c' = result at hawaits
    -- of the three ends of waiting, `bufferFull` is one and the others fail otherwise
    cases hawaits with
    | @answered kept found reader hkeeps hfinds hfound =>
      -- A message that is refused is refused for its type.
      obtain ⟨-, hhanded⟩ := expect_handed answer found
        (keep { c with link := { c.link with writer }, nextId := (c.takeId m).2.nextId } kept
          reader)
      rw [← hresult] at hhanded
      cases hhanded
    | @overflowed kept lost reader hkeeps hfinds hlost hfull =>
      simp only [EStateM.Result.error.injEq, PeerError.bufferFull.injEq] at hresult
      obtain ⟨rfl, rfl⟩ := hresult
      exact ⟨id, kept, lost, sendsUnder_of_send hsend, hlost, hfinds, rfl, rfl, hfull⟩
    | failed hkeeps hfinds he =>
      simp only [EStateM.Result.error.injEq] at hresult
      exact absurd hresult.1.symm (he n)

end Connection

open Connection in
/-- A `request` that answers `bufferFull` has kept what it read, up to one message: the one that it
found no room for has been read and is not `pending`.  Later calls of `receive` hand over all that
is `pending`, in order, and go on behind the message that is lost. -/
theorem bufferFull_loses_one {c c' : Connection} {m : Message} {answer : MessageType} {n : Nat}
    (h : request m answer c = .error (.bufferFull n) c') :
    ∃ id kept lost, c.SendsUnder m id ∧ lost.envelope.requestId ≠ id ∧
      c.link.reader.Finds c.meaning (kept ++ [lost]) c'.link.reader ∧
      c'.pending = c.pending ++ kept ∧ c'.pending.length = n ∧ c.maxPending ≤ n ∧
      receives n c' = (c'.pending.map .ok, { c' with pending := [] }) := by
  obtain ⟨id, kept, lost, hid, hlost, hfinds, hpending, hlength, hfull⟩ := request_bufferFull h
  exact ⟨id, kept, lost, hid, hlost, hfinds, hpending, hlength, hfull,
    hlength ▸ receives_pending c'⟩

namespace Connection

/-- A request that finds the notices. -/
def askNoticed (room : Nat) : EStateM.Result PeerError Connection Message :=
  request (.new (.main .listOSesRequest)) (.main .listOSesResponse) (noticed room)

/-- `request` with room for one message finds two, and answers `bufferFull`; one receive later the
connection is at its end. -/
theorem askNoticed_one : ∃ c', askNoticed 1 = .error (.bufferFull 1) c' ∧
    (receives 2 c').1.map Except.isOk = [true, false] := by
  have hsummary : (match askNoticed 1 with
      | .error (.bufferFull n) c' => some (n, (receives 2 c').1.map Except.isOk)
      | _ => none) = some (1, [true, false]) := by
    decide +kernel
  split at hsummary
  · rename_i n c' hask
    simp only [Option.some.injEq, Prod.mk.injEq] at hsummary
    exact ⟨c', hsummary.1 ▸ hask, hsummary.2⟩
  · cases hsummary

end Connection

open Connection in
/-- `receive` hands over the notice for which there was room, and the other one is gone. -/
theorem bufferFull_loses_one_of_two : ∃ c' kept lost,
    askNoticed 1 = .error (.bufferFull 1) c' ∧
      (noticed 1).link.reader.Finds (noticed 1).meaning [kept, lost] c'.link.reader ∧
      receives 1 c' = ([.ok kept], { c' with pending := [] }) := by
  obtain ⟨c', hask, -⟩ := askNoticed_one
  obtain ⟨id, kept, lost, -, -, hfinds, hpending, hlength, -, hreceives⟩ :=
    bufferFull_loses_one hask
  obtain ⟨first, hfirst⟩ := List.length_eq_one_iff.1 hlength
  obtain rfl : kept = [first] := hpending.symm.trans hfirst
  refine ⟨c', first, lost, hask, hfinds, ?_⟩
  rw [hreceives, hfirst]
  rfl

open Connection in
/-- What has been read when a `request` answers `bufferFull` cannot all be received later. -/
theorem bufferFull_not_lossless : ¬ ∀ (c c' : Connection) (m : Message) (answer : MessageType)
    (n : Nat) (arrived : List Message), request m answer c = .error (.bufferFull n) c' →
      c.link.reader.Finds c.meaning arrived c'.link.reader →
      (receives (c.pending ++ arrived).length c').1 = (c.pending ++ arrived).map .ok := by
  intro hall
  obtain ⟨c', hask, hends⟩ := askNoticed_one
  obtain ⟨id, kept, lost, -, -, hfinds, hpending, hlength, -⟩ := request_bufferFull hask
  obtain ⟨first, hfirst⟩ := List.length_eq_one_iff.1 hlength
  obtain rfl : kept = [first] := hpending.symm.trans hfirst
  have htwo : (receives 2 c').1 = [.ok first, .ok lost] := hall _ _ _ _ _ _ hask hfinds
  rw [htwo] at hends
  cases hends

end Storefront
