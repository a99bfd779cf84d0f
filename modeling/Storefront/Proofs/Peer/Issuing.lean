import Storefront.Proofs.Frame.Sending
import Storefront.Proofs.Peer.Accounts

/-! # The ids that a connection issues

Whatever becomes of the messages that a connection is to send, the ones that bring no id are given
its ids in turn, one each, and what is written of a message bears the id that it was given or has
brought.

* `Connection.course`          what happens on a connection, step by step
* `Connection.send_writes`     what is written of one message
* `Connection.make_issues`     what one call makes of the ids
* `Connection.make_carries`    and of the message that it sends
* `Connection.course_issues`   the ids that are issued on the way are those in turn
* `Connection.ids_issued`      no id but one's own comes back within a round
-/

namespace Storefront

/-- What happens on a connection. -/
inductive Turn where
  | call (call : Call)
  /-- From here on, messages are written and read under these records. -/
  | adopt (context : Context)

/-- The message that a call sends, if it sends one. -/
def Call.message? : Call → Option Message
  | .send m | .request m _ => some m
  | .receive | .receiveAs _ | .keepalive => none

namespace Step

/-- The id that a step has issued, if its message brings none. -/
def issued? (s : Step) : Option UInt64 :=
  s.call.message?.bind fun m =>
    if m.envelope.requestId = 0 then some (s.before.takeId m).1 else none

/-- A step has sent a message under an id, as far as it came.  What it has written is the beginning
of a frame with this id, or all of it when it has succeeded.  A reader makes this frame of it. -/
structure Carries (s : Step) (m : Message) (id : UInt64) : Prop where
  nonzero : id ≠ 0
  own : m.envelope.requestId ≠ 0 → id = m.envelope.requestId
  answered : ∀ answer, s.result = .ok (.id answer) → answer = id
  written : ∃ frame part, frame.requestId = id ∧
    s.after.link.writer.sink.written = s.before.link.writer.sink.written ++ part ∧
    part <+: frame.octets ∧
    (part ≠ [] → s.before.registry.encode m s.before.context = .ok (frame.key, frame.payload)) ∧
    ((∃ reply, s.result = .ok reply) → part = frame.octets ∧ ∀ rest,
      Frame.decode frame.payload.length (part ++ rest) = .ok (some (frame, rest)))

end Step

namespace Connection

/-- What happens on a connection, call by call, whether the calls succeed or not. -/
def course (c : Connection) : List Turn → List Step
  | [] => []
  | .call call :: turns => c.make call :: (c.make call).after.course turns
  | .adopt context :: turns => { c with context }.course turns

variable {c c' : Connection} {m : Message} {k : Nat}

/-! ## Writing -/

/-- What `send` writes is the beginning of a frame with the id of `takeId`.  If it succeeds, it is
the whole frame, and `decode` finds it. -/
theorem send_writes (m : Message) (c : Connection) :
    ∃ frame part, frame.requestId = (c.takeId m).1 ∧
      (outcome (send m c)).2.link.writer.sink.written = c.link.writer.sink.written ++ part ∧
      part <+: frame.octets ∧
      (part ≠ [] → c.registry.encode m c.context = .ok (frame.key, frame.payload)) ∧
      ∀ id, (outcome (send m c)).1 = .ok id → id = (c.takeId m).1 ∧ part = frame.octets ∧
        ∀ rest, Frame.decode frame.payload.length (part ++ rest) = .ok (some (frame, rest)) := by
  rw [send_outcome]
  cases hencode : c.registry.encode m c.context with
  | error e =>
    -- Nothing is written, which is the beginning of any frame.
    refine ⟨⟨.null, (c.takeId m).1, []⟩, [], rfl, ?_, List.nil_prefix, by simp, by simp⟩
    exact (List.append_nil _).symm
  | ok written =>
    obtain ⟨key, body⟩ := written
    -- The receipt says which part of the frame is on the sink.
    obtain ⟨receipt, hframe, hresult, hmade⟩ :=
      c.link.writer.made_send ⟨key, (c.takeId m).1, body⟩
    refine ⟨⟨key, (c.takeId m).1, body⟩, receipt.put, rfl, hmade.written, ?_, fun _ => rfl, ?_⟩
    · rw [← hframe, ← hmade.split]
      exact List.prefix_append _ _
    · intro id hid
      simp only [← hresult] at hid
      cases hsent : receipt.result with
      | error e =>
        rw [hsent] at hid
        cases hid
      | ok u =>
        rw [hsent] at hid
        cases hid
        -- A send that succeeds leaves nothing out, and the size fits the header.
        have hmissing := hmade.missing_eq_nil_iff.2 (.inl hsent)
        have hput := hmade.put_eq hmissing
        have hheader := hmade.length_le (hmade.written_of_missing_eq_nil hmissing)
        rw [hframe] at hput hheader
        refine ⟨rfl, hput, fun rest => ?_⟩
        rw [hput]
        exact Frame.decode_octets ⟨Nat.le_refl _, hheader⟩ rest

/-! ## Reading -/

/-- A connection has at most read on and changed what it keeps. -/
def HasRead (c c' : Connection) : Prop :=
  ∃ reader pending, c' = { c with link := { c.link with reader }, pending }

theorem HasRead.nextId (h : c.HasRead c') : c'.nextId = c.nextId := by
  obtain ⟨reader, pending, rfl⟩ := h
  rfl

theorem HasRead.writer (h : c.HasRead c') : c'.link.writer = c.link.writer := by
  obtain ⟨reader, pending, rfl⟩ := h
  rfl

theorem hasRead_refl (c : Connection) : c.HasRead c := ⟨_, _, rfl⟩

/-- `receive` takes a message out of `pending`, or reads. -/
theorem hasRead_receive (c : Connection) : c.HasRead (outcome (receive c)).2 := by
  unfold receive
  cases hpending : c.pending with
  | cons m pending => exact ⟨_, pending, rfl⟩
  | nil =>
    simp only
    cases hread : readMessage c with
    | ok m c' => exact ⟨_, _, (readMessage_ok hread).2⟩
    | error e c' => exact ⟨_, _, (readMessage_error hread).2⟩

/-- `receiveAs` receives, and then looks at the type. -/
theorem hasRead_receiveAs (type : MessageType) (c : Connection) :
    c.HasRead (outcome (receiveAs type c)).2 := by
  have hread := hasRead_receive c
  rw [receiveAs_eq]
  cases hreceive : receive c with
  | ok m c' =>
    rw [hreceive] at hread
    -- The type is compared behind the reading.
    simp only [(expect_handed type m c').1]
    exact hread
  | error e c' =>
    rw [hreceive] at hread
    exact hread

/-- `awaitAnswer` reads, and keeps messages in `pending`. -/
theorem hasRead_awaitAnswer (id : UInt64) (type : MessageType) (c : Connection) :
    c.HasRead (outcome (awaitAnswer id type c)).2 := by
  have hawaits := awaits id type c
  generalize awaitAnswer id type c = end' at hawaits
  -- However the waiting ends, the connection has read and kept.
  cases hawaits with
  | answered =>
    rw [(expect_handed type _ _).1]
    exact ⟨_, _, rfl⟩
  | overflowed => exact ⟨_, _, rfl⟩
  | failed => exact ⟨_, _, rfl⟩

/-! ## One call -/

/-- `map` that is `ok` comes from an `ok`. -/
theorem exists_of_map {α β : Type} {f : α → β} {r : Except PeerError α} {b : β}
    (h : r.map f = .ok b) : ∃ a, r = .ok a ∧ f a = b := by
  cases r with
  | error e => cases h
  | ok a =>
    cases h
    exact ⟨a, rfl, rfl⟩

theorem make_result (c : Connection) (call : Call) :
    (c.make call).result = (outcome (call.action c)).1 := rfl

theorem make_after (c : Connection) (call : Call) :
    (c.make call).after = (outcome (call.action c)).2 := rfl

/-- `request` has done `send`, and then it has at most read on. -/
theorem request_outcome (m : Message) (answer : MessageType) (c : Connection) :
    (outcome (send m c)).2.HasRead (outcome (request m answer c)).2 ∧
      ∀ found, (outcome (request m answer c)).1 = .ok found →
        ∃ id, (outcome (send m c)).1 = .ok id := by
  rw [request_eq]
  cases send m c with
  | ok id c' => exact ⟨hasRead_awaitAnswer id answer c', fun _ _ => ⟨id, rfl⟩⟩
  | error e c' => exact ⟨hasRead_refl c', fun found hfound => by cases hfound⟩

/-- A call without a `message?` leaves `nextId` alone. -/
theorem nextId_of_message?_eq_none {call : Call} (h : call.message? = none) :
    (c.make call).after.nextId = c.nextId := by
  cases call with
  | send m => cases h
  | request m answer => cases h
  | receive =>
    rw [make_after, Call.action, outcome_map]
    exact (hasRead_receive c).nextId
  | receiveAs type =>
    rw [make_after, Call.action, outcome_map]
    exact (hasRead_receiveAs type c).nextId
  | keepalive =>
    -- A keepalive writes, and leaves the next id.
    rw [make_after, Call.action, outcome_map, keepalive, sendFrame_outcome]

/-- A call with a `message?` has done `send`, and then it has at most read on.  If it has succeeded,
so has `send`, and the id that it answers is that of `send`. -/
theorem make_sends {call : Call} (h : call.message? = some m) :
    (outcome (send m c)).2.HasRead (c.make call).after ∧
      (∀ reply, (c.make call).result = .ok reply → ∃ id, (outcome (send m c)).1 = .ok id) ∧
      ∀ id, (c.make call).result = .ok (.id id) → (outcome (send m c)).1 = .ok id := by
  cases call with
  | receive => cases h
  | receiveAs => cases h
  | keepalive => cases h
  | send m' =>
    cases h
    rw [make_after, make_result, Call.action, outcome_map]
    refine ⟨hasRead_refl _, fun reply hreply => ?_, fun id hid => ?_⟩
    · obtain ⟨id, hsent, -⟩ := exists_of_map hreply
      exact ⟨id, hsent⟩
    · -- What a send answers is the id itself.
      obtain ⟨id, hsent, hid⟩ := exists_of_map hid
      cases hid
      exact hsent
  | request m' answer =>
    cases h
    obtain ⟨hread, hok⟩ := request_outcome m answer c
    rw [make_after, make_result, Call.action, outcome_map]
    refine ⟨hread, fun reply hreply => ?_, fun id hid => ?_⟩
    · obtain ⟨found, hfound, -⟩ := exists_of_map hreply
      exact hok found hfound
    · -- A request answers a message and not an id.
      obtain ⟨found, -, hid⟩ := exists_of_map hid
      cases hid

/-- A call is one with `issued?` if it sends a message that brings no id, and with no other one. -/
theorem make_issues (h : c.nextId = idAt k) (call : Call) :
    (c.make call).issued? = none ∧ (c.make call).after.nextId = idAt k ∨
      (c.make call).issued? = some (idAt k) ∧ (c.make call).after.nextId = idAt (k + 1) := by
  cases hmessage : call.message? with
  | none =>
    refine .inl ⟨?_, (nextId_of_message?_eq_none hmessage).trans h⟩
    show (call.message?.bind _) = none
    rw [hmessage]
    rfl
  | some m =>
    obtain ⟨writer, hsent, -⟩ := send_changes m c
    have hnext := (make_sends (c := c) hmessage).1.nextId
    rw [hsent] at hnext
    have hissued : (c.make call).issued? =
        if m.envelope.requestId = 0 then some (c.takeId m).1 else none := by
      show (call.message?.bind _) = _
      rw [hmessage]
      rfl
    -- A message that brings an id of its own leaves the next one for another.
    by_cases hown : m.envelope.requestId = 0
    · rw [hissued, if_pos hown, hnext, takeId_of_zero hown, h]
      exact .inr ⟨rfl, rfl⟩
    · rw [hissued, if_neg hown, hnext, takeId_of_ne_zero hown]
      exact .inl ⟨rfl, h⟩

/-- Whatever a call writes of its message `Carries` the id of `takeId`. -/
theorem make_carries {call : Call} (hnext : c.nextId ≠ 0) (h : call.message? = some m) :
    (c.make call).Carries m (c.takeId m).1 := by
  obtain ⟨hread, hok, hanswer⟩ := make_sends (c := c) h
  obtain ⟨frame, part, hid, hwritten, hprefix, hencode, hwhole⟩ := send_writes m c
  refine ⟨takeId_ne_zero hnext, fun hown => ?_, fun answer hanswered => ?_,
    frame, part, hid, ?_, hprefix, hencode, fun ⟨reply, hreply⟩ => ?_⟩
  · rw [takeId_of_ne_zero hown]
  · exact (hwhole answer (hanswer answer hanswered)).1
  · -- What is read behind the sending writes nothing.
    rw [hread.writer]
    exact hwritten
  · obtain ⟨id, hsent⟩ := hok reply hreply
    exact (hwhole id hsent).2

/-! ## Calls in a row -/

/-- The ids that are `issued?` along a `course` are those in turn. -/
theorem course_issues (h : c.nextId = idAt k) (turns : List Turn) :
    ∃ n, (c.course turns).filterMap Step.issued? = (List.range' k n).map idAt := by
  -- Each call leaves the connection at some place of the row, which is where the next one goes on.
  induction turns generalizing c k with
  | nil => exact ⟨0, rfl⟩
  | cons turn turns ih =>
    cases turn with
    | adopt context => exact ih h
    | call call =>
      rcases make_issues h call with ⟨hissued, hnext⟩ | ⟨hissued, hnext⟩
      · obtain ⟨n, hn⟩ := ih hnext
        -- This call has issued no id.
        exact ⟨n, by rw [course, List.filterMap_cons_none hissued, hn]⟩
      · obtain ⟨n, hn⟩ := ih hnext
        -- This call has issued the one at the place `k`.
        refine ⟨n + 1, ?_⟩
        rw [course, List.filterMap_cons_some hissued, hn, List.range'_succ, List.map_cons]

/-- Each message along a `course` is sent under an id that is not zero. -/
theorem course_carries (h : c.nextId = idAt k) (turns : List Turn) :
    ∀ s ∈ c.course turns, ∀ m, s.call.message? = some m →
      s.Carries m (s.before.takeId m).1 := by
  induction turns generalizing c k with
  | nil => exact fun s hs => nomatch hs
  | cons turn turns ih =>
    cases turn with
    | adopt context => exact ih (c := { c with context }) h
    | call call =>
      intro s hs m hm
      rcases List.mem_cons.1 hs with rfl | hs
      · exact make_carries (h ▸ idAt_ne_zero k) hm
      · rcases make_issues h call with ⟨-, hnext⟩ | ⟨-, hnext⟩ <;> exact ih hnext s hs m hm

/-- On a new connection, no id that `issued?` gives comes back within `2 ^ 64 - 1` of them,
`initRequestId` is the last of these, and zero is never issued.  Whatever a call writes of its
message `Carries` the id that `takeId` has given it: the fresh one, or the one that it brings; and a
`send` answers this id. -/
theorem ids_issued (link : Link) (registry : Registry) (handshake : Handshake)
    (config : ConnectionConfig) (turns : List Turn) :
    let steps := (ofHandshake link registry handshake config).course turns
    let issued := steps.filterMap Step.issued?
    0 ∉ issued ∧
      (∀ before window after, issued = before ++ window ++ after →
        window.length ≤ 2 ^ 64 - 1 → window.Nodup) ∧
      Handshake.initRequestId ∉ issued.take (2 ^ 64 - 2) ∧
      ∀ s ∈ steps, ∀ m, s.call.message? = some m → s.Carries m (s.before.takeId m).1 := by
  have hstart : (ofHandshake link registry handshake config).nextId = idAt 0 := rfl
  intro steps issued
  obtain ⟨n, hissued⟩ : ∃ n, issued = (List.range' 0 n).map idAt := course_issues hstart turns
  refine ⟨?_, fun before window after hwindow hlength => ?_, ?_, course_carries hstart turns⟩
  · rw [hissued]
    intro hzero
    obtain ⟨i, -, hi⟩ := List.mem_map.1 hzero
    exact idAt_ne_zero i hi
  · -- A window is a row of ids by itself, and no longer than a round.
    rw [hissued] at hwindow
    rw [eq_idAt_of_append hwindow]
    exact nodup_range'_idAt _ (by simp only [UInt64.size]; omega)
  · rw [hissued, ← List.range_eq_range', ← List.map_take, List.take_range]
    -- The id of the opening message stands at the end of a round.
    intro hinit
    obtain ⟨i, hi, hinit⟩ := List.mem_map.1 hinit
    have hlt := List.mem_range.1 hi
    exact idAt_ne_initRequestId (by simp only [UInt64.size]; omega) hinit

/-- A connection on which only the smallest messages can be sent, and no answer comes. -/
def tight : Connection :=
  .ofHandshake ⟨.ofSource (.ofBytes []) 0, ⟨.unlimited, 0⟩⟩ .standard ⟨"peer", .main, .ofLocal⟩
    ⟨4, 2⟩

/-- A request under the given id. -/
def listing (requestId : UInt64) : Message :=
  { Message.new (.main .listOSesRequest) with envelope := { requestId } }

/-- A message that brings an id between others that bring none, one of which is too large. -/
def listAndNotify : List Turn :=
  [.call (.send (listing 0)), .call (.send (listing 9)),
    .call (.send ⟨.core .response, {}, [.number 3, .text "no"]⟩), .adopt .ofLocal,
    .call (.request (listing 0) (.main .listOSesResponse))]

/-- `course` of three calls: the message that is too large has an id to itself, and the one that
brings an id keeps it. -/
theorem ids_issued_tight :
    (tight.course listAndNotify).map Step.issued? = [some 2, none, some 3, some 4] ∧
      (tight.course listAndNotify).map Step.fault? =
        [none, none, some (.wire (.payloadTooLarge 8 4)), some (.disconnected .receive)] ∧
      [(2 : UInt64), 3, 4].Nodup ∧
      ∃ s ∈ tight.course listAndNotify, s.call.message? = some (listing 9) ∧
        s.Carries (listing 9) 9 := by
  have hrow : (tight.course listAndNotify).filterMap Step.issued? = [2, 3, 4] := by
    decide +kernel
  obtain ⟨-, hwindow, -, hcarries⟩ := ids_issued tight.link .standard ⟨"peer", .main, .ofLocal⟩
    ⟨4, 2⟩ listAndNotify
  refine ⟨by decide +kernel, by decide +kernel, hwindow [] [2, 3, 4] [] hrow (by decide),
    (tight.make (.send (listing 0))).after.make (.send (listing 9)), ?_, rfl, ?_⟩
  · exact List.mem_cons_of_mem _ (List.mem_cons_self ..)
  · exact hcarries _ (List.mem_cons_of_mem _ (List.mem_cons_self ..)) (listing 9) rfl

end Connection

end Storefront
