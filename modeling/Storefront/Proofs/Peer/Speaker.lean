import Storefront.Proofs.Peer.Accounts
import Storefront.Proofs.Peer.Numbering
import Storefront.Proofs.Store.Registry

/-! # One side of a dialogue

A side sends messages, makes requests and answers those that it has received.  A request is sent and
then waits for a message with its own id, one message after the other, while the other side goes on.

* `Speaker.act?`            what a side can do
* `Speaker.exists_looks`    waiting for an answer is looking at one message after the other
* `Speaker.exists_request`  a request as one call, made of such acts
* `Speaker.Orderly`         the invariant of a side
* `Speaker.act?_proceeds`   no act breaks it
-/

namespace Storefront

namespace Connection

/-- What looking at one message means to someone who waits for an answer. -/
inductive Glance where
  | failed (e : PeerError)
  | answered (m : Message)
  /-- Another message, for which there is no room. -/
  | overflowed
  /-- Another message, which is kept. -/
  | another

/-- Looks at the next message while waiting for the one with a given id. -/
def look (id : UInt64) (c : Connection) : Glance × Connection :=
  match readMessage c with
  | .error e c' => (.failed e, c')
  | .ok m c' =>
    if m.envelope.requestId = id then (.answered m, c')
    else if c'.maxPending ≤ c'.pending.length then (.overflowed, c')
    else (.another, { c' with pending := c'.pending ++ [m] })

section

variable {id : UInt64} {c c' : Connection} {m : Message} {e : PeerError}

/-- `look` fails where reading does. -/
theorem look_of_error (h : readMessage c = .error e c') : look id c = (.failed e, c') := by
  rw [look, h]

/-- `look` is answered by a message with the id. -/
theorem look_of_id (h : readMessage c = .ok m c') (hid : m.envelope.requestId = id) :
    look id c = (.answered m, c') := by
  rw [look, h]
  exact if_pos hid

/-- `look` overflows with another message when `pending` is full. -/
theorem look_of_full (h : readMessage c = .ok m c') (hid : m.envelope.requestId ≠ id)
    (hfull : c'.maxPending ≤ c'.pending.length) : look id c = (.overflowed, c') := by
  rw [look, h]
  exact (if_neg hid).trans (if_pos hfull)

/-- `look` keeps another message as the last of `pending`. -/
theorem look_of_room (h : readMessage c = .ok m c') (hid : m.envelope.requestId ≠ id)
    (hroom : ¬ c'.maxPending ≤ c'.pending.length) :
    look id c = (.another, { c' with pending := c'.pending ++ [m] }) := by
  rw [look, h]
  exact (if_neg hid).trans (if_neg hroom)

end

end Connection

/-- A message that was sent: under which id, and the message that it answers, if it does. -/
structure Utterance where
  id : UInt64
  message : Message
  question : Option Message

/-- One side of a dialogue, with its history. -/
structure Speaker where
  connection : Connection
  /-- How many ids it has given. -/
  given : Nat
  said : List Utterance
  /-- The messages it has received. -/
  heard : List Message
  /-- The request that it waits for the answer of. -/
  waiting : Option Utterance
  /-- The requests that have come to a message, with this message. -/
  answered : List (Utterance × Message)
  /-- How many of the octets it has written have been carried over. -/
  carried : Nat

/-- What a side can do of its own accord. -/
inductive Act where
  | send (m : Message)
  /-- Sends a request and begins to wait. -/
  | ask (m : Message)
  /-- Looks at one message while waiting. -/
  | look
  /-- Answers the message that was received as number `i`. -/
  | answer (i : Nat) (fields : List Value)
  | receive
  | keepalive

namespace Speaker

/-- The octets that have been written so far. -/
def written (p : Speaker) : Bytes := p.connection.link.writer.sink.written

/-- The octets that have been written and not been carried over. -/
def outgoing (p : Speaker) : Bytes := p.written.drop p.carried

/-- The messages that it has read and not lost. -/
def messages (p : Speaker) : List Message :=
  p.connection.pending ++ p.heard ++ p.answered.map Prod.snd

/-- Sends a message.  When it cannot be sent, an id may be used up; with part of a frame on its way
there would be no going on. -/
def say? (p : Speaker) (m : Message) (question : Option Message) (waits : Bool) : Option Speaker :=
  let given := if m.envelope.requestId = 0 then p.given + 1 else p.given
  match p.connection.send m with
  | .ok id connection =>
    let u : Utterance := ⟨id, m, question⟩
    some { p with connection, given, said := p.said ++ [u],
                  waiting := if waits then some u else none }
  | .error _ connection =>
    if connection.link.writer.sink.written = p.written then some { p with connection, given }
    else none

/-- Looks at one message while a request waits. -/
def look (p : Speaker) (request : Utterance) : Speaker :=
  match p.connection.look request.id with
  | (.answered m, connection) =>
    { p with connection, waiting := none, answered := p.answered ++ [(request, m)] }
  | (.another, connection) => { p with connection }
  | (_, connection) => { p with connection, waiting := none }

/-- Receives a message, if it can. -/
def receive (p : Speaker) : Speaker :=
  match p.connection.receive with
  | .ok m connection => { p with connection, heard := p.heard ++ [m] }
  | .error _ connection => { p with connection }

/-- Says that it is there. -/
def keepalive? (p : Speaker) : Option Speaker :=
  match p.connection.keepalive with
  | .ok () connection => some { p with connection }
  | .error _ connection =>
    if connection.link.writer.sink.written = p.written then some { p with connection } else none

/-- What a side becomes by what it does.  While it waits it can do nothing else.  It leaves the ids
of the messages that it originates to the connection, and an answer has the envelope of what it
answers. -/
def act? (p : Speaker) (act : Act) : Option Speaker :=
  match p.waiting, act with
  | some request, .look => some (p.look request)
  | none, .send m => if m.envelope.requestId = 0 then p.say? m none false else none
  | none, .ask m => if m.envelope.requestId = 0 then p.say? m none true else none
  | none, .answer i fields => do
    let question ← p.heard[i]?
    let response ← question.respond?
    p.say? { response with fields } (some question) false
  | none, .receive => some p.receive
  | none, .keepalive => p.keepalive?
  | _, _ => none

/-- What a side becomes by acts in a row. -/
def acts? (p : Speaker) (acts : List Act) : Option Speaker := acts.foldlM act? p

/-- `acts?` makes one `look`, and the acts behind it. -/
theorem acts?_look {p : Speaker} {request : Utterance} (hwaiting : p.waiting = some request)
    (acts : List Act) : p.acts? (.look :: acts) = (p.look request).acts? acts := by
  have hact : p.act? .look = some (p.look request) := by
    unfold act?
    rw [hwaiting]
  rw [acts?, List.foldlM_cons, hact]
  rfl

/-- `awaitAnswer` is as many acts `look` as it takes to come to an end. -/
theorem exists_looks (type : MessageType) {p : Speaker} {request : Utterance}
    (hwaiting : p.waiting = some request) :
    ∃ n p', p.acts? (List.replicate n .look) = some p' ∧ p'.waiting = none ∧
      p'.connection = (Connection.outcome (p.connection.awaitAnswer request.id type)).2 ∧
      ∀ m, (Connection.outcome (p.connection.awaitAnswer request.id type)).1 = .ok m →
        p'.answered = p.answered ++ [(request, m)] := by
  generalize hc : p.connection = c
  -- By induction on the messages that are read, of which each but the last is kept.
  fun_induction Connection.awaitAnswer request.id type c generalizing p with
  | case1 c e c' hread =>
    refine ⟨1, p.look request, acts?_look hwaiting [], ?_⟩
    rw [look, hc, Connection.look_of_error hread]
    exact ⟨rfl, rfl, by simp⟩
  | case2 c m c' hread hid =>
    refine ⟨1, p.look request, acts?_look hwaiting [], ?_⟩
    rw [look, hc, Connection.look_of_id hread hid]
    -- The type that is called for matters to what is answered, not to the message.
    have hexpect := Connection.expect_handed type m c'
    refine ⟨rfl, hexpect.1.symm, fun answer hanswer => ?_⟩
    rw [hanswer] at hexpect
    cases hexpect.2
    rfl
  | case3 c m c' hread hid hfull =>
    refine ⟨1, p.look request, acts?_look hwaiting [], ?_⟩
    rw [look, hc, Connection.look_of_full hread hid hfull]
    exact ⟨rfl, rfl, by simp⟩
  | case4 c m c' hread hid hroom ih =>
    have hlook : p.look request =
        { p with connection := { c' with pending := c'.pending ++ [m] } } := by
      rw [look, hc, Connection.look_of_room hread hid hroom]
    -- The message is kept, and waiting goes on from there.
    obtain ⟨n, p', hacts, hrest⟩ :=
      ih (p := p.look request) (by rw [hlook, hwaiting]) (by rw [hlook])
    refine ⟨n + 1, p', ?_, ?_⟩
    · rw [List.replicate_succ, acts?_look hwaiting, hacts]
    · rwa [hlook] at hrest

/-- `request` is the act `ask`, and then as many acts `look` as it takes. -/
theorem exists_request (type : MessageType) {p : Speaker} {m : Message} {id : UInt64}
    {connection : Connection} (hwaiting : p.waiting = none) (hid : m.envelope.requestId = 0)
    (hsend : p.connection.send m = .ok id connection) :
    ∃ n p', p.acts? (.ask m :: List.replicate n .look) = some p' ∧ p'.waiting = none ∧
      p'.connection = (Connection.outcome (p.connection.request m type)).2 ∧
      ∀ answer, (Connection.outcome (p.connection.request m type)).1 = .ok answer →
        p'.answered = p.answered ++ [(⟨id, m, none⟩, answer)] := by
  -- Asking sends the message under a fresh id and begins to wait for it.
  have hask : p.act? (.ask m) = some { p with
      connection
      given := p.given + 1
      said := p.said ++ [⟨id, m, none⟩]
      waiting := some ⟨id, m, none⟩ } := by
    unfold act?
    rw [hwaiting]
    simp only [hid, if_true, say?, hsend]
  -- The one call sends, too, and then waits.
  have hrequest : p.connection.request m type = connection.awaitAnswer id type := by
    rw [Connection.request_eq, hsend]
  rw [hrequest]
  obtain ⟨n, p', hacts, hrest⟩ := exists_looks type (p := { p with
      connection
      given := p.given + 1
      said := p.said ++ [⟨id, m, none⟩]
      waiting := some ⟨id, m, none⟩ }) rfl
  refine ⟨n, p', ?_, hrest⟩
  rw [acts?, List.foldlM_cons, hask]
  exact hacts

end Speaker

/-! ## What becomes of a message on its way -/

namespace Utterance

/-- An utterance is on its way in this frame. -/
structure InFrame (r : Registry) (u : Utterance) (frame : Frame) : Prop where
  type : r.resolve frame.key = .ok u.message.type
  requestId : frame.requestId = u.id

/-- An utterance has been read as this message. -/
structure ReadAs (u : Utterance) (m : Message) : Prop where
  type : m.type = u.message.type
  requestId : m.envelope.requestId = u.id

/-- `meaning` of the frame of an utterance is `ReadAs`: it has its type and its id. -/
theorem InFrame.readAs {c : Connection} {u : Utterance} {frame : Frame} {m : Message}
    (h : u.InFrame c.registry frame) (hm : c.meaning frame = .ok m) : u.ReadAs m := by
  unfold Connection.meaning at hm
  split at hm
  · cases hm
  · rename_i found hdecode
    -- The type is that of the key, and the id that of the frame.
    obtain ⟨hresolve, henvelope⟩ := Registry.decodeFrame_ok hdecode
    rw [h.type, Except.ok.injEq] at hresolve
    rw [← Except.ok.inj hm]
    exact ⟨hresolve.symm, (congrArg Envelope.requestId henvelope).trans h.requestId⟩

end Utterance

namespace Speaker

/-- A side has written some frames, and what is in them it has said. -/
structure Speaks (r : Registry) (p p' : Speaker) : Prop where
  carried : p'.carried = p.carried
  limit : p'.connection.link.writer.maxPayload = p.connection.link.writer.maxPayload
  said : p.said ⊆ p'.said
  frames : ∃ frames, p'.written = p.written ++ frames.flatMap Frame.octets ∧
    (∀ frame ∈ frames, frame.Fits p.connection.link.writer.maxPayload) ∧
    ∀ frame ∈ Frame.messages frames, ∃ u ∈ p'.said, u.InFrame r frame

/-- A side has read a message at most, and what it now has is this message or what it had before. -/
inductive Listens (p p' : Speaker) : Prop
  | nothing (hreader : p'.connection.link.reader = p.connection.link.reader)
    (hmessages : p'.messages ⊆ p.messages)
  | message (hreader : p'.connection.link.reader =
      (p.connection.link.reader.nextMessage p.connection.meaning).2)
    (hmessages : ∀ m ∈ p'.messages, m ∈ p.messages ∨
      (p.connection.link.reader.nextMessage p.connection.meaning).1 = .ok m)

end Speaker

/-! ## One side -/

/-- The messages of a side's own bear ids that it has given, each its own. -/
structure Numbered (c : Connection) (given : Nat) (said : List Utterance) : Prop where
  next : c.nextId = Connection.idAt given
  own : ((said.filter (·.question.isNone)).map (·.id)).Sublist
    ((List.range given).map Connection.idAt)

namespace Numbered

variable {c c' : Connection} {given : Nat} {said : List Utterance}

/-- An id that is used up without a message leaves a side `Numbered`. -/
theorem skip (h : Numbered c given said) (hnext : c'.nextId = Connection.idAfter c.nextId) :
    Numbered c' (given + 1) said := by
  constructor
  case next =>
    rw [hnext, h.next]
    rfl
  case own =>
    rw [List.range_succ, List.map_append]
    exact h.own.trans (List.sublist_append_left _ _)

/-- A message that takes the next id leaves a side `Numbered`. -/
theorem give (h : Numbered c given said) (hnext : c'.nextId = Connection.idAfter c.nextId)
    (m : Message) : Numbered c' (given + 1) (said ++ [⟨c.nextId, m, none⟩]) := by
  refine ⟨(h.skip hnext).next, ?_⟩
  rw [List.range_succ, List.map_append, List.filter_append, List.map_append]
  -- The message takes the id that has just been given.
  refine h.own.append ?_
  rw [h.next]
  exact List.Sublist.refl _

/-- An answer, which has no id of its own, leaves a side `Numbered`. -/
theorem answer (h : Numbered c given said) (hnext : c'.nextId = c.nextId) (id : UInt64)
    (m question : Message) : Numbered c' given (said ++ [⟨id, m, some question⟩]) := by
  refine ⟨hnext.trans h.next, ?_⟩
  rw [List.filter_append, List.map_append]
  exact (List.append_nil _).symm ▸ h.own

/-- Among the messages of a side that is `Numbered`, its own, an id stands for one message. -/
theorem eq_of_id (h : Numbered c given said) (hgiven : given < UInt64.size) {u u' : Utterance}
    (hu : u ∈ said) (hown : u.question = none) (hu' : u' ∈ said) (hown' : u'.question = none)
    (hid : u.id = u'.id) : u = u' := by
  have hmem : ∀ {u : Utterance}, u ∈ said → u.question = none →
      u ∈ said.filter (·.question.isNone) := fun hu hown =>
    List.mem_filter.2 ⟨hu, by rw [hown]; rfl⟩
  -- Fewer ids than there are have been given, so no id was given twice.
  have hnodup := (Connection.nodup_idAt hgiven).sublist h.own
  exact List.inj_on_of_nodup_map hnodup (hmem hu hown) (hmem hu' hown') hid

end Numbered

namespace Speaker

/-- The invariant of one side. -/
structure Orderly (p : Speaker) : Prop where
  numbered : Numbered p.connection p.given p.said
  nonzero : ∀ u ∈ p.said, u.id ≠ 0
  answers : ∀ u ∈ p.said, ∀ question, u.question = some question → question ∈ p.heard ∧
    question.type.response? = some u.message.type ∧ u.id = question.envelope.requestId
  waits : ∀ request, p.waiting = some request → request ∈ p.said ∧ request.question = none
  answered : ∀ request m, (request, m) ∈ p.answered → request ∈ p.said ∧ request.question = none ∧
    m.envelope.requestId = request.id

/-- What a side does keeps it in order and leaves its registry. -/
structure Proceeds (r : Registry) (p p' : Speaker) : Prop where
  registry : p'.connection.registry = p.connection.registry
  speaks : p.Speaks r p'
  listens : p.Listens p'
  orderly : p'.Orderly

variable {r : Registry} {p p' : Speaker} {m : Message} {question : Option Message} {waits : Bool}

/-- A side that writes nothing `Speaks` what it had said. -/
theorem speaks_nothing (hcarried : p'.carried = p.carried)
    (hlimit : p'.connection.link.writer.maxPayload = p.connection.link.writer.maxPayload)
    (hsaid : p.said ⊆ p'.said) (hwritten : p'.written = p.written) : p.Speaks r p' :=
  ⟨hcarried, hlimit, hsaid, [], by simp [hwritten], by simp, by simp [Frame.messages]⟩

/-- How `say?` can end. -/
theorem say?_cases (h : p.say? m question waits = some p') :
    ∃ writer, writer.maxPayload = p.connection.link.writer.maxPayload ∧
      let connection := { p.connection with
        link := { p.connection.link with writer }
        nextId := (p.connection.takeId m).2.nextId }
      let given := if m.envelope.requestId = 0 then p.given + 1 else p.given
      let u : Utterance := ⟨(p.connection.takeId m).1, m, question⟩
      (writer.sink.written = p.written ∧ p' = { p with connection, given }) ∨
        ∃ key body, p.connection.registry.encode m p.connection.context = .ok (key, body) ∧
          p.connection.link.writer.send ⟨key, u.id, body⟩ = (.ok (), writer) ∧
          p' = { p with connection, given, said := p.said ++ [u],
                        waiting := if waits then some u else none } := by
  obtain ⟨writer, hafter, hmax, hok, -⟩ := Connection.send_changes m p.connection
  refine ⟨writer, hmax, ?_⟩
  unfold say? at h
  cases hsend : p.connection.send m with
  | ok id connection =>
    rw [hsend] at hafter hok
    simp only [hsend, Option.some.injEq] at h
    -- The message is encoded and its frame has been written.
    obtain ⟨rfl, key, body, hencode, hwriter⟩ := hok id rfl
    rw [Connection.outcome_ok] at hafter
    subst hafter
    exact .inr ⟨key, body, hencode, hwriter, h.symm⟩
  | error e connection =>
    rw [hsend, Connection.outcome_error] at hafter
    subst hafter
    simp only [hsend, Option.ite_none_right_eq_some, Option.some.injEq] at h
    exact .inl ⟨h.1, h.2.symm⟩

/-- `say?` puts what is said on its way, or nothing. -/
theorem say?_speaks (hsound : p.connection.registry.Sound)
    (h : p.say? m question waits = some p') : p.Speaks p.connection.registry p' := by
  obtain ⟨writer, hmax, ⟨hwritten, rfl⟩ | ⟨key, body, hencode, hsend, rfl⟩⟩ := say?_cases h
  · exact speaks_nothing rfl hmax (List.Subset.refl _) hwritten
  · -- The key that the registry has chosen leads back to the type.
    obtain ⟨hresolve, hnull, -⟩ := hsound.encode_ok hencode
    obtain ⟨-, hfits, hwritten⟩ := FrameWriter.send_ok hsend
    refine ⟨rfl, hmax, List.subset_append_left _ _, [⟨key, (p.connection.takeId m).1, body⟩], ?_,
      ?_, ?_⟩
    · rw [List.flatMap_singleton]
      exact hwritten
    · intro frame hframe
      rw [List.mem_singleton.1 hframe]
      exact hfits
    · intro frame hframe
      rw [List.mem_singleton.1 (List.mem_filter.1 hframe).1]
      exact ⟨_, List.mem_append_right _ List.mem_cons_self, hresolve, rfl⟩

/-- `say?` reads nothing. -/
theorem say?_listens (h : p.say? m question waits = some p') : p.Listens p' := by
  obtain ⟨writer, hmax, ⟨hwritten, rfl⟩ | ⟨key, body, hencode, hsend, rfl⟩⟩ := say?_cases h <;>
  exact .nothing rfl (List.Subset.refl _)

/-- A side stays `Orderly` with something more to its account, if that is numbered like the rest
and, should it be an answer, answers a message that was received.  Only what is no answer may be
waited for. -/
theorem Orderly.utter (ho : p.Orderly) {u : Utterance} {connection : Connection} {given : Nat}
    {waiting : Option Utterance} (hnumbered : Numbered connection given (p.said ++ [u]))
    (hnonzero : u.id ≠ 0)
    (hanswers : ∀ question, u.question = some question → question ∈ p.heard ∧
      question.type.response? = some u.message.type ∧ u.id = question.envelope.requestId)
    (hwaits : ∀ request, waiting = some request → request = u ∧ u.question = none) :
    Orderly { p with connection, given, said := p.said ++ [u], waiting } := by
  refine ⟨hnumbered, ?_, ?_, ?_, ?_⟩
  · rw [List.forall_mem_append, List.forall_mem_singleton]
    exact ⟨ho.nonzero, hnonzero⟩
  · rw [List.forall_mem_append, List.forall_mem_singleton]
    exact ⟨ho.answers, hanswers⟩
  · intro request hrequest
    obtain ⟨rfl, hown⟩ := hwaits request hrequest
    exact ⟨List.mem_append_right _ List.mem_cons_self, hown⟩
  · intro request answer hanswer
    obtain ⟨hmem, hrest⟩ := ho.answered request answer hanswer
    exact ⟨List.mem_append_left _ hmem, hrest⟩

/-- `say?` of a message of its own keeps a side `Orderly`. -/
theorem say?_own (ho : p.Orderly) (hid : m.envelope.requestId = 0)
    (h : p.say? m none waits = some p') : p'.Orderly := by
  obtain ⟨writer, hmax, hcases⟩ := say?_cases h
  simp only [hid, if_true, Connection.takeId_of_zero hid] at hcases
  obtain ⟨hwritten, rfl⟩ | ⟨key, body, hencode, hsend, rfl⟩ := hcases
  · -- Nothing has been written, and the id is used up all the same.
    exact ⟨ho.numbered.skip rfl, ho.nonzero, ho.answers, ho.waits, ho.answered⟩
  · refine ho.utter (ho.numbered.give rfl m) ?_ (fun question hquestion => ?_)
      (fun request hrequest => ?_)
    · -- No id is zero.
      rw [ho.numbered.next]
      exact Connection.idAt_ne_zero _
    · cases hquestion
    · rw [Option.ite_none_right_eq_some, Option.some.injEq] at hrequest
      exact ⟨hrequest.2.symm, rfl⟩

/-- So does `say?` of an answer to a message that it has received. -/
theorem say?_answer (ho : p.Orderly) {asked : Message} (hasked : asked ∈ p.heard)
    (htype : asked.type.response? = some m.type) (hid : m.envelope = asked.envelope)
    (hnonzero : asked.envelope.requestId ≠ 0) (h : p.say? m (some asked) false = some p') :
    p'.Orderly := by
  rw [← hid] at hnonzero
  obtain ⟨writer, hmax, hcases⟩ := say?_cases h
  simp only [hnonzero, if_false, Connection.takeId_of_ne_zero hnonzero,
    Bool.false_eq_true] at hcases
  obtain ⟨hwritten, rfl⟩ | ⟨key, body, hencode, hsend, rfl⟩ := hcases
  · -- Nothing has been written, and no id was taken.
    exact ⟨⟨ho.numbered.next, ho.numbered.own⟩, ho.nonzero, ho.answers, ho.waits, ho.answered⟩
  · refine ho.utter (ho.numbered.answer (by rfl) _ _ _) hnonzero (fun question hquestion => ?_)
      (fun request hrequest => ?_)
    · rw [← Option.some.inj hquestion]
      exact ⟨hasked, htype, by rw [hid]⟩
    · cases hrequest

/-- A side that only reads `Proceeds`, if a request that has come to a message was the one that
waited for it. -/
theorem proceeds_of_listens (ho : p.Orderly) (hconnection : ∃ reader pending, p'.connection =
      { p.connection with link := { p.connection.link with reader }, pending })
    (hgiven : p'.given = p.given) (hsaid : p'.said = p.said) (hcarried : p'.carried = p.carried)
    (hheard : p.heard ⊆ p'.heard)
    (hwaiting : p'.waiting = none ∨ p'.waiting = p.waiting)
    (hanswered : ∀ request m, (request, m) ∈ p'.answered → (request, m) ∈ p.answered ∨
      p.waiting = some request ∧ m.envelope.requestId = request.id)
    (hlistens : p.Listens p') : p.Proceeds r p' := by
  obtain ⟨reader, pending, hconnection⟩ := hconnection
  refine ⟨by rw [hconnection], ?_, hlistens, ?_, ?_, ?_, ?_, ?_⟩
  · exact speaks_nothing hcarried (by rw [hconnection]) (by rw [hsaid]; exact List.Subset.refl _)
      (by rw [written, written, hconnection])
  · rw [hconnection, hgiven, hsaid]
    exact ⟨ho.numbered.next, ho.numbered.own⟩
  · rw [hsaid]
    exact ho.nonzero
  · rw [hsaid]
    intro u hu question hquestion
    obtain ⟨hmem, hrest⟩ := ho.answers u hu question hquestion
    exact ⟨hheard hmem, hrest⟩
  · intro request hrequest
    rw [hsaid]
    rcases hwaiting with hnone | hsame
    · rw [hnone] at hrequest
      cases hrequest
    · exact ho.waits request (hsame.symm.trans hrequest)
  · intro request m hm
    rw [hsaid]
    rcases hanswered request m hm with hm | ⟨hrequest, hid⟩
    · exact ho.answered request m hm
    · obtain ⟨hmem, hown⟩ := ho.waits request hrequest
      exact ⟨hmem, hown, hid⟩

/-- A side `Listens` when its reading fails and it keeps nothing of that. -/
theorem listens_of_error {e : PeerError} {connection : Connection}
    (hread : p.connection.readMessage = .error e connection)
    (hconnection : p'.connection = connection) (hheard : p'.heard = p.heard)
    (hanswered : p'.answered = p.answered) : p.Listens p' := by
  obtain ⟨hnext, hc⟩ := Connection.readMessage_error hread
  refine .message (by rw [hconnection, hnext]) fun m hm => .inl ?_
  -- A side that has read nothing has the messages it had.
  rwa [messages, hconnection, hc, hheard, hanswered] at hm

/-- A side `Listens` when it has read a message, and whether it has kept it or not. -/
theorem listens_of_ok {connection : Connection}
    (hread : p.connection.readMessage = .ok m connection)
    (hreader : p'.connection.link.reader = connection.link.reader)
    (hmessages : ∀ other ∈ p'.messages, other ∈ p.messages ∨ other = m) : p.Listens p' := by
  obtain ⟨hnext, hc⟩ := Connection.readMessage_ok hread
  refine .message (by rw [hreader, hnext]) fun other hother => ?_
  rw [hnext]
  rcases hmessages other hother with hother | rfl
  · exact .inl hother
  · exact .inr rfl

/-- `receive` hands over the oldest message of `pending`, or reads one. -/
theorem receive_proceeds (ho : p.Orderly) : p.Proceeds r p.receive := by
  unfold receive
  cases hreceive : p.connection.receive with
  | ok m connection =>
    simp only
    unfold Connection.receive at hreceive
    split at hreceive
    · rename_i first pending hpending
      simp only [EStateM.Result.ok.injEq] at hreceive
      obtain ⟨rfl, rfl⟩ := hreceive
      refine proceeds_of_listens ho ⟨_, _, rfl⟩ rfl rfl rfl (List.subset_append_left _ _)
        (.inr rfl) (fun _ _ h => .inl h) (.nothing rfl fun other hother => ?_)
      -- The oldest message that was kept is among those received.
      simp only [messages, hpending, List.mem_append, List.mem_cons, List.not_mem_nil] at hother ⊢
      grind
    · rename_i hpending
      obtain ⟨-, hc⟩ := Connection.readMessage_ok hreceive
      refine proceeds_of_listens ho ⟨_, _, hc⟩ rfl rfl rfl (List.subset_append_left _ _)
        (.inr rfl) (fun _ _ h => .inl h) (listens_of_ok hreceive rfl fun other hother => ?_)
      rw [messages, hc] at hother
      simp only [messages, List.mem_append, List.mem_cons, List.not_mem_nil] at hother ⊢
      grind
  | error e connection =>
    simp only
    unfold Connection.receive at hreceive
    split at hreceive
    · cases hreceive
    · obtain ⟨-, hc⟩ := Connection.readMessage_error hreceive
      exact proceeds_of_listens ho ⟨_, _, hc⟩ rfl rfl rfl (List.Subset.refl _)
        (.inr rfl) (fun _ _ h => .inl h) (listens_of_error hreceive rfl rfl rfl)

/-- `look` keeps a side in order, whatever it comes to. -/
theorem look_proceeds (ho : p.Orderly) {request : Utterance} (hwaiting : p.waiting = some request) :
    p.Proceeds r (p.look request) := by
  cases hread : p.connection.readMessage with
  | error e connection =>
    obtain ⟨-, hc⟩ := Connection.readMessage_error hread
    have hlook : p.look request = { p with connection, waiting := none } := by
      rw [look, Connection.look_of_error hread]
    rw [hlook]
    exact proceeds_of_listens ho ⟨_, _, hc⟩ rfl rfl rfl (List.Subset.refl _)
      (.inl rfl) (fun _ _ h => .inl h) (listens_of_error hread rfl rfl rfl)
  | ok m connection =>
    obtain ⟨-, hc⟩ := Connection.readMessage_ok hread
    have hpending : connection.pending = p.connection.pending := by rw [hc]
    by_cases hid : m.envelope.requestId = request.id
    · have hlook : p.look request =
          { p with connection, waiting := none, answered := p.answered ++ [(request, m)] } := by
        rw [look, Connection.look_of_id hread hid]
      rw [hlook]
      refine proceeds_of_listens ho ⟨_, _, hc⟩ rfl rfl rfl (List.Subset.refl _)
        (.inl rfl) (fun asker answer hanswer => ?_) (listens_of_ok hread rfl fun other hother => ?_)
      · rcases List.mem_append.1 hanswer with hanswer | hanswer
        · exact .inl hanswer
        · -- The answer has the id of the request that waits.
          cases List.mem_singleton.1 hanswer
          exact .inr ⟨hwaiting, hid⟩
      · simp only [messages, hpending, List.map_append, List.mem_append, List.map_cons,
          List.map_nil, List.mem_singleton] at hother ⊢
        grind
    · -- Another message is kept when there is room for it, and dropped otherwise.
      by_cases hfull : connection.maxPending ≤ connection.pending.length
      · have hlook : p.look request = { p with connection, waiting := none } := by
          rw [look, Connection.look_of_full hread hid hfull]
        rw [hlook]
        refine proceeds_of_listens ho ⟨_, _, hc⟩ rfl rfl rfl (List.Subset.refl _)
          (.inl rfl) (fun _ _ h => .inl h) (listens_of_ok hread rfl fun other hother => .inl ?_)
        rwa [messages, hpending] at hother
      · have hlook : p.look request = { p with connection := { connection with
            pending := connection.pending ++ [m] } } := by
          rw [look, Connection.look_of_room hread hid hfull]
        rw [hlook]
        refine proceeds_of_listens ho ⟨connection.link.reader, connection.pending ++ [m], ?_⟩ rfl
          rfl rfl (List.Subset.refl _) (.inr rfl) (fun _ _ h => .inl h)
          (listens_of_ok hread rfl fun other hother => ?_)
        · rw [hc]
        · simp only [messages, hpending, List.mem_append, List.mem_singleton] at hother ⊢
          grind

/-- A side that only writes `Proceeds` with what it has read. -/
theorem proceeds_of_speaks (ho : p.Orderly) {writer : FrameWriter}
    (hspeaks : p.Speaks r { p with connection := { p.connection with
      link := { p.connection.link with writer } } }) :
    p.Proceeds r { p with connection := { p.connection with
      link := { p.connection.link with writer } } } :=
  ⟨rfl, hspeaks, .nothing rfl (List.Subset.refl _), ⟨ho.numbered.next, ho.numbered.own⟩,
    ho.nonzero, ho.answers, ho.waits, ho.answered⟩

/-- `keepalive?` writes a frame that carries no message. -/
theorem keepalive?_proceeds (ho : p.Orderly) (h : p.keepalive? = some p') : p.Proceeds r p' := by
  have houtcome := Connection.sendFrame_outcome Frame.keepalive p.connection
  have hmax := p.connection.link.writer.send_maxPayload Frame.keepalive
  unfold keepalive? Connection.keepalive at h
  cases hsend : p.connection.sendFrame Frame.keepalive with
  | ok u connection =>
    obtain ⟨writer, hwriter, rfl⟩ := Connection.sendFrame_ok hsend
    obtain ⟨-, hfits, hwritten⟩ := FrameWriter.send_ok hwriter
    simp only [hsend, Option.some.injEq] at h
    subst h
    rw [hwriter] at hmax
    -- A keepalive carries no message.
    apply proceeds_of_speaks ho
    refine ⟨rfl, hmax, List.Subset.refl _, [.keepalive], ?_, ?_, ?_⟩
    · rw [List.flatMap_singleton]
      exact hwritten
    · intro frame hframe
      rw [List.mem_singleton.1 hframe]
      exact hfits
    · intro frame hframe
      cases hframe
  | error e connection =>
    rw [hsend, Connection.outcome_error, Prod.mk.injEq] at houtcome
    obtain ⟨-, rfl⟩ := houtcome
    simp only [hsend, Option.ite_none_right_eq_some, Option.some.injEq] at h
    obtain ⟨hwritten, rfl⟩ := h
    exact proceeds_of_speaks ho (speaks_nothing rfl hmax (List.Subset.refl _) hwritten)

/-- `say?` is one way to proceed, if it keeps a side `Orderly`. -/
theorem say?_proceeds (hsound : p.connection.registry.Sound)
    (h : p.say? m question waits = some p') (ho : p'.Orderly) :
    p.Proceeds p.connection.registry p' := by
  refine ⟨?_, say?_speaks hsound h, say?_listens h, ho⟩
  obtain ⟨writer, hmax, ⟨hwritten, rfl⟩ | ⟨key, body, hencode, hsend, rfl⟩⟩ := say?_cases h <;> rfl

/-- Whatever a side does by `act?`, it `Proceeds`, provided that what it has received bears ids. -/
theorem act?_proceeds (hsound : p.connection.registry.Sound) (ho : p.Orderly)
    (hnonzero : ∀ m ∈ p.heard, m.envelope.requestId ≠ 0) {act : Act} (h : p.act? act = some p') :
    p.Proceeds p.connection.registry p' := by
  unfold act? at h
  split at h
  · rename_i request hwaiting
    rw [← Option.some.inj h]
    exact look_proceeds ho hwaiting
  · rename_i m hwaiting
    rw [Option.ite_none_right_eq_some] at h
    exact say?_proceeds hsound h.2 (say?_own ho h.1 h.2)
  · rename_i m hwaiting
    rw [Option.ite_none_right_eq_some] at h
    exact say?_proceeds hsound h.2 (say?_own ho h.1 h.2)
  · rename_i i fields hwaiting
    simp only [Option.bind_eq_bind, Option.bind_eq_some_iff] at h
    -- What is answered was received, and the response has its envelope.
    obtain ⟨asked, hasked, response, hresponse, hsay⟩ := h
    have hmem := List.mem_of_getElem? hasked
    obtain ⟨type, htype, rfl⟩ := Option.map_eq_some_iff.1 hresponse
    refine say?_proceeds hsound hsay (say?_answer ho hmem ?_ ?_ (hnonzero asked hmem) hsay)
    · exact htype
    · rfl
  · rw [← Option.some.inj h]
    exact receive_proceeds ho
  · exact keepalive?_proceeds ho h
  · cases h

end Speaker

end Storefront
