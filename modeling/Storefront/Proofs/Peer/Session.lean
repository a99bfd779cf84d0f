import Storefront.Proofs.Peer.Connection
import Storefront.Proofs.Store.Registry

/-! # Two sides and what is between them

A session is two connections that are each other's peers.  What one writes is carried to the other in
pieces of any size, with failed reads and false ends between them; what a sink takes at a time, and
how it fails before it takes the rest, is up to the sink.  Sends, keepalives and receives happen in
any order.

* `Terms.Hears`        the invariant of one direction, from the one who talks to the one who listens
* `InStep.after?`      no event breaks it
* `InStep.run?`        and no run does
* `session_delivers`   what was received is what was sent, up to now
-/

namespace Storefront

/-- The sides of a session. -/
inductive Side where
  | left
  | right
  deriving DecidableEq, Repr

/-- The opposite side. -/
def Side.other : Side → Side
  | left => right
  | right => left

@[simp] theorem Side.other_other (side : Side) : side.other.other = side := by cases side <;> rfl

@[simp] theorem Side.other_ne (side : Side) : side.other ≠ side := by cases side <;> decide

/-- What holds of a side and of its `other` holds of both sides. -/
theorem Side.forall_of {P : Side → Prop} (side : Side) (h : P side) (hother : P side.other) :
    ∀ side, P side := by
  intro any
  cases side <;> cases any <;> assumption

/-- One side of a session, with its history. -/
structure Party where
  connection : Connection
  /-- The messages it sent, under the ids that this was answered with. -/
  sent : List (UInt64 × Message)
  /-- The messages it received. -/
  received : List Message
  /-- How many of the octets it has written have been carried over. -/
  carried : Nat

/-- The octets that have been written and not been carried over. -/
def Party.outgoing (p : Party) : Bytes := p.connection.link.writer.sink.written.drop p.carried

/-- Both sides. -/
abbrev Session := Side → Party

/-- What happens in a session. -/
inductive Event where
  | send (side : Side) (m : Message)
  | keepalive (side : Side)
  /-- Octets that a side has written reach the other, where reads will meet them as `arrivals`. -/
  | carry (side : Side) (arrivals : Source)
  | receive (side : Side)

namespace Session

/-- The session in which one side has become another party. -/
def set (s : Session) (side : Side) (p : Party) : Session :=
  fun any => if any = side then p else s any

@[simp] theorem set_self (s : Session) (side : Side) (p : Party) : (s.set side p) side = p :=
  if_pos rfl

@[simp] theorem set_other (s : Session) (side : Side) (p : Party) :
    (s.set side p) side.other = s side.other :=
  if_neg side.other_ne

/-- What an event makes of a session.  There is none after a send that failed, and the octets that
are carried are those that were written.  A receive may fail. -/
def after? (s : Session) : Event → Option Session
  | .send side m =>
    match (s side).connection.send m with
    | .error _ _ => none
    | .ok id connection =>
      some (s.set side { s side with connection, sent := (s side).sent ++ [(id, m)] })
  | .keepalive side =>
    match (s side).connection.keepalive with
    | .error _ _ => none
    | .ok () connection => some (s.set side { s side with connection })
  | .carry side arrivals =>
    if arrivals.octets <+: (s side).outgoing then
      let listener := s side.other
      let link := listener.connection.link
      let reader := { link.reader with source := link.reader.source ++ arrivals }
      let talker := { s side with carried := (s side).carried + arrivals.octets.length }
      some ((s.set side talker).set side.other
        { listener with connection := { listener.connection with link := { link with reader } } })
    else none
  | .receive side =>
    match (s side).connection.receive with
    | .error _ connection => some (s.set side { s side with connection })
    | .ok m connection =>
      some (s.set side { s side with connection, received := (s side).received ++ [m] })

/-- What events in a row make of a session. -/
def run? (s : Session) (events : List Event) : Option Session := events.foldlM after? s

end Session

/-- What the two sides of a session have in common. -/
structure Terms where
  registry : Registry
  context : Context

namespace Terms

/-- A connection goes by these terms. -/
structure Bind (t : Terms) (c : Connection) : Prop where
  registry : c.registry = t.registry
  context : c.context = t.context

/-- A frame is the written form of a message that was sent under an id. -/
structure Bears (t : Terms) (frame : Frame) (x : UInt64 × Message) : Prop where
  regular : x.2.Regular
  body : t.registry.encode x.2 t.context = .ok (frame.key, frame.payload)
  requestId : frame.requestId = x.1

/-- What a message that was sent under an id is received as.  It comes from whom the receiver takes
for its peer. -/
structure Received (t : Terms) (peerId : String) (x : UInt64 × Message) (m : Message) : Prop where
  type : m.type = x.2.type
  envelope : m.envelope = ⟨x.1, peerId⟩
  fields : x.2.type.recordType.layout.Delivered t.context t.context x.2.fields m.fields

/-- The invariant of one direction.  The listener has received the first of the messages that the
talker sent; the others stand, in order and among keepalives, in the frames that it is in front
of. -/
structure Hears (t : Terms) (talker listener : Party) : Prop where
  talks : t.Bind talker.connection
  listens : t.Bind listener.connection
  limit : talker.connection.link.writer.maxPayload ≤ listener.connection.link.reader.maxPayload
  carried : talker.carried ≤ talker.connection.link.writer.sink.written.length
  pending : listener.connection.pending = []
  waiting : ∃ delivered waiting frames, talker.sent = delivered ++ waiting ∧
    listener.connection.link.reader.Faces talker.outgoing frames ∧
    List.Forall₂ t.Bears (Frame.messages frames) waiting ∧
    List.Forall₂ (t.Received listener.connection.peerId) delivered listener.received

end Terms

namespace Terms.Hears

variable {t : Terms} {talker talker' listener listener' : Party}

/-- `Hears` does not depend on what a listener writes. -/
theorem of_listener (h : t.Hears talker listener) (hbind : t.Bind listener'.connection)
    (hpeer : listener'.connection.peerId = listener.connection.peerId)
    (hreader : listener'.connection.link.reader = listener.connection.link.reader)
    (hpending : listener'.connection.pending = listener.connection.pending)
    (hreceived : listener'.received = listener.received) : t.Hears talker listener' := by
  refine ⟨h.talks, hbind, ?_, h.carried, ?_, ?_⟩
  · rw [hreader]
    exact h.limit
  · rw [hpending]
    exact h.pending
  · rw [hreader, hpeer, hreceived]
    exact h.waiting

/-- `Hears` does not depend on what a talker reads. -/
theorem of_talker (h : t.Hears talker listener) (hbind : t.Bind talker'.connection)
    (hwriter : talker'.connection.link.writer = talker.connection.link.writer)
    (hcarried : talker'.carried = talker.carried) (hsent : talker'.sent = talker.sent) :
    t.Hears talker' listener := by
  have houtgoing : talker'.outgoing = talker.outgoing := by
    rw [Party.outgoing, Party.outgoing, hwriter, hcarried]
  refine ⟨hbind, h.listens, ?_, ?_, h.pending, ?_⟩
  · rw [hwriter]
    exact h.limit
  · rw [hwriter, hcarried]
    exact h.carried
  · rw [houtgoing, hsent]
    exact h.waiting

/-- A frame that has been handed to the writer comes behind all others, and the message that it
`Bears`, if it does, behind all other messages. -/
theorem written (h : t.Hears talker listener) {frame : Frame} {writer : FrameWriter}
    {news : List (UInt64 × Message)}
    (hsend : talker.connection.link.writer.send frame = (.ok (), writer))
    (hbind : t.Bind talker'.connection) (hwriter : talker'.connection.link.writer = writer)
    (hcarried : talker'.carried = talker.carried) (hsent : talker'.sent = talker.sent ++ news)
    (hnews : List.Forall₂ t.Bears (Frame.messages [frame]) news) : t.Hears talker' listener := by
  obtain ⟨hmax, hfits, hwritten⟩ := FrameWriter.send_ok hsend
  obtain ⟨delivered, waiting, frames, hall, hfaces, hbears, hreceived⟩ := h.waiting
  -- What has been carried over is in front, so the frame is added to what has not.
  have houtgoing : talker'.outgoing = talker.outgoing ++ frame.octets := by
    rw [Party.outgoing, Party.outgoing, hwriter, hcarried, hwritten,
      List.drop_append_of_le_length h.carried]
  refine ⟨hbind, h.listens, ?_, ?_, h.pending,
    delivered, waiting ++ news, frames ++ [frame], ?_, ?_, ?_, hreceived⟩
  · rw [hwriter, hmax]
    exact h.limit
  · rw [hwriter, hcarried, hwritten, List.length_append]
    exact Nat.le_add_right_of_le h.carried
  · rw [hsent, hall, List.append_assoc]
  · rw [houtgoing]
    exact hfaces.written (hfits.mono h.limit)
  · rw [Frame.messages, List.filter_append]
    exact List.rel_append hbears hnews

/-- `send` of a talker keeps `Hears`: its message is one that waits. -/
theorem send (h : t.Hears talker listener) (hsound : t.registry.Sound) {m : Message}
    (hm : m.Regular) {id : UInt64} {c : Connection}
    (hsend : talker.connection.send m = .ok id c) :
    t.Hears { talker with connection := c, sent := talker.sent ++ [(id, m)] } listener := by
  obtain ⟨key, body, writer, hencode, hwriter, hc⟩ := Connection.send_ok hsend
  rw [h.talks.registry, h.talks.context] at hencode
  obtain ⟨-, hnull, -⟩ := hsound.encode_ok hencode
  refine h.written hwriter ⟨?_, ?_⟩ ?_ rfl rfl ?_
  · rw [hc]
    exact h.talks.registry
  · rw [hc]
    exact h.talks.context
  · rw [hc]
  · -- The key of a message is not that of keepalives, so its frame bears it.
    have hmessages : Frame.messages [⟨key, id, body⟩] = [⟨key, id, body⟩] :=
      List.filter_cons_of_pos (by simp [Frame.isKeepalive, hnull])
    rw [hmessages]
    exact .cons ⟨hm, hencode, rfl⟩ .nil

/-- `keepalive` of a talker keeps `Hears`: it bears no message. -/
theorem keepalive (h : t.Hears talker listener) {c : Connection}
    (hkeepalive : talker.connection.keepalive = .ok () c) :
    t.Hears { talker with connection := c } listener := by
  obtain ⟨writer, hwriter, rfl⟩ := Connection.keepalive_ok hkeepalive
  exact h.written hwriter ⟨h.talks.registry, h.talks.context⟩ rfl rfl (List.append_nil _).symm .nil

/-- Octets that are `carried` over are the next ones that the listener comes to. -/
theorem carry (h : t.Hears talker listener) {arrivals : Source}
    (harrivals : arrivals.octets <+: talker.outgoing)
    (hbind : t.Bind talker'.connection)
    (hwriter : talker'.connection.link.writer = talker.connection.link.writer)
    (hcarried : talker'.carried = talker.carried + arrivals.octets.length)
    (hsent : talker'.sent = talker.sent) (hbind' : t.Bind listener'.connection)
    (hpeer : listener'.connection.peerId = listener.connection.peerId)
    (hreader : listener'.connection.link.reader = { listener.connection.link.reader with
      source := listener.connection.link.reader.source ++ arrivals })
    (hpending : listener'.connection.pending = listener.connection.pending)
    (hreceived' : listener'.received = listener.received) : t.Hears talker' listener' := by
  obtain ⟨delivered, waiting, frames, hall, hfaces, hbears, hreceived⟩ := h.waiting
  obtain ⟨left, hleft⟩ := harrivals
  -- The octets that were carried are no longer outgoing, and what was behind them is.
  have houtgoing : talker'.outgoing = left := by
    rw [Party.outgoing, hwriter, hcarried, ← List.drop_drop]
    show talker.outgoing.drop _ = left
    rw [← hleft, List.drop_left]
  have hlength : arrivals.octets.length ≤ talker.outgoing.length := by
    rw [← hleft, List.length_append]
    omega
  rw [← hleft] at hfaces
  refine ⟨hbind, hbind', ?_, ?_, ?_, delivered, waiting, frames, ?_, ?_, hbears, ?_⟩
  · rw [hwriter, hreader]
    exact h.limit
  · rw [hwriter, hcarried]
    have := h.carried
    rw [Party.outgoing, List.length_drop] at hlength
    omega
  · rw [hpending]
    exact h.pending
  · rw [hsent, hall]
  · rw [houtgoing, hreader]
    exact hfaces.arrive
  · rw [hpeer, hreceived']
    exact hreceived

/-- `receive` of a listener answers the first of the messages that wait. -/
theorem receive_ok (h : t.Hears talker listener) (hsound : t.registry.Sound) {m : Message}
    {c : Connection} (hreceive : listener.connection.receive = .ok m c) :
    t.Hears talker { listener with connection := c, received := listener.received ++ [m] } := by
  obtain ⟨frame, reader, found, hread, hdecode, hm, rfl⟩ := Connection.receive_ok h.pending hreceive
  obtain ⟨delivered, waiting, frames, hall, hfaces, hbears, hreceived⟩ := h.waiting
  -- The frame that was read is the first that carries a message, so it bears the first that waits.
  obtain ⟨frames', hmessages, -, hfaces'⟩ := hfaces.nextFrame_ok hread
  have hmax := FrameReader.nextFrame_maxPayload (fun _ => false) listener.connection.link.reader
  rw [hread] at hmax
  rw [hmessages] at hbears
  cases hbears with
  | @cons _ x _ waiting' hx hrest =>
    -- It is read as what was written into it.
    obtain ⟨got, hgot, hdelivered⟩ := hsound.decodeFrame_of_encode hx.regular hx.body t.context
    rw [h.listens.registry, h.listens.context, hgot, Except.ok.injEq] at hdecode
    subst hdecode
    have hnew : t.Received listener.connection.peerId x m := by
      rw [hm]
      exact ⟨rfl, by rw [hx.requestId], hdelivered⟩
    refine ⟨h.talks, ⟨h.listens.registry, h.listens.context⟩, ?_, h.carried, h.pending,
      delivered ++ [x], waiting', frames', ?_, hfaces', hrest, ?_⟩
    · exact Nat.le_trans h.limit (Nat.le_of_eq hmax.symm)
    · rw [hall, List.append_assoc, List.singleton_append]
    · exact List.rel_append hreceived (.cons hnew .nil)

/-- `receive` of a listener fails for its source only, and all messages still wait. -/
theorem receive_error (h : t.Hears talker listener) (hsound : t.registry.Sound) {e : PeerError}
    {c : Connection} (hreceive : listener.connection.receive = .error e c) :
    t.Hears talker { listener with connection := c } ∧
      ∃ fault, listener.connection.link.reader.nextFrame (fun _ => false) =
          (.error fault, c.link.reader) ∧ FrameReader.isOfSource fault ∧
        e = .ofRead .receive fault := by
  obtain ⟨result, reader, hread, rfl, hfault⟩ := Connection.receive_error h.pending hreceive
  obtain ⟨delivered, waiting, frames, hall, hfaces, hbears, hreceived⟩ := h.waiting
  have hmax := FrameReader.nextFrame_maxPayload (fun _ => false) listener.connection.link.reader
  rw [hread] at hmax
  cases result with
  | error fault =>
    obtain ⟨hsource, frames', hmessages, hfaces'⟩ := hfaces.nextFrame_error hread
    refine ⟨⟨h.talks, ⟨h.listens.registry, h.listens.context⟩, ?_, h.carried, h.pending,
      delivered, waiting, frames', hall, hfaces', ?_, hreceived⟩, fault, hread, hsource, hfault⟩
    · exact Nat.le_trans h.limit (Nat.le_of_eq hmax.symm)
    · rw [← hmessages]
      exact hbears
  | ok frame =>
    -- The frame would bear a message, and that can be read.
    obtain ⟨fault, hdecode⟩ := hfault
    obtain ⟨frames', hmessages, -, -⟩ := hfaces.nextFrame_ok hread
    rw [hmessages] at hbears
    cases hbears with
    | cons hx hrest =>
      obtain ⟨got, hgot, -⟩ := hsound.decodeFrame_of_encode hx.regular hx.body t.context
      rw [h.listens.registry, h.listens.context, hgot] at hdecode
      cases hdecode

/-- `nextFrame` answers `connectionClosed` only behind the last message, when everything has been
carried over and the source is `Steady`. -/
theorem all_received (h : t.Hears talker listener) (houtgoing : talker.outgoing = [])
    (hsteady : listener.connection.link.reader.source.Steady) {reader : FrameReader}
    (hread : listener.connection.link.reader.nextFrame (fun _ => false) =
      (.error .connectionClosed, reader)) : listener.received.length = talker.sent.length := by
  obtain ⟨delivered, waiting, frames, hall, hfaces, hbears, hreceived⟩ := h.waiting
  rw [houtgoing] at hfaces
  rw [hfaces.nextFrame_closed hsteady hread] at hbears
  cases hbears
  rw [hall, List.append_nil, hreceived.length_eq]

end Terms.Hears

/-- A message that an event sends is regular. -/
def Event.Regular : Event → Prop
  | .send _ m => m.Regular
  | _ => True

namespace Session

/-- Both sides hear what the other says. -/
def InStep (t : Terms) (s : Session) : Prop := ∀ side, t.Hears (s side) (s side.other)

/-- Two connections with the same terms, neither of which has sent or received anything so far.
Each takes frames as large as the other may send. -/
structure Begins (t : Terms) (s : Session) : Prop where
  grown : t.registry.Grown
  bind : ∀ side, t.Bind (s side).connection
  limit : ∀ side, (s side).connection.link.writer.maxPayload ≤
    (s side.other).connection.link.reader.maxPayload
  fresh : ∀ side, (s side).sent = [] ∧ (s side).received = [] ∧ (s side).connection.pending = []
  /-- Nothing is on its way. -/
  clear : ∀ side, (s side).carried = (s side).connection.link.writer.sink.written.length ∧
    (s side).connection.link.reader.buffer = [] ∧
    (s side).connection.link.reader.source.octets = []

/-- A session that `Begins` is `InStep`: nothing has been sent, and nothing is on its way. -/
theorem Begins.inStep {t : Terms} {s : Session} (h : s.Begins t) : s.InStep t := by
  intro side
  obtain ⟨hsent, -, -⟩ := h.fresh side
  obtain ⟨-, hreceived, hpending⟩ := h.fresh side.other
  obtain ⟨hcarried, -, -⟩ := h.clear side
  obtain ⟨-, hbuffer, hsource⟩ := h.clear side.other
  have houtgoing : (s side).outgoing = [] := by
    rw [Party.outgoing, hcarried, List.drop_length]
  refine ⟨h.bind side, h.bind side.other, h.limit side, Nat.le_of_eq hcarried, hpending,
    [], [], [], hsent, ⟨?_, ?_⟩, .nil, ?_⟩
  · rw [hbuffer, hsource, houtgoing]
    rfl
  · simp
  · rw [hreceived]
    exact .nil

/-- In a session that is `InStep` each side hears the other. -/
theorem InStep.towards {t : Terms} {s : Session} (h : s.InStep t) (side : Side) :
    t.Hears (s side.other) (s side) := by
  have hother := h side.other
  rwa [Side.other_other] at hother

/-- `set` of a side leaves two directions to look at. -/
theorem inStep_set {t : Terms} {s : Session} {side : Side} {p : Party}
    (haway : t.Hears p (s side.other)) (htowards : t.Hears (s side.other) p) :
    (s.set side p).InStep t := by
  refine Side.forall_of side ?_ ?_
  · rw [set_self, set_other]
    exact haway
  · rw [Side.other_other, set_self, set_other]
    exact htowards

/-- One event keeps a session `InStep`. -/
theorem InStep.after? {t : Terms} (hsound : t.registry.Sound) {s s' : Session} {event : Event}
    (hevent : event.Regular) (h : s.InStep t) (hafter : s.after? event = some s') :
    s'.InStep t := by
  cases event with
  | send side m =>
    simp only [Session.after?] at hafter
    cases hsend : (s side).connection.send m with
    | error e c => simp [hsend] at hafter
    | ok id c =>
      simp only [hsend, Option.some.injEq] at hafter
      subst hafter
      -- Sending leaves the reader of the side alone, so what it hears is as before.
      obtain ⟨key, body, writer, -, -, hc⟩ := Connection.send_ok hsend
      have hsent := (h side).send hsound hevent hsend
      refine inStep_set hsent ?_
      exact (h.towards side).of_listener hsent.talks (by rw [hc]) (by rw [hc]) (by rw [hc]) rfl
  | keepalive side =>
    simp only [Session.after?] at hafter
    cases hkeepalive : (s side).connection.keepalive with
    | error e c => simp [hkeepalive] at hafter
    | ok u c =>
      simp only [hkeepalive, Option.some.injEq] at hafter
      subst hafter
      obtain ⟨writer, -, hc⟩ := Connection.keepalive_ok hkeepalive
      have hkept := (h side).keepalive hkeepalive
      refine inStep_set hkept ?_
      exact (h.towards side).of_listener hkept.talks (by rw [hc]) (by rw [hc]) (by rw [hc]) rfl
  | carry side arrivals =>
    simp only [Session.after?] at hafter
    split at hafter
    · rename_i harrivals
      simp only [Option.some.injEq] at hafter
      subst hafter
      have htalks := (h side).talks
      have hlistens := (h side).listens
      -- Both sides have changed: the talker its count, the listener its source.
      refine inStep_set ?_ ?_
      · rw [Side.other_other, set_self]
        refine Terms.Hears.of_listener (?_ : t.Hears _ (s side)) htalks rfl rfl rfl rfl
        exact (h.towards side).of_talker ⟨hlistens.registry, hlistens.context⟩ rfl rfl rfl
      · rw [Side.other_other, set_self]
        exact (h side).carry harrivals htalks rfl rfl rfl ⟨hlistens.registry, hlistens.context⟩
          rfl rfl rfl rfl
    · cases hafter
  | receive side =>
    simp only [Session.after?] at hafter
    cases hreceive : (s side).connection.receive with
    | ok m c =>
      simp only [hreceive, Option.some.injEq] at hafter
      subst hafter
      -- Receiving leaves the writer of the side alone, so what is heard from it is as before.
      obtain ⟨-, reader, -, -, -, -, hc⟩ := Connection.receive_ok (h.towards side).pending hreceive
      have hreceived := (h.towards side).receive_ok hsound hreceive
      refine inStep_set ?_ hreceived
      exact (h side).of_talker hreceived.listens (by rw [hc]) rfl rfl
    | error e c =>
      simp only [hreceive, Option.some.injEq] at hafter
      subst hafter
      obtain ⟨-, reader, -, hc, -⟩ := Connection.receive_error (h.towards side).pending hreceive
      have hfailed := ((h.towards side).receive_error hsound hreceive).1
      refine inStep_set ?_ hfailed
      exact (h side).of_talker hfailed.listens (by rw [hc]) rfl rfl

/-- So does a run, by induction over its events. -/
theorem InStep.run? {t : Terms} (hsound : t.registry.Sound) {s s' : Session} {events : List Event}
    (hregular : ∀ event ∈ events, event.Regular) (h : s.InStep t)
    (hrun : s.run? events = some s') : s'.InStep t := by
  induction events generalizing s with
  | nil =>
    simp only [Session.run?, List.foldlM_nil, Option.pure_def, Option.some.injEq] at hrun
    exact hrun ▸ h
  | cons event events ih =>
    simp only [Session.run?, List.foldlM_cons, Option.bind_eq_bind, Option.bind_eq_some_iff] at hrun
    obtain ⟨s₁, hafter, hrest⟩ := hrun
    have hstep := h.after? hsound (hregular event List.mem_cons_self) hafter
    exact ih (fun event hmem => hregular event (List.mem_cons_of_mem _ hmem)) hstep hrest

end Session

/-- In a session whose sides start out with the same `registry` and `context`, and in which every
`Connection.send` succeeds, a side has received the first of the messages that the other has sent,
in order, each once, under the id that `send` answered with, and with the name of its peer as
`sender`.  `Connection.receive` fails only for the channel; and when it answers `disconnected`, on a
channel which does not stall and after all was carried over, it has come behind the last message. -/
theorem session_delivers {t : Terms} {s s' : Session} {events : List Event}
    (hbegins : s.Begins t) (hregular : ∀ event ∈ events, event.Regular)
    (hrun : s.run? events = some s') (side : Side) :
    (∃ delivered, delivered <+: (s' side).sent ∧
      List.Forall₂ (t.Received (s' side.other).connection.peerId) delivered
        (s' side.other).received) ∧
    ∀ e c, (s' side.other).connection.receive = .error e c →
      (∃ fault, e = .wire (.io fault)) ∨ e = .disconnected .receive ∧
        ((s' side).outgoing = [] → (s' side.other).connection.link.reader.source.Steady →
          (s' side.other).received.length = (s' side).sent.length) := by
  have hsound := hbegins.grown.sound
  have hhears := hbegins.inStep.run? hsound hregular hrun side
  constructor
  · obtain ⟨delivered, waiting, -, hall, -, -, hreceived⟩ := hhears.waiting
    exact ⟨delivered, ⟨waiting, hall.symm⟩, hreceived⟩
  · intro e c hreceive
    obtain ⟨-, fault, hread, hsource, rfl⟩ := hhears.receive_error hsound hreceive
    cases fault with
    | io fault => exact .inl ⟨fault, rfl⟩
    | connectionClosed =>
      exact .inr ⟨rfl, fun houtgoing hsteady => hhears.all_received houtgoing hsteady hread⟩
    | _ => cases hsource

/-- Two sides that have shaken hands and not said anything yet. -/
def Session.silent : Session := fun side =>
  let peerId := match side with
    | .left => "right"
    | .right => "left"
  let link : Link := ⟨.ofSource [] 0, ⟨.unlimited, 0⟩⟩
  ⟨.ofHandshake link .standard ⟨peerId, .main, .ofLocal⟩ {}, [], [], 0⟩

/-- An answer and a keepalive that arrive in pieces, with a receive that comes too early. -/
def answerInPieces : List Event :=
  [.send .left ⟨.core .response, {}, [.number 3, .text "no"]⟩, .keepalive .left,
    .carry .left [.octets [0x53, 0x50, 8, 0, 0, 0, 0, 4, 0, 2] (some 4), .fault .interrupted],
    .receive .right,
    .carry .left [.octets [0, 0, 0, 0, 0, 0, 0, 0, 1, 8, 3, 18, 2, 0x6E, 0x6F, 0x53] none],
    .receive .right]

/-- `run?` of an answer in pieces: it arrives under its id and from whom it came. -/
theorem session_delivers_answer :
    ∃ s m, Session.silent.run? answerInPieces = some s ∧ (s .right).received = [m] ∧
      m.type = .core .response ∧ m.envelope = ⟨2, "left"⟩ := by
  have hsome : (Session.silent.run? answerInPieces).map (fun s =>
      ((s .left).sent.map fun x => (x.1, x.2.type), (s .right).received.length,
        (s .right).connection.peerId)) =
      some ([(2, .core .response)], 1, "left") := by decide +kernel
  obtain ⟨s, hrun, hsummary⟩ := Option.map_eq_some_iff.1 hsome
  simp only [Prod.mk.injEq] at hsummary
  obtain ⟨hsent, hlength, hpeer⟩ := hsummary
  have hbegins : Session.silent.Begins ⟨.standard, .ofLocal⟩ := by
    refine ⟨Registry.grown_full _, fun side => ⟨rfl, rfl⟩, fun side => ?_, fun side => ⟨rfl, rfl, rfl⟩,
      fun side => ⟨rfl, rfl, rfl⟩⟩
    exact Nat.le_refl Frame.defaultMaxPayload
  have hregular : ∀ event ∈ answerInPieces, event.Regular := by
    intro event hevent
    rcases hevent with _ | ⟨_, _ | ⟨_, _ | ⟨_, _ | ⟨_, _ | ⟨_, _ | ⟨_, hevent⟩⟩⟩⟩⟩⟩
    case head => exact ⟨by decide, by decide, nofun⟩
    all_goals trivial
  obtain ⟨⟨delivered, hfirst, hreceived⟩, -⟩ := session_delivers hbegins hregular hrun .left
  obtain ⟨m, hm⟩ := List.length_eq_one_iff.1 hlength
  refine ⟨s, m, hrun, hm, ?_⟩
  rw [show Side.left.other = .right from rfl, hm, hpeer] at hreceived
  cases hreceived with
  | @cons x _ _ _ hx hrest =>
    -- What was delivered is what was sent, the id included.
    have hmem : (x.1, x.2.type) ∈ (s .left).sent.map fun x => (x.1, x.2.type) :=
      List.mem_map_of_mem (hfirst.mem List.mem_cons_self)
    rw [hsent, List.mem_singleton, Prod.mk.injEq] at hmem
    exact ⟨hx.type.trans hmem.2, by rw [hx.envelope, hmem.1]⟩

end Storefront
