import Storefront.Peer.Handshake

/-! # Connections

After the handshake both sides send messages under the records they have come to.  Every message
gets a request id; an answer carries the id of its request.  While a request waits for its answer,
other messages are kept for later receives, in order, as long as there is room.
-/

namespace Storefront

/-- The limits of a connection. -/
structure ConnectionConfig where
  /-- The most octets of a payload after the handshake. -/
  maxPayload : Nat := Frame.defaultMaxPayload
  /-- The most messages that are kept while a request waits. -/
  maxPending : Nat := 64
  deriving DecidableEq, Repr

/-- One side of a connection after the handshake. -/
structure Connection where
  peerId : String
  link : Link
  registry : Registry
  context : Context
  maxPending : Nat
  /-- The id of the next request that brings none. -/
  nextId : UInt64
  /-- Messages that came while a request was waiting, the oldest one first. -/
  pending : List Message

namespace Connection

/-- A connection over a link on which a handshake has been made.  The limits of the handshake are
lifted. -/
def ofHandshake (link : Link) (registry : Registry) (handshake : Handshake)
    (config : ConnectionConfig) : Connection where
  peerId := handshake.peerId
  link :=
    { reader := { link.reader with maxPayload := config.maxPayload }
      writer := { link.writer with maxPayload := config.maxPayload } }
  registry
  context := handshake.context
  maxPending := config.maxPending
  nextId := Handshake.initRequestId + 1
  pending := []

/-- The id after a given one.  Zero stands for no id and is passed over. -/
def idAfter (id : UInt64) : UInt64 := if id + 1 = 0 then 1 else id + 1

/-- The id that a message is sent under, and the connection without that id. -/
def takeId (c : Connection) (m : Message) : UInt64 × Connection :=
  if m.envelope.requestId = 0 then (c.nextId, { c with nextId := idAfter c.nextId })
  else (m.envelope.requestId, c)

/-- What one side does on a connection.  A failure leaves the connection as it was when it
occurred. -/
abbrev Action := EStateM PeerError Connection

/-- Sends a frame. -/
def sendFrame (frame : Frame) : Action Unit := fun c =>
  match Exchange.send frame c.link with
  | .ok () link => .ok () { c with link }
  | .error e link => .error e { c with link }

/-- Sends a message.  Answers the request id it was sent under. -/
def send (m : Message) : Action UInt64 := fun c =>
  let (id, c) := c.takeId m
  match c.registry.encode m c.context with
  -- The id is used up even when the message cannot be written.
  | .error e => .error (.schema e) c
  | .ok (key, body) =>
    match sendFrame ⟨key, id, body⟩ c with
    | .ok () c => .ok id c
    | .error e c => .error e c

/-- Tells the other side that this one is there. -/
def keepalive : Action Unit := sendFrame Frame.keepalive

/-- The next message from the link.  A frame that is no message is gone all the same. -/
def readMessage : Action Message := fun c =>
  match Exchange.receive (fun _ => false) .receive c.link with
  | .error e link => .error e { c with link }
  | .ok frame link =>
    match c.registry.decodeFrame frame c.context with
    | .error e => .error (.schema e) { c with link }
    -- The name of the sender is this side's own name for it, not one that the message carries.
    | .ok m => .ok { m with envelope := { m.envelope with sender := c.peerId } } { c with link }

/-- The next message: one that was kept, or else the next one from the link. -/
def receive : Action Message := fun c =>
  match c.pending with
  | m :: pending => .ok m { c with pending }
  | [] => readMessage c

/-- Refuses a message that is not of the type called for. -/
def expect (type : MessageType) (m : Message) : Action Message := fun c =>
  if m.type = type then .ok m c
  else
    match c.registry.keyOf type with
    -- A type that the registry does not hold cannot be named in the complaint.
    | .error e => .error (.schema e) c
    | .ok key => .error (.unexpected type.name m.type.name key) c

/-- The next message, which has to be of the given type. -/
def receiveAs (type : MessageType) : Action Message := do
  expect type (← receive)

theorem readMessage_size {c c' : Connection} {m : Message} (h : readMessage c = .ok m c') :
    c'.link.reader.size < c.link.reader.size := by
  unfold readMessage at h
  split at h
  · simp at h
  · rename_i frame link hr
    split at h
    · simp at h
    · simp only [EStateM.Result.ok.injEq] at h
      rw [← h.2]
      unfold Exchange.receive at hr
      split at hr
      · rename_i hf
        simp only [EStateM.Result.ok.injEq] at hr
        rw [← hr.2]
        exact FrameReader.nextFrame_size_of_ok hf
      · simp at hr

/-- Waits for the message with a given id and keeps the others.  A message for which there is no
room is lost. -/
def awaitAnswer (id : UInt64) (type : MessageType) (c : Connection) :
    EStateM.Result PeerError Connection Message :=
  match _h : readMessage c with
  | .error e c' => .error e c'
  | .ok m c' =>
    if m.envelope.requestId = id then expect type m c'
    -- Room is looked for when a message has come, so the one too many has already been taken off.
    else if c'.maxPending ≤ c'.pending.length then .error (.bufferFull c'.pending.length) c'
    else awaitAnswer id type { c' with pending := c'.pending ++ [m] }
termination_by c.link.reader.size
decreasing_by exact readMessage_size _h

/-- Sends a request and waits for its answer, which has to be of the given type. -/
def request (m : Message) (answer : MessageType) : Action Message := do
  let id ← send m
  awaitAnswer id answer

/-- The link of a connection that is about to be made: until the handshake is over no payload may be
larger than that allows. -/
def newLink (source : Source) (sink : Sink) (handshake : HandshakeConfig) : Link :=
  ⟨.ofSource source handshake.maxPayload, ⟨sink, handshake.maxPayload⟩⟩

/-- Makes a connection by a handshake over a new link, for which there has to be time.  Answers the
link as well when the handshake fails. -/
def establish (side : Registry → HandshakeConfig → Exchange Handshake) (source : Source)
    (sink : Sink) (registry : Registry) (handshake : HandshakeConfig)
    (config : ConnectionConfig) : Except (PeerError × Link) Connection :=
  let link := newLink source sink handshake
  if handshake.timeout = 0 then .error (.wire (.io .noTime), link)
  else
    match side registry handshake link with
    | .ok h link => .ok (ofHandshake link registry h config)
    | .error e link => .error (e, link)

/-- Opens a connection as a client. -/
def connect := establish Handshake.connect

/-- Accepts a connection as a server. -/
def accept := establish Handshake.accept

end Connection

end Storefront
