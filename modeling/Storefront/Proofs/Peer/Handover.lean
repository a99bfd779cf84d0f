import Storefront.Proofs.Frame.Intact
import Storefront.Proofs.Peer.Accounts

/-! # From the handshake to the connection

A handshake reads one frame and leaves what has arrived behind it to the connection, which makes of
each further frame what this frame means by itself.

* `OnlyWrites`             what does not depend on what is still to be read
* `accept_congr`           a handshake depends on the frame that it reads
* `receives_frames`        frames are received one by one, those that are no messages included
* `handover_receives`      nothing that has arrived during a handshake is lost
-/

namespace Storefront

namespace Exchange

/-- An exchange as it is on a link with another reader, if it leaves the reader alone. -/
def withReader {α : Type} (reader : FrameReader) :
    EStateM.Result PeerError Link α → EStateM.Result PeerError Link α
  | .ok a link => .ok a { link with reader }
  | .error e link => .error e { link with reader }

/-- What an exchange does has nothing to do with the reader. -/
def OnlyWrites {α : Type} (exchange : Exchange α) : Prop :=
  ∀ link reader, exchange { link with reader } = withReader reader (exchange link)

variable {α β : Type}

theorem onlyWrites_pure (a : α) : OnlyWrites (pure a) := fun _ _ => rfl

theorem onlyWrites_throw (e : PeerError) : OnlyWrites (α := α) (throw e) := fun _ _ => rfl

variable {exchange : Exchange α} {next : α → Exchange β} {link link' : Link}

/-- `>>=` behind an exchange that succeeds goes on with its link. -/
theorem bind_of_ok {a : α} (h : exchange link = .ok a link') :
    (exchange >>= next) link = next a link' := by
  show EStateM.bind exchange next link = _
  unfold EStateM.bind
  rw [h]

/-- `>>=` behind an exchange that fails does nothing. -/
theorem bind_of_error {e : PeerError} (h : exchange link = .error e link') :
    (exchange >>= next) link = .error e link' := by
  show EStateM.bind exchange next link = _
  unfold EStateM.bind
  rw [h]

/-- `>>=` that succeeds has done its first part, and then the rest. -/
theorem bind_ok {b : β} (h : (exchange >>= next) link = .ok b link') :
    ∃ a link₁, exchange link = .ok a link₁ ∧ next a link₁ = .ok b link' := by
  cases hfirst : exchange link with
  | ok a link₁ =>
    rw [bind_of_ok hfirst] at h
    exact ⟨a, link₁, rfl, h⟩
  | error e link₁ =>
    rw [bind_of_error hfirst] at h
    cases h

/-- `OnlyWrites` of two exchanges is `OnlyWrites` of one after the other. -/
theorem onlyWrites_bind (h : OnlyWrites exchange) (hnext : ∀ a, OnlyWrites (next a)) :
    OnlyWrites (exchange >>= next) := by
  intro link reader
  have hfirst := h link reader
  cases hcase : exchange link with
  | ok a link' =>
    rw [hcase] at hfirst
    rw [bind_of_ok hfirst, bind_of_ok hcase]
    -- The second exchange starts on the other link, which has the same writer.
    exact hnext a link' reader
  | error e link' =>
    rw [hcase] at hfirst
    rw [bind_of_error hfirst, bind_of_error hcase]
    rfl

theorem onlyWrites_send (frame : Frame) : OnlyWrites (send frame) := by
  intro link reader
  unfold send
  rcases link.writer.send frame with ⟨_ | _, writer⟩ <;> rfl

theorem onlyWrites_ofSchema (result : Except SchemaError α) : OnlyWrites (ofSchema result) := by
  cases result with
  | ok a => exact onlyWrites_pure a
  | error e => exact onlyWrites_throw _

end Exchange

namespace Handshake

open Exchange

theorem onlyWrites_reply (registry : Registry) (context : Context) (init : Message)
    (status : Status) (text : String) :
    OnlyWrites (reply registry context init status text) :=
  onlyWrites_bind (onlyWrites_ofSchema _) fun _ => onlyWrites_send _

/-- `answer` replies, and then succeeds or fails. -/
theorem onlyWrites_answer (registry : Registry) (config : HandshakeConfig) (service : Service)
    (init : Message) : OnlyWrites (answer registry config service init) := by
  unfold answer
  simp only
  split
  · exact onlyWrites_bind (onlyWrites_reply _ _ _ _ _) fun _ => onlyWrites_pure _
  · exact onlyWrites_bind (onlyWrites_reply _ _ _ _ _) fun _ => onlyWrites_throw _

/-- What a server does about the first frame: all that follows once it has been received. -/
def greet (registry : Registry) (config : HandshakeConfig) (frame : Frame) :
    Exchange Handshake := do
  let init ← Exchange.ofSchema (registry.decodeFrame frame .empty)
  match Service.ofInitRequest? init.type with
  | some service => answer registry config service init
  | none => throw (.unexpected "InitRequest" init.type.name frame.key)

/-- `greet` does not read any further. -/
theorem onlyWrites_greet (registry : Registry) (config : HandshakeConfig) (frame : Frame) :
    OnlyWrites (greet registry config frame) := by
  refine onlyWrites_bind (onlyWrites_ofSchema _) fun init => ?_
  split
  · exact onlyWrites_answer _ _ _ _
  · exact onlyWrites_throw _

/-- `checkPeerId` accepts a name of one octet up to `maxPeerIdSize`, and does nothing else. -/
theorem checkPeerId_ok_iff {peerId : String} {link link' : Link} :
    checkPeerId peerId link = .ok () link' ↔
      link' = link ∧ ¬ (peerId.utf8ByteSize = 0 ∨ maxPeerIdSize < peerId.utf8ByteSize) := by
  unfold checkPeerId
  split
  · rename_i hsize
    simp only [hsize, not_true_eq_false, and_false, iff_false]
    exact nofun
  · rename_i hsize
    simp only [hsize, not_false_eq_true, and_true]
    exact ⟨fun h => by cases h; rfl, fun h => by rw [h]; rfl⟩

/-- `receiveInit` succeeds when a frame comes, there is time, and it is small enough. -/
theorem receiveInit_ok_iff {config : HandshakeConfig} {link link' : Link} {frame : Frame} :
    receiveInit config link = .ok frame link' ↔
      ∃ reader, link.reader.nextFrame waitsOut = (.ok frame, reader) ∧ config.timeout ≠ 0 ∧
        frame.payload.length ≤ config.maxPayload ∧ link' = { link with reader } := by
  unfold receiveInit
  by_cases htime : config.timeout = 0
  · rw [if_pos htime]
    simp only [htime, ne_eq, not_true_eq_false, false_and, and_false, exists_false, iff_false]
    exact nofun
  · rw [if_neg htime]
    show EStateM.bind (Exchange.receive waitsOut .handshake) _ link = _ ↔ _
    unfold EStateM.bind Exchange.receive
    rcases link.reader.nextFrame waitsOut with ⟨_ | first, reader⟩
    · simp
    · -- The frame is read, and its payload is held against the limit of the handshake.
      by_cases hsize : config.maxPayload < first.payload.length
      · simp only [hsize, if_true]
        constructor
        · intro h
          cases h
        · rintro ⟨reader', hread, -, hle, -⟩
          cases hread
          omega
      · simp only [hsize, if_false]
        constructor
        · intro h
          cases h
          exact ⟨reader, rfl, htime, by omega, rfl⟩
        · rintro ⟨reader', hread, -, -, rfl⟩
          cases hread
          rfl

/-- A configuration lets a client in that opens with this frame, so far as the handshake goes. -/
structure Admits (config : HandshakeConfig) (frame : Frame) : Prop where
  named : ¬ (config.peerId.utf8ByteSize = 0 ∨ maxPeerIdSize < config.peerId.utf8ByteSize)
  time : config.timeout ≠ 0
  size : frame.payload.length ≤ config.maxPayload

/-- `accept` checks the name, receives the opening frame and greets the client. -/
theorem accept_eq (registry : Registry) (config : HandshakeConfig) :
    accept registry config = checkPeerId config.peerId >>= fun _ =>
      receiveInit config >>= greet registry config := rfl

/-- `receiveInit` takes a frame that `Admits` allows. -/
theorem receiveInit_of_admits {config : HandshakeConfig} {link : Link} {reader : FrameReader}
    {frame : Frame} (h : Admits config frame)
    (hread : link.reader.nextFrame waitsOut = (.ok frame, reader)) :
    receiveInit config link = .ok frame { link with reader } :=
  receiveInit_ok_iff.2 ⟨reader, hread, h.time, h.size, rfl⟩

/-- `accept` is what `greet` makes of a frame that `Admits` allows. -/
theorem accept_of_admits {registry : Registry} {config : HandshakeConfig} {link : Link}
    {reader : FrameReader} {frame : Frame} (h : Admits config frame)
    (hread : link.reader.nextFrame waitsOut = (.ok frame, reader)) :
    accept registry config link = greet registry config frame { link with reader } := by
  have hname : checkPeerId config.peerId link = .ok () link :=
    checkPeerId_ok_iff.2 ⟨rfl, h.named⟩
  rw [accept_eq, bind_of_ok hname, bind_of_ok (receiveInit_of_admits h hread)]

/-- `accept` succeeds when it has read an opening frame and `greet` has taken it up. -/
theorem accept_ok_iff {registry : Registry} {config : HandshakeConfig} {link link' : Link}
    {handshake : Handshake} :
    accept registry config link = .ok handshake link' ↔
      ∃ frame reader, link.reader.nextFrame waitsOut = (.ok frame, reader) ∧
        Admits config frame ∧
        greet registry config frame { link with reader } = .ok handshake link' := by
  constructor
  · intro h
    rw [accept_eq] at h
    -- One by one: the name, the frame, and the greeting.
    obtain ⟨u, link₀, hname, h⟩ := bind_ok h
    obtain ⟨frame, link₁, hinit, hgreet⟩ := bind_ok h
    obtain ⟨rfl, hnamed⟩ := checkPeerId_ok_iff.1 hname
    obtain ⟨reader, hread, htime, hsize, rfl⟩ := receiveInit_ok_iff.1 hinit
    exact ⟨frame, reader, hread, ⟨hnamed, htime, hsize⟩, hgreet⟩
  · rintro ⟨frame, reader, hread, hadmits, hgreet⟩
    rw [accept_of_admits hadmits hread]
    exact hgreet

/-- `accept` depends on the frame that it reads, not on how this frame comes or on what stands
behind it. -/
theorem accept_congr {registry : Registry} {config : HandshakeConfig} {writer : FrameWriter}
    {link : Link} {handshake : Handshake} {frame : Frame}
    {source source' reader reader' : FrameReader}
    (hread : source.nextFrame waitsOut = (.ok frame, reader))
    (hread' : source'.nextFrame waitsOut = (.ok frame, reader'))
    (h : accept registry config ⟨source, writer⟩ = .ok handshake link) :
    accept registry config ⟨source', writer⟩ = .ok handshake { link with reader := reader' } := by
  -- The first reader has read this frame and no other.
  obtain ⟨found, reader₁, hfound, hadmits, hgreet⟩ := accept_ok_iff.1 h
  rw [hread, Prod.mk.injEq, Except.ok.injEq] at hfound
  obtain ⟨rfl, rfl⟩ := hfound
  -- `greet` goes the same way with the other reader.
  have hother := onlyWrites_greet registry config frame ⟨reader, writer⟩ reader'
  rw [hgreet] at hother
  exact accept_ok_iff.2 ⟨frame, reader', hread', hadmits, hother⟩

/-- The frame with which `accept` succeeds is no keepalive. -/
theorem isKeepalive_eq_false_of_accept {registry : Registry} {config : HandshakeConfig}
    {source : FrameReader} {writer : FrameWriter} {link : Link} {handshake : Handshake}
    {frame : Frame} (hholds : source.Holds frame.octets) (hfits : frame.Fits source.maxPayload)
    (h : accept registry config ⟨source, writer⟩ = .ok handshake link) :
    frame.isKeepalive = false := by
  rw [Bool.eq_false_iff]
  intro hkeepalive
  have hone : source.Holds ([frame].flatMap Frame.octets) := by
    rwa [List.flatMap_singleton]
  have hkeepalives : ∀ other ∈ [frame], other.isKeepalive ∧ other.Fits source.maxPayload := by
    intro other hmem
    rw [List.mem_singleton.1 hmem]
    exact ⟨hkeepalive, hfits⟩
  -- There would be no frame to open a connection with.
  obtain ⟨reader, hclosed, -⟩ := hone.closed waitsOut hkeepalives
  obtain ⟨first, reader', hread, -⟩ := accept_ok_iff.1 h
  rw [hclosed] at hread
  cases hread

end Handshake

namespace Connection

variable {c : Connection}

/-- What a receive comes to: a frame, or the end. -/
def reading (c : Connection) : Option Frame → Except PeerError Message
  | some frame => c.meaning frame
  | none => .error (.disconnected .receive)

/-- `reading` of a frame is up to the frame: the message that it holds, under its request id and
from the peer, or why it is none. -/
theorem reading_some (c : Connection) (frame : Frame) :
    c.reading (some frame) =
      match c.registry.decodeFrame frame c.context with
      | .ok m => .ok { m with envelope := ⟨frame.requestId, c.peerId⟩ }
      | .error e => .error (.schema e) := by
  show c.meaning frame = _
  unfold meaning Registry.decodeFrame
  cases c.registry.decode frame.key frame.payload c.context <;> rfl

/-- `receive` with nothing pending is `nextMessage`. -/
theorem receive_of_nextMessage {result : Except PeerError Message} {reader : FrameReader}
    (hpending : c.pending = []) (hread : c.link.reader.nextMessage c.meaning = (result, reader)) :
    outcome (receive c) = (result, { c with link := { c.link with reader } }) := by
  -- `receive` looks into `pending` before it reads.
  have hreceive : receive c = readMessage c := by
    unfold receive
    rw [hpending]
  rw [hreceive, readMessage_eq, hread]
  cases result <;> rfl

/-- `nextMessage` over octets of frames is the `reading` of the first, and leaves the reader in
front of the others. -/
theorem nextMessage_of_holds {frames : List Frame}
    (hholds : c.link.reader.Holds (frames.flatMap Frame.octets))
    (hfits : ∀ frame ∈ frames, frame.Fits c.link.reader.maxPayload) :
    ∃ reader left, c.link.reader.nextMessage c.meaning =
        (c.reading (Frame.messages frames)[0]?, reader) ∧
      reader.Holds (left.flatMap Frame.octets) ∧
      (∀ frame ∈ left, frame.Fits reader.maxPayload) ∧
      ∀ i, (Frame.messages frames)[i + 1]? = (Frame.messages left)[i]? := by
  unfold FrameReader.nextMessage
  cases hmessages : Frame.messages frames with
  | nil =>
    -- There are keepalives only.
    have hkeepalives : ∀ frame ∈ frames,
        frame.isKeepalive ∧ frame.Fits c.link.reader.maxPayload := by
      intro frame hmem
      refine ⟨?_, hfits frame hmem⟩
      have hnone := List.filter_eq_nil_iff.1 hmessages frame hmem
      simpa using hnone
    obtain ⟨reader, hread, hend⟩ := hholds.closed (fun _ => false) hkeepalives
    rw [hread]
    exact ⟨reader, [], rfl, hend, by simp, fun i => rfl⟩
  | cons frame messages =>
    -- The first frame that is no keepalive, with the keepalives in front of it.
    obtain ⟨before, behind, rfl, hbefore, hframe, hbehind⟩ := List.filter_eq_cons_iff.1 hmessages
    rw [List.forall_mem_append, List.forall_mem_cons] at hfits
    have hkeepalives : ∀ frame ∈ before,
        frame.isKeepalive ∧ frame.Fits c.link.reader.maxPayload := by
      intro frame hmem
      exact ⟨by simpa using hbefore frame hmem, hfits.1 frame hmem⟩
    rw [List.flatMap_append, List.flatMap_cons] at hholds
    obtain ⟨reader, hread, hrest, hmax⟩ := hholds.nextFrame (fun _ => false) hkeepalives
      (by simpa using hframe) hfits.2.1
    rw [hread]
    refine ⟨reader, behind, rfl, hrest, ?_, fun i => ?_⟩
    · -- The limit of the reader is the same as before.
      rw [hmax]
      exact hfits.2.2
    · rw [← hbehind]
      rfl

/-- `receives` goes through the frames one by one and in order, whether they are messages or not,
and comes to the end behind the last one.  Nothing but the reader changes. -/
theorem receives_frames (k : Nat) {frames : List Frame} (hpending : c.pending = [])
    (hholds : c.link.reader.Holds (frames.flatMap Frame.octets))
    (hfits : ∀ frame ∈ frames, frame.Fits c.link.reader.maxPayload) :
    ∃ reader, receives k c =
      ((List.range k).map fun i => c.reading (Frame.messages frames)[i]?,
        { c with link := { c.link with reader } }) := by
  induction k generalizing c frames with
  | zero => exact ⟨c.link.reader, rfl⟩
  | succ k ih =>
    obtain ⟨reader, left, hread, hleft, hfits', hnext⟩ := nextMessage_of_holds hholds hfits
    -- The first receive takes the first message, and leaves the frames behind it.
    have hreceive := receive_of_nextMessage hpending hread
    obtain ⟨reader', hrest⟩ :=
      ih (c := { c with link := { c.link with reader } }) hpending hleft hfits'
    refine ⟨reader', ?_⟩
    -- The connection behind the first receive gives frames the same meaning.
    have hmeaning : reading { c with link := { c.link with reader } } = c.reading := rfl
    simp only [receives, hreceive, hrest, hmeaning, List.range_succ_eq_map, List.map_cons,
      List.map_map, Function.comp_def, Nat.succ_eq_add_one, hnext]

end Connection

open Connection in
/-- `before` are keepalives, `init` opens a connection when it comes by itself (`haccept`), and
`behind` are any further frames.  However their octets are cut on the way, `accept` reads `init`,
and `receives` answers for each frame of `behind` that is no keepalive what `decodeFrame` makes of
it: the message under its own `requestId` and from `peerId`, or the error.  Only the reader changes;
the context, `pending` and the next id stay. -/
theorem handover_receives {registry : Registry} {config : HandshakeConfig}
    {limits : ConnectionConfig} {link link₁ : Link} {handshake : Handshake}
    {before behind : List Frame} {init : Frame}
    (hstream : link.reader.Holds ((before ++ init :: behind).flatMap Frame.octets))
    (hbefore : ∀ frame ∈ before, frame.isKeepalive ∧ frame.Fits link.reader.maxPayload)
    (hinit : init.Fits link.reader.maxPayload)
    (hbehind : ∀ frame ∈ behind, frame.Fits limits.maxPayload)
    (haccept : Handshake.accept registry config
      { link with reader := .ofSource (.ofBytes init.octets) link.reader.maxPayload } =
        .ok handshake link₁) :
    ∃ reader, Handshake.accept registry config link = .ok handshake { link₁ with reader } ∧
      let c := ofHandshake { link₁ with reader } registry handshake limits
      (∀ k, ∃ reader', receives k c =
        ((List.range k).map fun i => c.reading (Frame.messages behind)[i]?,
          { c with link := { c.link with reader := reader' } })) ∧
      ∀ frame, c.reading (some frame) =
        match registry.decodeFrame frame handshake.context with
        | .ok m => .ok { m with envelope := ⟨frame.requestId, handshake.peerId⟩ }
        | .error e => .error (.schema e) := by
  -- By itself, the opening frame is read as well.
  have halone := FrameReader.holds_ofBytes init.octets link.reader.maxPayload
  have hframe := Handshake.isKeepalive_eq_false_of_accept halone hinit haccept
  -- This is the reading that `haccept` is about.
  obtain ⟨reader₁, hread₁⟩ := halone.nextFrame_alone Handshake.waitsOut hframe hinit
  rw [List.flatMap_append, List.flatMap_cons] at hstream
  -- On the link, the keepalives are passed over and the same frame is read.
  obtain ⟨reader, hread, hleft, -⟩ :=
    hstream.nextFrame Handshake.waitsOut hbefore hframe hinit
  refine ⟨reader, Handshake.accept_congr hread₁ hread haccept, fun k => ?_, fun frame => ?_⟩
  · exact receives_frames k rfl ⟨hleft.octets, hleft.intact⟩ hbehind
  · exact reading_some _ frame

namespace Connection

/-- A frame that opens a connection under the records of this build. -/
def opening : Frame :=
  ⟨⟨2, 1⟩, 1, [0, 1, 10, 4, 8, 1, 24, 1, 26, 10, 8, 1, 24, 1, 32, 1, 40, 1, 48, 1]⟩

/-- A frame with a field of a type that there is none of. -/
def broken : Frame := ⟨⟨2, 13⟩, 5, [0, 1, 9, 1]⟩

/-- A frame that holds a message. -/
def notice : Frame := ⟨⟨0, 4⟩, 6, [0, 1, 8, 3, 18, 2, 0x6E, 0x6F]⟩

/-- What follows the opening frame. -/
def further : List Frame := [broken, .keepalive, notice]

/-- All these frames on a link, behind a keepalive.  They come in two pieces, the first of them a
few octets at a time, and a read between them is interrupted. -/
def hasty : Link :=
  let bs := (.keepalive :: opening :: further).flatMap Frame.octets
  ⟨.ofSource [.octets (bs.take 50) (some 7), .fault .interrupted, .octets (bs.drop 50) none] 64,
    ⟨.unlimited, 64⟩⟩

/-- The pieces of `hasty` make up the frames, and no read fails for good. -/
theorem hasty_holds :
    hasty.reader.Holds (([Frame.keepalive] ++ opening :: further).flatMap Frame.octets) := by
  refine ⟨by decide +kernel, ?_, fun fault hfault => ?_⟩
  · unfold Source.Steady
    decide +kernel
  · simp only [hasty, FrameReader.ofSource, List.mem_cons, reduceCtorEq, List.not_mem_nil,
      Arrival.fault.injEq, or_false, false_or] at hfault
    exact hfault

/-- A handshake under the records of this build. -/
def agreed : Handshake := ⟨"peer", .main, Handshake.clientContext .main⟩

/-- What was agreed upon in a handshake, if it succeeded. -/
def agreed? : EStateM.Result PeerError Link Handshake → Option Handshake
  | .ok handshake _ => some handshake
  | .error _ _ => none

/-- `accept` of the opening frame by itself. -/
theorem accept_opening : ∃ link, Handshake.accept .standard {}
    { hasty with reader := .ofSource (.ofBytes opening.octets) hasty.reader.maxPayload } =
      .ok agreed link := by
  have hagreed : agreed? (Handshake.accept .standard {}
      { hasty with reader := .ofSource (.ofBytes opening.octets) hasty.reader.maxPayload }) =
        some agreed := by
    decide +kernel
  -- What is evaluated is the agreement; the link it is made on may be left open.
  revert hagreed
  generalize Handshake.accept .standard {} _ = result
  intro hagreed
  cases result with
  | ok handshake link => exact ⟨link, by rw [Option.some.inj hagreed]⟩
  | error e link => cases hagreed

/-- `decodeFrame` refuses the broken frame for its second key. -/
theorem decodeFrame_broken : Registry.standard.decodeFrame broken agreed.context =
    .error (.wire (.unknownWireType 1)) := by
  have hsummary : (Registry.standard.decodeFrame broken agreed.context).map Message.type =
      .error (.wire (.unknownWireType 1)) := by
    decide +kernel
  cases hdecode : Registry.standard.decodeFrame broken agreed.context with
  | ok m => simp [hdecode, Except.map] at hsummary
  | error e =>
    rw [hdecode] at hsummary
    exact congrArg Except.error (Except.error.inj hsummary)

/-- `decodeFrame` reads the notice as a response. -/
theorem decodeFrame_notice : ∃ m, Registry.standard.decodeFrame notice agreed.context = .ok m ∧
    m.type = .core .response := by
  have hsummary : (Registry.standard.decodeFrame notice agreed.context).map Message.type =
      .ok (.core .response) := by
    decide +kernel
  cases hdecode : Registry.standard.decodeFrame notice agreed.context with
  | ok m =>
    rw [hdecode] at hsummary
    exact ⟨m, rfl, Except.ok.inj hsummary⟩
  | error e => simp [hdecode, Except.map] at hsummary

end Connection

open Connection in
/-- `receives` behind the opening frame: the frame that is no message fails, the notice is received
all the same, and nothing else is there. -/
theorem handover_receives_hasty : ∃ link m,
    Handshake.accept .standard {} hasty = .ok agreed link ∧
      (receives 3 (ofHandshake link .standard agreed {})).1 =
        [.error (.schema (.wire (.unknownWireType 1))), .ok m, .error (.disconnected .receive)] ∧
      m.type = .core .response ∧ m.envelope = ⟨6, "peer"⟩ := by
  have hkeepalive : ∀ frame ∈ [Frame.keepalive],
      frame.isKeepalive ∧ frame.Fits hasty.reader.maxPayload := by
    intro frame hmem
    rw [List.mem_singleton.1 hmem]
    exact ⟨rfl, by decide, by decide⟩
  have hfurther : ∀ frame ∈ further, frame.Fits (ConnectionConfig.maxPayload {}) := by
    -- All payloads are short.
    have hsizes : ∀ frame ∈ further, frame.payload.length ≤ 8 := by decide
    intro frame hmem
    have hsize := hsizes frame hmem
    exact ⟨Nat.le_trans hsize (by decide), Nat.le_trans hsize (by decide)⟩
  obtain ⟨link, haccept⟩ := accept_opening
  obtain ⟨reader, hhandshake, hreceives, hreading⟩ :=
    handover_receives hasty_holds hkeepalive ⟨by decide, by decide⟩ hfurther haccept
  obtain ⟨reader', hthree⟩ := hreceives 3
  have hmessages : Frame.messages further = [broken, notice] := by decide
  -- What the frames are received as does not depend on what is left of the link.
  obtain ⟨m, hdecode, htype⟩ := decodeFrame_notice
  have hfirst := hreading broken
  have hsecond := hreading notice
  rw [decodeFrame_broken] at hfirst
  rw [hdecode] at hsecond
  refine ⟨_, { m with envelope := ⟨6, "peer"⟩ }, hhandshake, ?_, htype, rfl⟩
  rw [hthree, hmessages]
  exact congrArg₂ (fun first second => [first, second, _]) hfirst hsecond

end Storefront
