import Storefront.Proofs.Frame.Delivery
import Storefront.Proofs.Frame.Reassembly
import Storefront.Proofs.Peer.Answer
import Storefront.Proofs.Peer.Handover
import Storefront.Proofs.Store.Registry
import Storefront.Proofs.Version.Opening

/-! # What a server does about an opening message

A server reads one message, writes one answer, and is done.  On a sink that takes what it is given
there are three ways for this to end: the client is let in and told so, it is turned away and told
so, or nothing has been written.

* `Opened`             a frame that opens a connection
* `accept_settles`     the three ways for a handshake to end
* `accept_answers`     what each of them means
-/

namespace Storefront

/-- `ofInitRequest?` names the service whose `initRequest` the type is. -/
theorem Service.initRequest_of_ofInitRequest? {type : MessageType} {service : Service}
    (h : Service.ofInitRequest? type = some service) : type = service.initRequest := by
  unfold ofInitRequest? at h
  split at h <;> cases h <;> rfl

/-- `decodeFrame` of an opening type makes an `opening` with two version records. -/
theorem Registry.decodeFrame_opening {registry : Registry} {frame : Frame} {ctx : Context}
    {init : Message} {service : Service} (h : registry.decodeFrame frame ctx = .ok init)
    (hservice : Service.ofInitRequest? init.type = some service) :
    ∃ (own : VersionRecord service.family) (core : VersionRecord .core),
      init = .opening service frame.requestId own core := by
  have htype := Service.initRequest_of_ofInitRequest? hservice
  obtain ⟨hresolve, -⟩ := decodeFrame_ok h
  unfold decodeFrame decode at h
  cases hsize : registry.checkSize frame.payload with
  | error e => simp [hsize, bind, Except.bind] at h
  | ok u =>
    simp only [hsize, hresolve, htype, bind, Except.bind, Message.decode] at h
    rcases hread : Message.decodeInto ctx frame.payload (.new service.initRequest) with
      ⟨m, _ | _⟩
    · simp [hread] at h
    · have hnew : (Message.new service.initRequest).type = service.initRequest := rfl
      have hstart := Message.fields_new_initRequest service
      -- A new opening message that has been read holds what stands in the two records.
      obtain ⟨index, own, core, hindex, hversion, hopens⟩ :=
        Message.opens_of_decodeInto hnew hstart (congrArg Prod.snd hread)
      have hfields := Message.decodeInto_of_opens hnew hstart hindex hversion hopens
      rw [hread, Prod.mk.injEq] at hfields
      simp only [hread, pure, Except.pure, Except.ok.injEq] at h
      rw [hfields.1] at h
      exact ⟨own, core, h.symm⟩

namespace Exchange

variable {α β : Type}

/-- `Exchange.send` of a frame that `Fits` puts it on a `Willing` sink as a whole. -/
theorem send_of_fits {link : Link} {frame : Frame} (h : link.writer.sink.Willing)
    (hfits : frame.Fits link.writer.maxPayload) :
    ∃ writer, Exchange.send frame link = .ok () { link with writer } ∧
      writer.sink.written = link.writer.sink.written ++ frame.octets := by
  obtain ⟨writer, hsend, hwritten⟩ := FrameWriter.send_of_fits h hfits
  refine ⟨writer, ?_, hwritten⟩
  unfold Exchange.send
  rw [hsend]

/-- The outcome of an exchange that has written nothing, and that is not the refusal of a version.
-/
def Quiet (link : Link) : EStateM.Result PeerError Link α → Prop
  | .ok _ link' => link'.writer = link.writer
  | .error e link' => link'.writer = link.writer ∧
    ∀ service, e ≠ .handshakeFailed (.unsupportedVersion service)

/-- An exchange that writes nothing and refuses no version. -/
def OnlyReads (exchange : Exchange α) : Prop := ∀ link, Quiet link (exchange link)

theorem onlyReads_pure (a : α) : OnlyReads (pure a) := fun _ => rfl

theorem onlyReads_throw {e : PeerError}
    (he : ∀ service, e ≠ .handshakeFailed (.unsupportedVersion service)) :
    OnlyReads (α := α) (throw e) := fun _ => ⟨rfl, he⟩

/-- `OnlyReads` of two exchanges is `OnlyReads` of one after the other. -/
theorem onlyReads_bind {exchange : Exchange α} {next : α → Exchange β} (h : OnlyReads exchange)
    (hnext : ∀ a, OnlyReads (next a)) : OnlyReads (exchange >>= next) := by
  intro link
  have hfirst := h link
  cases hcase : exchange link with
  | error e link₁ =>
    rw [hcase] at hfirst
    rw [bind_of_error hcase]
    exact hfirst
  | ok a link₁ =>
    rw [hcase] at hfirst
    rw [bind_of_ok hcase]
    have hrest := hnext a link₁
    -- Nothing has been written so far, so it does not matter from which link one looks.
    unfold Quiet at hfirst hrest ⊢
    rw [hfirst] at hrest
    exact hrest

/-- `receive` uses the reader alone, and its errors refuse no version. -/
theorem onlyReads_receive (patient : IoFault → Bool) (during : Phase) :
    OnlyReads (receive patient during) := by
  intro link
  unfold receive
  rcases link.reader.nextFrame patient with ⟨e | frame, reader⟩
  · refine ⟨rfl, fun service => ?_⟩
    -- A reader fails with errors of the wire, or as disconnected.
    cases e <;> simp [PeerError.ofRead]
  · rfl

end Exchange

namespace Handshake

open Exchange

/-- `checkPeerId` looks at the name alone. -/
theorem onlyReads_checkPeerId (peerId : String) : OnlyReads (checkPeerId peerId) := by
  unfold checkPeerId
  split
  · exact onlyReads_throw (by simp)
  · exact onlyReads_pure _

/-- `receiveInit` reads one frame, and writes nothing when it is too large. -/
theorem onlyReads_receiveInit (config : HandshakeConfig) : OnlyReads (receiveInit config) := by
  unfold receiveInit
  split
  · exact onlyReads_throw (by simp)
  · apply onlyReads_bind (onlyReads_receive _ _)
    intro frame
    split
    · exact onlyReads_throw (by simp)
    · exact onlyReads_pure _

/-- On a link an opening frame has been read from behind keepalives.  It brings these records. -/
structure Opened (registry : Registry) (link link' : Link) (frame : Frame) (service : Service)
    (own : VersionRecord service.family) (core : VersionRecord .core) : Prop where
  message : registry.decodeFrame frame .empty =
    .ok (.opening service frame.requestId own core)
  carries : frame.isKeepalive = false
  octets : ∃ keepalives : List Frame, (∀ other ∈ keepalives, other.isKeepalive = true) ∧
    link.reader.buffer ++ link.reader.source.octets =
      keepalives.flatMap Frame.octets ++
        (frame.octets ++ (link'.reader.buffer ++ link'.reader.source.octets))

/-- An answer has gone out on a link, in one frame and under these records. -/
def Answers (registry : Registry) (ctx : Context) (answer : Message) (link link' : Link) : Prop :=
  ∃ key body, registry.encode answer ctx = .ok (key, body) ∧ body.length ≤ Frame.payloadLimit ∧
    link'.writer.sink.written =
      link.writer.sink.written ++ Frame.octets ⟨key, answer.envelope.requestId, body⟩

/-- The ways for the handshake of a server to end. -/
inductive Settles (registry : Registry) (config : HandshakeConfig) (link : Link) :
    EStateM.Result PeerError Link Handshake → Prop
  /-- The client has been told that it is let in. -/
  | accepted {frame : Frame} {service : Service} {own : VersionRecord service.family}
    {core : VersionRecord .core} {link' : Link}
    (hopened : Opened registry link link' frame service own core)
    (hsupported : own.isSupported = true ∧ core.isSupported = true)
    (hanswer : Answers registry ((Context.empty.set own).set core)
      (.initResponse frame.requestId .ok "") link link') :
    Settles registry config link
      (.ok ⟨config.peerId, service, (Context.empty.set own).set core⟩ link')
  /-- The client has been told that it is turned away. -/
  | refused {frame : Frame} {service : Service} {own : VersionRecord service.family}
    {core : VersionRecord .core} {link' : Link}
    (hopened : Opened registry link link' frame service own core)
    (hsupported : ¬ (own.isSupported = true ∧ core.isSupported = true))
    (hanswer : Answers registry (Context.empty.set (VersionRecord.ofLocal .core))
      (.initResponse frame.requestId ⟨ErrorCode.version.code⟩ (unsupportedText service))
      link link') :
    Settles registry config link (.error (.handshakeFailed (.unsupportedVersion service)) link')
  /-- Nothing has been written. -/
  | failed {e : PeerError} {link' : Link}
    (he : ∀ service, e ≠ .handshakeFailed (.unsupportedVersion service))
    (hsilent : link'.writer = link.writer) : Settles registry config link (.error e link')

variable {registry : Registry} {config : HandshakeConfig} {link link' : Link}

/-- `reply` encodes the response to a message and sends it under the id of that. -/
theorem reply_eq (registry : Registry) (ctx : Context) {init : Message} {id : UInt64}
    (hinit : init.envelope = { requestId := id }) (status : Status) (text : String) (link : Link) :
    reply registry ctx init status text link =
      (ofSchema (registry.encode (.initResponse id status text) ctx) >>= fun x =>
        Exchange.send ⟨x.1, id, x.2⟩) link := by
  have hanswer : ({ Message.new (.core .initResponse) with
      envelope := init.envelope } : Message).withStatus status text =
        .initResponse id status text := by
    rw [hinit]
    rfl
  have hid : init.envelope.requestId = id := by rw [hinit]
  rw [← hanswer, ← hid]
  rfl

/-- `reply` of a message that can be encoded and is small enough puts it on the sink as a whole. -/
theorem reply_of_encode (hwilling : link.writer.sink.Willing) {ctx : Context} {init : Message}
    {id : UInt64} (hinit : init.envelope = { requestId := id }) {status : Status} {text : String}
    {key : MessageKey} {body : Bytes}
    (hencode : registry.encode (.initResponse id status text) ctx = .ok (key, body))
    (hfits : Frame.Fits link.writer.maxPayload ⟨key, id, body⟩) :
    ∃ writer, reply registry ctx init status text link = .ok () { link with writer } ∧
      Answers registry ctx (.initResponse id status text) link { link with writer } := by
  obtain ⟨writer, hsend, hwritten⟩ := send_of_fits hwilling hfits
  refine ⟨writer, ?_, key, body, hencode, hfits.header, hwritten⟩
  -- What is encoded is what is sent.
  rw [reply_eq registry ctx hinit, hencode]
  exact hsend

/-- `reply` puts its message on the sink as a whole, or nothing. -/
theorem reply_cases (hwilling : link.writer.sink.Willing) (ctx : Context) (init : Message)
    {id : UInt64} (hinit : init.envelope = { requestId := id }) (status : Status) (text : String) :
    (∃ writer, reply registry ctx init status text link = .ok () { link with writer } ∧
        Answers registry ctx (.initResponse id status text) link { link with writer }) ∨
      ∃ e, reply registry ctx init status text link = .error e link ∧
        ∀ service, e ≠ .handshakeFailed (.unsupportedVersion service) := by
  cases hencode : registry.encode (.initResponse id status text) ctx with
  | error e =>
    right
    rw [reply_eq registry ctx hinit, hencode]
    -- Nothing is written before all of the answer is encoded.
    exact ⟨.schema e, rfl, by simp⟩
  | ok x =>
    obtain ⟨key, body⟩ := x
    by_cases hfits : Frame.Fits link.writer.maxPayload ⟨key, id, body⟩
    · left
      exact reply_of_encode hwilling hinit hencode hfits
    · right
      -- `send` refuses a payload that is too large before it writes.
      obtain ⟨size, max, hsend⟩ := FrameWriter.send_of_not_fits hfits
      refine ⟨.wire (.payloadTooLarge size max), ?_, by simp⟩
      rw [reply_eq registry ctx hinit, hencode]
      show Exchange.send ⟨key, id, body⟩ link = _
      simp only [Exchange.send, hsend]

/-- `clientRecords` of an `opening` are those it was made from. -/
theorem clientRecords_opening (service : Service) (id : UInt64)
    (own : VersionRecord service.family) (core : VersionRecord .core) :
    clientRecords service (.opening service id own core) = (own, core) :=
  Prod.ext (VersionRecord.ofValue_toValue own) (VersionRecord.ofValue_toValue core)

/-- `answer` is written under the records of the client when both can be used, and else under the
core record of this build. -/
theorem answer_opening (registry : Registry) (config : HandshakeConfig) (service : Service)
    (id : UInt64) (own : VersionRecord service.family) (core : VersionRecord .core) (link : Link) :
    answer registry config service (.opening service id own core) link =
      if own.isSupported = true ∧ core.isSupported = true then
        (reply registry ((Context.empty.set own).set core) (.opening service id own core) .ok ""
          >>= fun _ => pure ⟨config.peerId, service, (Context.empty.set own).set core⟩) link
      else
        (reply registry (Context.empty.set (VersionRecord.ofLocal .core))
            (.opening service id own core) ⟨ErrorCode.version.code⟩ (unsupportedText service)
          >>= fun _ => throw (.handshakeFailed (.unsupportedVersion service))) link := by
  unfold answer
  rw [clientRecords_opening]
  simp only [Bool.and_eq_true]
  split <;> rfl

/-- `answer` to the records of a client lets it in or turns it away, and says so. -/
theorem answer_settles (hwilling : link.writer.sink.Willing) {frame : Frame} {reader : FrameReader}
    {service : Service} {own : VersionRecord service.family} {core : VersionRecord .core}
    (hread : link.reader.nextFrame waitsOut = (.ok frame, reader))
    (hinit : registry.decodeFrame frame .empty =
      .ok (.opening service frame.requestId own core)) :
    Settles registry config link
      (answer registry config service (.opening service frame.requestId own core)
        { link with reader }) := by
  obtain ⟨hcarries, hoctets⟩ := FrameReader.nextFrame_octets hread
  -- The frame has been read whatever becomes of the writer.
  have hopened : ∀ writer,
      Opened registry link { link with reader, writer } frame service own core :=
    fun writer => ⟨hinit, hcarries, hoctets⟩
  rw [answer_opening]
  by_cases hsupported : own.isSupported = true ∧ core.isSupported = true
  · rw [if_pos hsupported]
    rcases @reply_cases registry { link with reader } hwilling ((Context.empty.set own).set core)
      (.opening service frame.requestId own core) frame.requestId rfl .ok "" with
      ⟨writer, hreply, hanswer⟩ | ⟨e, hreply, he⟩
    · rw [bind_of_ok hreply]
      exact .accepted (hopened writer) hsupported hanswer
    · rw [bind_of_error hreply]
      exact .failed he rfl
  · rw [if_neg hsupported]
    rcases @reply_cases registry { link with reader } hwilling
      (Context.empty.set (VersionRecord.ofLocal .core))
      (.opening service frame.requestId own core) frame.requestId rfl ⟨ErrorCode.version.code⟩
      (unsupportedText service) with
      ⟨writer, hreply, hanswer⟩ | ⟨e, hreply, he⟩
    · rw [bind_of_ok hreply]
      exact .refused (hopened writer) hsupported hanswer
    · rw [bind_of_error hreply]
      exact .failed he rfl

/-- `greet` makes of an opening frame one of the three endings. -/
theorem greet_settles (hwilling : link.writer.sink.Willing) {frame : Frame} {reader : FrameReader}
    (hread : link.reader.nextFrame waitsOut = (.ok frame, reader)) :
    Settles registry config link (greet registry config frame { link with reader }) := by
  unfold greet
  cases hdecode : registry.decodeFrame frame .empty with
  | error e => exact .failed (by simp) rfl
  | ok init =>
    simp only [ofSchema, pure_bind]
    cases hservice : Service.ofInitRequest? init.type with
    | none => exact .failed (by simp) rfl
    | some service =>
      obtain ⟨own, core, rfl⟩ := Registry.decodeFrame_opening hdecode hservice
      exact answer_settles hwilling hread hdecode

/-- `accept` ends in one of three ways. -/
theorem accept_settles (hwilling : link.writer.sink.Willing) :
    Settles registry config link (accept registry config link) := by
  rw [accept_eq]
  cases hname : checkPeerId config.peerId link with
  | error e link₀ =>
    -- The name is refused before anything is read.
    have hquiet := onlyReads_checkPeerId config.peerId link
    rw [hname] at hquiet
    rw [bind_of_error hname]
    exact .failed hquiet.2 hquiet.1
  | ok u link₀ =>
    obtain ⟨rfl, -⟩ := checkPeerId_ok_iff.1 hname
    rw [bind_of_ok hname]
    cases hinit : receiveInit config link₀ with
    | error e link₁ =>
      -- No opening frame has come.
      have hquiet := onlyReads_receiveInit config link₀
      rw [hinit] at hquiet
      rw [bind_of_error hinit]
      exact .failed hquiet.2 hquiet.1
    | ok frame link₁ =>
      obtain ⟨reader, hread, -, -, rfl⟩ := receiveInit_ok_iff.1 hinit
      rw [bind_of_ok hinit]
      exact greet_settles hwilling hread

end Handshake

namespace VersionRecord

variable {family : Family} {r : VersionRecord family}

/-- `isSupported` asks for a revision that is known and one feature at least. -/
theorem isSupported_iff :
    r.isSupported = true ↔ r.version ≤ localMax ∧ ∃ c ∈ r.counters, c ≠ unsupported := by
  simp [isSupported, isCleared]

/-- `isSupported` is false when a record is newer or has every feature cleared. -/
theorem not_isSupported_iff : ¬ r.isSupported = true ↔
    localMax < r.version ∨ ∀ c ∈ r.counters, c = unsupported := by
  rw [isSupported_iff, not_and_or, UInt32.not_le]
  simp only [not_exists, not_and, not_not]

end VersionRecord

/-- `negotiated` of an accepted client answers its two records. -/
theorem Context.negotiated_of_records {service : Service} {own : VersionRecord service.family}
    {core : VersionRecord .core} {family : Family} {r : VersionRecord family}
    (h : ((Context.empty.set own).set core).negotiated family = some r)
    (hown : own.isSupported = true) (hcore : core.isSupported = true) : r.isSupported = true := by
  cases service <;> cases family <;> cases h <;> assumption

open Handshake in
/-- On a sink that takes what it is given, `Handshake.accept` ends in one of three ways.

* `.ok`: the first frame that is no keepalive has brought two version records that are
  `isSupported`, and these are all that the `context` holds.  One frame has been written: an
  `initResponse` with `.ok`, under the `requestId` of the first frame and encoded under these
  records.
* `unsupportedVersion`: the first frame that is no keepalive has brought a record whose revision is
  above `localMax` or whose `counters` are all `unsupported`.  One frame has been written, under the
  `requestId` of the first frame: an `initResponse` with `ErrorCode.version` and a text.
* Any other error: nothing has been written. -/
theorem accept_answers {registry : Registry} {config : HandshakeConfig} {link : Link}
    (hkey : ∀ key, registry.keyOf (.core .initResponse) = .ok key → key = ⟨0, 1⟩)
    (hwilling : link.writer.sink.Willing) :
    match Handshake.accept registry config link with
    | .ok handshake link' =>
      ∃ frame service own core body, Opened registry link link' frame service own core ∧
        own.isSupported = true ∧ core.isSupported = true ∧
        handshake = ⟨config.peerId, service, (Context.empty.set own).set core⟩ ∧
        (∀ family (r : VersionRecord family), handshake.context.negotiated family = some r →
          r.version ≤ VersionRecord.localMax ∧ ∃ c ∈ r.counters, c ≠ VersionRecord.unsupported) ∧
        registry.encode (.initResponse frame.requestId .ok "") handshake.context =
          .ok (⟨0, 1⟩, body) ∧
        link'.writer.sink.written =
          link.writer.sink.written ++ Frame.octets ⟨⟨0, 1⟩, frame.requestId, body⟩
    | .error (.handshakeFailed (.unsupportedVersion service)) link' =>
      ∃ frame own core body, Opened registry link link' frame service own core ∧
        ((VersionRecord.localMax < own.version ∨
            ∀ c ∈ own.counters, c = VersionRecord.unsupported) ∨
          VersionRecord.localMax < core.version ∨
            ∀ c ∈ core.counters, c = VersionRecord.unsupported) ∧
        Message.decode (Context.empty.set (VersionRecord.ofLocal .core)) (.core .initResponse)
          body = .ok (.initResponse 0 ⟨ErrorCode.version.code⟩ (unsupportedText service)) ∧
        unsupportedText service ≠ "" ∧
        link'.writer.sink.written =
          link.writer.sink.written ++ Frame.octets ⟨⟨0, 1⟩, frame.requestId, body⟩
    | .error _ link' => link'.writer.sink.written = link.writer.sink.written := by
  have hsettles : Settles registry config link (Handshake.accept registry config link) :=
    accept_settles hwilling
  generalize Handshake.accept registry config link = result at hsettles
  cases hsettles with
  | @accepted frame service own core link' hopened hsupported hanswer =>
    obtain ⟨key, body, hencode, -, hwritten⟩ := hanswer
    -- The registry has one key for the answer.
    obtain rfl := hkey key (Registry.encode_eq_ok_iff.1 hencode).1
    refine ⟨frame, service, own, core, body, hopened, hsupported.1, hsupported.2, rfl, ?_,
      hencode, hwritten⟩
    -- The context holds the two records and no other.
    intro family r hr
    exact VersionRecord.isSupported_iff.1
      (Context.negotiated_of_records hr hsupported.1 hsupported.2)
  | @refused frame service own core link' hopened hsupported hanswer =>
    obtain ⟨key, body, hencode, -, hwritten⟩ := hanswer
    obtain ⟨hnamed, hresult, hbody, -⟩ := Registry.encode_eq_ok_iff.1 hencode
    obtain rfl := hkey key hnamed
    have hread := Message.decode_initResponse (by decide) hresult
    rw [hbody] at hread
    have htext : unsupportedText service ≠ "" := by cases service <;> decide
    refine ⟨frame, own, core, body, hopened, ?_, hread _, htext, hwritten⟩
    -- One of the two records is not supported.
    rwa [not_and_or, VersionRecord.not_isSupported_iff, VersionRecord.not_isSupported_iff]
      at hsupported
  | @failed e link' he hsilent =>
    have hwritten : link'.writer.sink.written = link.writer.sink.written := by rw [hsilent]
    -- Only the refusal of a version has an arm of its own, and this is none.
    split
    · cases ‹_ = _›
    · cases ‹_ = _›
      exact absurd rfl (he _)
    · cases ‹_ = _›
      exact hwritten

/-- In the full registry, the answer to an opening message has the key `0:1`. -/
theorem Registry.keyOf_initResponse (maxMessageSize : Nat) :
    (full maxMessageSize).keyOf (.core .initResponse) = .ok ⟨0, 1⟩ := rfl

namespace Connection

/-- A frame that opens a connection under a newer record. -/
def openingNewer : Frame :=
  ⟨⟨2, 1⟩, 3, [0, 1, 10, 4, 8, 2, 24, 1, 26, 10, 8, 1, 24, 1, 32, 1, 40, 1, 48, 1]⟩

/-- A link on which some octets have come. -/
def receiving (bs : Bytes) : Link :=
  { hasty with reader := .ofSource (.ofBytes bs) hasty.reader.maxPayload }

/-- For which service a client was turned away, if it was. -/
def refused? : EStateM.Result PeerError Link Handshake → Option Service
  | .error (.handshakeFailed (.unsupportedVersion service)) _ => some service
  | _ => none

/-- `accept` turns away a client with a newer record. -/
theorem accept_openingNewer : ∃ link, Handshake.accept .standard {} (receiving openingNewer.octets) =
    .error (.handshakeFailed (.unsupportedVersion .main)) link := by
  have hrefused : refused? (Handshake.accept .standard {} (receiving openingNewer.octets)) =
      some .main := by
    decide +kernel
  revert hrefused
  generalize Handshake.accept .standard {} _ = result
  intro hrefused
  unfold refused? at hrefused
  split at hrefused
  · cases hrefused
    exact ⟨_, rfl⟩
  · cases hrefused

end Connection

open Connection in
/-- `accept` of a client of this build lets it in and writes one frame; of one with a newer record
it writes one frame with the reason. -/
theorem accept_answers_opening :
    (∃ link id body, Handshake.accept .standard {} (receiving opening.octets) = .ok agreed link ∧
      link.writer.sink.written = Frame.octets ⟨⟨0, 1⟩, id, body⟩) ∧
    ∃ link id body, Handshake.accept .standard {} (receiving openingNewer.octets) =
        .error (.handshakeFailed (.unsupportedVersion .main)) link ∧
      Message.decode (Context.empty.set (VersionRecord.ofLocal .core)) (.core .initResponse) body =
        .ok (.initResponse 0 ⟨5⟩ "unsupported main protocol version") ∧
      link.writer.sink.written = Frame.octets ⟨⟨0, 1⟩, id, body⟩ := by
  have hkey : ∀ key, Registry.standard.keyOf (.core .initResponse) = .ok key → key = ⟨0, 1⟩ := by
    intro key h
    rw [Registry.standard, Registry.keyOf_initResponse, Except.ok.injEq] at h
    exact h.symm
  constructor
  · obtain ⟨link, haccept⟩ := accept_opening
    have hanswers := @accept_answers .standard {} (receiving opening.octets) hkey Sink.willing_unlimited
    rw [receiving, haccept] at hanswers
    obtain ⟨frame, service, own, core, body, -, -, -, -, -, -, hwritten⟩ := hanswers
    exact ⟨link, frame.requestId, body, haccept, hwritten⟩
  · obtain ⟨link, haccept⟩ := accept_openingNewer
    have hanswers := @accept_answers .standard {} (receiving openingNewer.octets) hkey
      Sink.willing_unlimited
    rw [haccept] at hanswers
    obtain ⟨frame, own, core, body, -, -, hread, -, hwritten⟩ := hanswers
    exact ⟨link, frame.requestId, body, haccept, hread, hwritten⟩

end Storefront
