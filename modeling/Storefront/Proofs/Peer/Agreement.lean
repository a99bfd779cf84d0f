import Storefront.Proofs.Peer.Server

/-! # Both sides of a handshake come to the same end

The answer to an opening message is written under records that its reader may not share, so that its
result may be missing.  It never is when a client is turned away, and when a client is let in it makes
no difference: the client goes on.

* `Prepared`             a side that can do its part
* `connect_of_answers`   what a client makes of an answer
* `admission`            what a server makes of the records of a client
* `accept_of_opening`    what becomes of an opening message
* `handshakes_agree`     a client ends as its server does
-/

namespace Storefront

namespace Handshake

open Exchange

/-- Room enough for any message of a handshake. -/
def room : Nat := 64

/-- A side of a handshake that can do its part: it has a name for the other side, time, a sink that
takes what it is given, and room for a message in both directions. -/
structure Prepared (config : HandshakeConfig) (link : Link) : Prop where
  named : ¬ (config.peerId.utf8ByteSize = 0 ∨ maxPeerIdSize < config.peerId.utf8ByteSize)
  time : config.timeout ≠ 0
  message : room ≤ config.maxPayload
  reader : room ≤ link.reader.maxPayload
  writer : room ≤ link.writer.maxPayload
  willing : link.writer.sink.Willing

theorem Prepared.admits {config : HandshakeConfig} {link : Link} {frame : Frame}
    (h : Prepared config link) (hsize : frame.payload.length ≤ room) : Admits config frame :=
  ⟨h.named, h.time, Nat.le_trans hsize h.message⟩

variable {registry : Registry} {config : HandshakeConfig} {link link' : Link} {frame : Frame}

/-- A message of a handshake `Fits` where there is `room` for it. -/
theorem fits_of_room {maxPayload : Nat} (hroom : room ≤ maxPayload)
    (hsize : frame.payload.length ≤ room) : frame.Fits maxPayload :=
  ⟨Nat.le_trans hsize hroom, Nat.le_trans hsize (by decide)⟩

/-- `encode` of a message that is small enough succeeds under the key of its type. -/
theorem encode_of_room {n : Nat} (hn : room ≤ n) {m : Message} {ctx : Context} {key : MessageKey}
    (hkey : (Registry.full n).keyOf m.type = .ok key) (hresult : (m.encode ctx).result = .ok ())
    (hsize : (m.encode ctx).bytes.length ≤ room) :
    (Registry.full n).encode m ctx = .ok (key, (m.encode ctx).bytes) := by
  have hmax : ¬ (Registry.full n).maxMessageSize < (m.encode ctx).bytes.length :=
    Nat.not_lt.2 (Nat.le_trans hsize hn)
  exact Registry.encode_eq_ok_iff.2 ⟨hkey, hresult, rfl, if_neg hmax⟩

/-- The key of the message that opens a connection. -/
def openingKey : Service → MessageKey
  | .auth => ⟨1, 1⟩
  | .main => ⟨2, 1⟩

/-- A full registry knows the opening message of every service by `openingKey`. -/
theorem keyOf_initRequest (n : Nat) (service : Service) :
    (Registry.full n).keyOf service.initRequest = .ok (openingKey service) := by
  cases service <;> rfl

/-- `encode` of every `opening` succeeds. -/
theorem encode_opening {n : Nat} (hn : room ≤ n) (ctx : Context) {service : Service} (id : UInt64)
    (own : VersionRecord service.family) (core : VersionRecord .core) :
    (Registry.full n).encode (.opening service id own core) ctx =
      .ok (openingKey service, ((Message.opening service id own core).encode ctx).bytes) := by
  apply encode_of_room hn (keyOf_initRequest n service)
  · rw [Message.encode_opening]
    rfl
  · exact Message.length_encode_opening ctx id own core

theorem length_unsupportedText (service : Service) :
    (Bytes.ofText (unsupportedText service)).length ≤ 54 := by
  cases service <;> decide

/-- `encode` of every `initResponse` succeeds, if its text is not too long. -/
theorem encode_answer {n : Nat} (hn : room ≤ n) {status : Status} {text : String}
    (hstatus : Width.u32.admits status.code = true) (htext : (Bytes.ofText text).length ≤ 54)
    (ctx : Context) (id : UInt64) :
    (Registry.full n).encode (.initResponse id status text) ctx =
        .ok (⟨0, 1⟩, ((Message.initResponse id status text).encode ctx).bytes) ∧
      ((Message.initResponse id status text).encode ctx).bytes.length ≤ room := by
  have hshort : (Bytes.ofText text).length < 128 := Nat.lt_of_le_of_lt htext (by decide)
  have hsize : ((Message.initResponse id status text).encode ctx).bytes.length ≤ room :=
    Nat.le_trans (Message.length_encode_initResponse hstatus hshort ctx id)
      (Nat.add_le_add_right htext 10)
  refine ⟨?_, hsize⟩
  apply encode_of_room hn (Registry.keyOf_initResponse n) _ hsize
  rw [Message.encode_initResponse hstatus (Nat.lt_trans hshort (by decide))]
  rfl

/-! ## The client -/

/-- What a client does once its request is on its way. -/
def conclude (registry : Registry) (config : HandshakeConfig) : Exchange Handshake := do
  let frame ← receiveInit config
  let answer ← Exchange.ofSchema (registry.decodeFrame frame (clientContext config.service))
  match verdict frame.key answer with
  | .error e => throw e
  | .ok () => pure ⟨config.peerId, config.service, clientContext config.service⟩

/-- `connect` checks the name of its peer, writes and sends its request, and goes on
as `conclude`. -/
theorem connect_eq (registry : Registry) (config : HandshakeConfig) :
    connect registry config = (do
      checkPeerId config.peerId
      let x ← Exchange.ofSchema (registry.encode (.new config.service.initRequest) .empty)
      Exchange.send ⟨x.1, initRequestId, x.2⟩
      conclude registry config) := rfl

/-- How a verdict ends a handshake. -/
def ending (config : HandshakeConfig) (link : Link) :
    Except PeerError Unit → EStateM.Result PeerError Link Handshake
  | .ok () => .ok ⟨config.peerId, config.service, clientContext config.service⟩ link
  | .error e => .error e link

/-- `conclude` of a client that reads an answer passes its `verdict`. -/
theorem conclude_of_answer (h : Prepared config link) (hholds : link.reader.Holds frame.octets)
    (hcarries : frame.isKeepalive = false) (hsize : frame.payload.length ≤ room)
    (writer : FrameWriter) {answer : Message}
    (hdecode : registry.decodeFrame frame (clientContext config.service) = .ok answer) :
    ∃ link', conclude registry config { link with writer } =
      ending config link' (verdict frame.key answer) := by
  -- The only frame in front of the reader is the answer, and it is no keepalive.
  obtain ⟨reader, hread⟩ :=
    hholds.nextFrame_alone waitsOut hcarries (fits_of_room h.reader hsize)
  have hinit : receiveInit config { link with writer } = .ok frame ⟨reader, writer⟩ :=
    receiveInit_of_admits (h.admits hsize) hread
  refine ⟨⟨reader, writer⟩, ?_⟩
  unfold conclude
  rw [bind_of_ok hinit, hdecode]
  simp only [ofSchema, pure_bind]
  cases verdict frame.key answer <;> rfl

/-- `Message.new` of an opening type is the `opening` under `ofLocal` records. -/
theorem new_initRequest (service : Service) : Message.new service.initRequest =
    .opening service 0 (.ofLocal service.family) (.ofLocal .core) := by
  have hfields := Message.fields_new_initRequest service
  unfold Message.opening
  rw [← hfields]
  rfl

/-- The request of a client can be written, and there is `room` for it. -/
theorem encode_request {n : Nat} (hn : room ≤ n) (service : Service) :
    ∃ body, (Registry.full n).encode (.new service.initRequest) .empty =
      .ok (openingKey service, body) ∧ body.length ≤ room := by
  rw [new_initRequest]
  exact ⟨_, encode_opening hn .empty 0 _ _, Message.length_encode_opening .empty 0 _ _⟩

/-- `connect` sends its request, and goes on with `conclude`. -/
theorem connect_of_prepared {n : Nat} (hn : room ≤ n) (h : Prepared config link) :
    ∃ writer, connect (.full n) config link =
      conclude (.full n) config { link with writer } := by
  obtain ⟨body, hencode, hsize⟩ := encode_request hn config.service
  have hfits : Frame.Fits link.writer.maxPayload ⟨openingKey config.service, initRequestId, body⟩ :=
    fits_of_room h.writer hsize
  obtain ⟨writer, hsend, -⟩ := send_of_fits h.willing hfits
  have hname : checkPeerId config.peerId link = .ok () link := checkPeerId_ok_iff.2 ⟨rfl, h.named⟩
  refine ⟨writer, ?_⟩
  rw [connect_eq, bind_of_ok hname, hencode]
  exact bind_of_ok hsend

/-- `connect` reads an answer under its own records, and ends with its `verdict`. -/
theorem connect_of_answers {m n : Nat} (hn : room ≤ n) {config' : HandshakeConfig} {client : Link}
    (h : Prepared config' client) {ctx : Context} {id : UInt64} {status : Status} {text : String}
    (hstatus : Width.u32.admits status.code = true) (htext : (Bytes.ofText text).length ≤ 54)
    (hanswers : Answers (.full m) ctx (.initResponse id status text) link link') {bytes : Bytes}
    (hwritten : link'.writer.sink.written = link.writer.sink.written ++ bytes)
    (hholds : client.reader.Holds bytes) :
    ∃ client', connect (.full n) config' client = ending config' client'
      (verdict ⟨0, 1⟩ ⟨.core .initResponse, { requestId := id },
        Message.told ctx (clientContext config'.service) status text⟩) := by
  obtain ⟨key, body, hencode, -, hsent⟩ := hanswers
  obtain ⟨hnamed, -, rfl, -⟩ := Registry.encode_eq_ok_iff.1 hencode
  obtain rfl : ⟨0, 1⟩ = key := Except.ok.inj ((Registry.keyOf_initResponse m).symm.trans hnamed)
  rw [hwritten, List.append_cancel_left_eq] at hsent
  rw [hsent] at hholds
  -- The registry of the client would have written the same answer, and so can read it.
  obtain ⟨hanswer, hsize⟩ := encode_answer hn hstatus htext ctx id
  obtain ⟨got, hdecode, hdelivered⟩ := @Registry.Sound.decodeFrame_of_encode _
    (Registry.grown_full n).sound _ (Message.regular_initResponse hstatus) ctx ⟨⟨0, 1⟩, id, _⟩
    hanswer (clientContext config'.service)
  rw [Message.fields_of_delivered hstatus hdelivered] at hdecode
  obtain ⟨writer, hconnect⟩ := connect_of_prepared hn h
  rw [hconnect]
  exact conclude_of_answer h hholds rfl hsize writer hdecode

/-- `verdict` on an `.ok` is `.ok`, whether the result was written or not. -/
theorem verdict_accepted (key : MessageKey) (envelope : Envelope) (sender receiver : Context) :
    verdict key ⟨.core .initResponse, envelope, Message.told sender receiver .ok ""⟩ = .ok () := by
  unfold Message.told
  split <;> rfl

/-- `verdict` on a refusal is `rejected` with the condition of `ErrorCode.version`: both sides have
a core record that exchanges the result. -/
theorem verdict_refused (key : MessageKey) (envelope : Envelope) (service service' : Service) :
    verdict key ⟨.core .initResponse, envelope,
        Message.told (Context.empty.set (.ofLocal .core)) (clientContext service)
          ⟨ErrorCode.version.code⟩ (unsupportedText service')⟩ =
      .error (.rejected ErrorCode.version.condition) := by
  cases service <;> rfl

/-! ## The server -/

/-- `decodeFrame` reads an `opening` with its records in normal form. -/
theorem decodeFrame_of_opening {m : Nat} {ctx : Context} {service : Service} {id : UInt64}
    {own : VersionRecord service.family} {core : VersionRecord .core}
    (h : (Registry.full m).encode (.opening service id own core) ctx =
      .ok (frame.key, frame.payload)) :
    (Registry.full m).decodeFrame frame .empty =
      .ok (.opening service frame.requestId own.norm (core.heardWith own)) := by
  obtain ⟨hresolve, -, hsize, -, hbody⟩ := (Registry.grown_full m).sound.encode_ok h
  have hread := Message.decodeInto_opening ctx .empty id own core
  rw [← hbody] at hread
  have htype : (Message.opening service id own core).type = service.initRequest := rfl
  simp only [Registry.decodeFrame, Registry.decode, hsize, hresolve, htype, Message.decode, hread,
    bind, Except.bind, pure, Except.pure]
  rfl

/-- `ofInitRequest?` tells the service from the type of an opening message. -/
theorem ofInitRequest?_initRequest (service : Service) :
    Service.ofInitRequest? service.initRequest = some service := by
  cases service <;> rfl

/-- `greet` reads the opening frame and goes on with `answer`. -/
theorem greet_of_opening {service : Service} {own : VersionRecord service.family}
    {core : VersionRecord .core}
    (hdecode : registry.decodeFrame frame .empty =
      .ok (.opening service frame.requestId own core)) :
    greet registry config frame =
      answer registry config service (.opening service frame.requestId own core) := by
  have htype : (Message.opening service frame.requestId own core).type = service.initRequest := rfl
  unfold greet
  rw [hdecode]
  simp only [ofSchema, pure_bind, htype, ofInitRequest?_initRequest]

/-- `reply` of a server that is `Prepared` goes out. -/
theorem reply_of_prepared {m : Nat} (hm : room ≤ m) (h : Prepared config link) {init : Message}
    {id : UInt64} (hinit : init.envelope = { requestId := id }) {status : Status} {text : String}
    (hstatus : Width.u32.admits status.code = true) (htext : (Bytes.ofText text).length ≤ 54)
    (ctx : Context) (reader : FrameReader) :
    ∃ writer bytes, reply (.full m) ctx init status text { link with reader } =
        .ok () { link with reader, writer } ∧
      writer.sink.written = link.writer.sink.written ++ bytes := by
  have hwilling : ({ link with reader } : Link).writer.sink.Willing := h.willing
  obtain ⟨hencode, hsize⟩ := encode_answer hm hstatus htext ctx id
  obtain ⟨writer, hreply, key, body, -, -, hwritten⟩ :=
    reply_of_encode hwilling hinit hencode (fits_of_room h.writer hsize)
  exact ⟨writer, _, hreply, hwritten⟩

/-- What becomes of a client that brings these records. -/
def admission (config : HandshakeConfig) (service : Service) (own : VersionRecord service.family)
    (core : VersionRecord .core) (link : Link) : EStateM.Result PeerError Link Handshake :=
  if own.isSupported = true ∧ core.isSupported = true then
    .ok ⟨config.peerId, service, (Context.empty.set own).set core⟩ link
  else .error (.handshakeFailed (.unsupportedVersion service)) link

/-- `answer` of a server that is `Prepared` is the `admission`. -/
theorem answer_of_prepared {m : Nat} (hm : room ≤ m) (h : Prepared config link) (service : Service)
    (id : UInt64) (own : VersionRecord service.family) (core : VersionRecord .core)
    (reader : FrameReader) :
    ∃ link' bytes, answer (.full m) config service (.opening service id own core)
        { link with reader } = admission config service own core link' ∧
      link'.writer.sink.written = link.writer.sink.written ++ bytes := by
  have hinit : (Message.opening service id own core).envelope = { requestId := id } := rfl
  unfold admission
  rw [answer_opening]
  by_cases hsupported : own.isSupported = true ∧ core.isSupported = true
  · obtain ⟨writer, bytes, hok, hwritten⟩ :=
      @reply_of_prepared _ _ _ hm h _ _ hinit .ok "" rfl (by decide)
        ((Context.empty.set own).set core) reader
    refine ⟨{ link with reader, writer }, bytes, ?_, hwritten⟩
    -- Accepted: the answer goes out under the records of the client.
    rw [if_pos hsupported, if_pos hsupported]
    exact bind_of_ok hok
  · obtain ⟨writer, bytes, hok, hwritten⟩ :=
      @reply_of_prepared _ _ _ hm h _ _ hinit ⟨ErrorCode.version.code⟩ _ rfl
        (length_unsupportedText service) (Context.empty.set (VersionRecord.ofLocal .core)) reader
    refine ⟨{ link with reader, writer }, bytes, ?_, hwritten⟩
    -- Refused: the answer goes out under the core record of this build alone.
    rw [if_neg hsupported, if_neg hsupported]
    exact bind_of_ok hok

/-- `accept` of an opening message that has been encoded, behind any keepalives, is
the `admission`. -/
theorem accept_of_opening {m : Nat} (hm : room ≤ m) (h : Prepared config link) {service : Service}
    {id : UInt64} {own : VersionRecord service.family} {core : VersionRecord .core} {body : Bytes}
    {keepalives : List Frame} {rest : Bytes}
    (hencode : (Registry.full m).encode (.opening service id own core) .empty =
      .ok (openingKey service, body))
    (hkeepalives : ∀ other ∈ keepalives, other.isKeepalive ∧ other.Fits link.reader.maxPayload)
    (hholds : link.reader.Holds (keepalives.flatMap Frame.octets ++
      (Frame.octets ⟨openingKey service, id, body⟩ ++ rest))) :
    ∃ link' bytes, accept (.full m) config link =
        admission config service own.norm (core.heardWith own) link' ∧
      link'.writer.sink.written = link.writer.sink.written ++ bytes := by
  have hsize : body.length ≤ room := by
    obtain ⟨-, -, rfl, -⟩ := Registry.encode_eq_ok_iff.1 hencode
    exact Message.length_encode_opening .empty id own core
  -- No opening message has the key of keepalives.
  have hcarries : Frame.isKeepalive ⟨openingKey service, id, body⟩ = false := by
    cases service <;> rfl
  obtain ⟨reader, hread, -⟩ :=
    hholds.nextFrame waitsOut hkeepalives hcarries (fits_of_room h.reader hsize)
  rw [accept_of_admits (h.admits hsize) hread, greet_of_opening (decodeFrame_of_opening hencode)]
  exact answer_of_prepared hm h service id own.norm (core.heardWith own) reader

end Handshake

open Handshake in
/-- `connect` ends as `accept` has ended, whatever `accept` has read, when the client receives what
the server has written.

* Where `accept` has succeeded, `connect` succeeds on what it wrote.
* Where `accept` has failed with `unsupportedVersion`, `connect` fails with `rejected` and the
  condition of `ErrorCode.version`.
* `accept` decides on every opening message that a client can `encode`, whatever its records: its
  `admission` lets the client in when both records are of use to it in the form in which it reads
  them (`norm`, `heardWith`), and else turns it away. -/
theorem handshakes_agree {m n : Nat} {config config' : HandshakeConfig} {link client : Link}
    (hn : room ≤ n) (hwilling : link.writer.sink.Willing) (hclient : Prepared config' client) :
    (∀ handshake link' bytes, accept (.full m) config link = .ok handshake link' →
      link'.writer.sink.written = link.writer.sink.written ++ bytes → client.reader.Holds bytes →
      ∃ client', connect (.full n) config' client =
        .ok ⟨config'.peerId, config'.service, clientContext config'.service⟩ client') ∧
    (∀ service link' bytes,
      accept (.full m) config link = .error (.handshakeFailed (.unsupportedVersion service)) link' →
      link'.writer.sink.written = link.writer.sink.written ++ bytes → client.reader.Holds bytes →
      ∃ client', connect (.full n) config' client =
        .error (.rejected ErrorCode.version.condition) client') ∧
    (room ≤ m → Prepared config link →
      ∀ service id (own : VersionRecord service.family) (core : VersionRecord .core), ∃ body,
        (Registry.full m).encode (.opening service id own core) .empty =
          .ok (openingKey service, body) ∧
        ∀ (keepalives : List Frame) (rest : Bytes),
          (∀ other ∈ keepalives, other.isKeepalive ∧ other.Fits link.reader.maxPayload) →
          link.reader.Holds (keepalives.flatMap Frame.octets ++
            (Frame.octets ⟨openingKey service, id, body⟩ ++ rest)) →
          ∃ link' bytes, accept (.full m) config link =
              admission config service own.norm (core.heardWith own) link' ∧
            link'.writer.sink.written = link.writer.sink.written ++ bytes) := by
  have hsettles : Settles (.full m) config link (accept (.full m) config link) :=
    accept_settles hwilling
  refine ⟨?_, ?_, ?_⟩
  · intro handshake link' bytes haccept hwritten hholds
    rw [haccept] at hsettles
    cases hsettles with
    | accepted hopened hsupported hanswer =>
      -- The answer bears `ok`, and whether it was written makes no difference.
      have hconnect := connect_of_answers hn hclient rfl (by decide) hanswer hwritten hholds
      rwa [verdict_accepted] at hconnect
  · intro service link' bytes haccept hwritten hholds
    rw [haccept] at hsettles
    cases hsettles with
    | refused hopened hsupported hanswer =>
      -- The refusal was written under a record that exchanges the result.
      have hconnect := connect_of_answers hn hclient rfl (length_unsupportedText service) hanswer
        hwritten hholds
      rwa [verdict_refused] at hconnect
    | failed he hsilent => exact absurd rfl (he service)
  · intro hm hserver service id own core
    have hencode := encode_opening hm .empty id own core
    exact ⟨_, hencode, fun keepalives rest hkeepalives hholds =>
      accept_of_opening hm hserver hencode hkeepalives hholds⟩

namespace Connection

open Handshake

/-- `receiving` is `Prepared`, with room for nothing else. -/
theorem prepared_receiving (bs : Bytes) : Prepared {} (receiving bs) where
  named := by decide
  time := by decide
  message := by decide
  reader := Nat.le_refl 64
  writer := Nat.le_refl 64
  willing := Sink.willing_unlimited

/-- A core record that exchanges no result with this build. -/
def silentCore : VersionRecord .core :=
  (VersionRecord.ofLocal .core).withCounters [1, 1, 2, 1] rfl

/-- The frame that brings these records. -/
def bringing (own : VersionRecord .main) (core : VersionRecord .core) : Frame :=
  ⟨⟨2, 1⟩, 7, ((Message.opening .main 7 own core).encode .empty).bytes⟩

end Connection

open Handshake Connection in
/-- `accept` and `connect`: a core record without the result is let in, and the client goes on
although the answer holds nothing; a newer record is turned away on both sides. -/
theorem handshakes_agree_silent :
    ((Context.empty.set (.ofLocal .main)).set silentCore).tellsResult = false ∧
    (∃ link client, accept .standard {} (receiving (bringing (.ofLocal .main) silentCore).octets) =
        .ok ⟨"peer", .main, (Context.empty.set (.ofLocal .main)).set silentCore⟩ link ∧
      connect .standard {} (receiving link.writer.sink.written) = .ok agreed client) ∧
    ∃ link client, accept .standard {}
        (receiving (bringing ((VersionRecord.ofLocal .main).withVersion 2) silentCore).octets) =
          .error (.handshakeFailed (.unsupportedVersion .main)) link ∧
      connect .standard {} (receiving link.writer.sink.written) =
        .error (.rejected ErrorCode.version.condition) client := by
  have hagree := fun bs bs' => @handshakes_agree Frame.defaultMaxPayload Frame.defaultMaxPayload
    {} {} (receiving bs) (receiving bs') (by decide) Sink.willing_unlimited
    (prepared_receiving bs')
  have hserver : ∀ own core, ∃ link, accept .standard {} (receiving (bringing own core).octets) =
      admission {} .main own.norm (core.heardWith own) link := by
    intro own core
    obtain ⟨body, hencode, haccept⟩ := (hagree (bringing own core).octets []).2.2 (by decide)
      (prepared_receiving _) .main 7 own core
    obtain ⟨-, -, rfl, -⟩ := Registry.encode_eq_ok_iff.1 hencode
    have hholds : (receiving (bringing own core).octets).reader.Holds
        ([].flatMap Frame.octets ++ ((bringing own core).octets ++ [])) := by
      rw [List.flatMap_nil, List.nil_append, List.append_nil]
      exact FrameReader.holds_ofBytes _ _
    obtain ⟨link, -, hlink, -⟩ := haccept [] [] (List.forall_mem_nil _) hholds
    exact ⟨link, hlink⟩
  refine ⟨by decide, ?_, ?_⟩
  · obtain ⟨link, hlink⟩ := hserver (.ofLocal .main) silentCore
    obtain ⟨client, hclient⟩ := (hagree _ link.writer.sink.written).1 _ link _ hlink
      (List.nil_append _).symm (FrameReader.holds_ofBytes _ _)
    exact ⟨link, client, hlink, hclient⟩
  · obtain ⟨link, hlink⟩ := hserver ((VersionRecord.ofLocal .main).withVersion 2) silentCore
    obtain ⟨client, hclient⟩ := (hagree _ link.writer.sink.written).2.1 _ link _ hlink
      (List.nil_append _).symm (FrameReader.holds_ofBytes _ _)
    exact ⟨link, client, hlink, hclient⟩

end Storefront
