import Storefront.Proofs.Peer.Session
import Storefront.Proofs.Peer.Speaker

/-! # Requests and what they come to

In a dialogue two sides send messages, make requests and answer those that they have received, in
any order, and what one writes is carried to the other in pieces of any size.

Both sides number their messages alike.  So what a request comes to is the answer to it, or else a
message of the other side's own that happens to have the same number.

* `Conveys`             the invariant of one direction
* `Joined.run?`         no run breaks it
* `request_comes_to`    what a request comes to
* `request_misled`      it need not be the answer
-/

namespace Storefront

/-- Both sides of a dialogue. -/
abbrev Dialogue := Side → Speaker

/-- What happens in a dialogue. -/
inductive Move where
  | act (side : Side) (act : Act)
  /-- Octets that a side has written reach the other, where reads will meet them as `arrivals`. -/
  | carry (side : Side) (arrivals : Source)

namespace Dialogue

/-- What a move makes of a dialogue. -/
def after? (s : Dialogue) : Move → Option Dialogue
  | .act side act => ((s side).act? act).map (Function.update s side)
  | .carry side arrivals =>
    if arrivals.octets <+: (s side).outgoing then
      let listener := s side.other
      let link := listener.connection.link
      let reader := { link.reader with source := link.reader.source ++ arrivals }
      let talker := { s side with carried := (s side).carried + arrivals.octets.length }
      some (Function.update (Function.update s side talker) side.other
        { listener with connection := { listener.connection with link := { link with reader } } })
    else none

/-- What moves in a row make of a dialogue. -/
def run? (s : Dialogue) (moves : List Move) : Option Dialogue := moves.foldlM after? s

end Dialogue

/-! ## One direction -/

/-- The invariant of one direction: what the listener is in front of, and what it has read, are
utterances of the talker. -/
structure Conveys (r : Registry) (talker listener : Speaker) : Prop where
  limit : talker.connection.link.writer.maxPayload ≤ listener.connection.link.reader.maxPayload
  carried : talker.carried ≤ talker.written.length
  frames : ∃ frames, listener.connection.link.reader.Faces talker.outgoing frames ∧
    ∀ frame ∈ Frame.messages frames, ∃ u ∈ talker.said, u.InFrame r frame
  messages : ∀ m ∈ listener.messages, ∃ u ∈ talker.said, u.ReadAs m

namespace Conveys

variable {r : Registry} {talker talker' listener listener' : Speaker}

/-- What a talker says in addition is part of what `Conveys` says. -/
theorem speaks (h : Conveys r talker listener) (hspeaks : talker.Speaks r talker') :
    Conveys r talker' listener := by
  obtain ⟨frames, hfaces, hframes⟩ := h.frames
  obtain ⟨news, hwritten, hfits, hnews⟩ := hspeaks.frames
  have houtgoing : talker'.outgoing = talker.outgoing ++ news.flatMap Frame.octets := by
    rw [Speaker.outgoing, Speaker.outgoing, hspeaks.carried, hwritten,
      List.drop_append_of_le_length h.carried]
  refine ⟨?_, ?_, ⟨frames ++ news, ?_, fun frame hframe => ?_⟩, fun m hm => ?_⟩
  · rw [hspeaks.limit]
    exact h.limit
  · rw [hspeaks.carried, hwritten, List.length_append]
    exact Nat.le_add_right_of_le h.carried
  · rw [houtgoing]
    exact hfaces.writtenAll fun frame hframe => (hfits frame hframe).mono h.limit
  · rw [Frame.messages, List.filter_append, List.mem_append] at hframe
    rcases hframe with hframe | hframe
    · obtain ⟨u, hu, hin⟩ := hframes frame hframe
      exact ⟨u, hspeaks.said hu, hin⟩
    · exact hnews frame hframe
  · obtain ⟨u, hu, hread⟩ := h.messages m hm
    exact ⟨u, hspeaks.said hu, hread⟩

/-- `Conveys` is kept by whatever a listener does with what it is in front of. -/
theorem listens (h : Conveys r talker listener) (hregistry : listener.connection.registry = r)
    (hlistens : listener.Listens listener') : Conveys r talker listener' := by
  obtain ⟨frames, hfaces, hframes⟩ := h.frames
  cases hlistens with
  | nothing hreader hmessages =>
    refine ⟨?_, h.carried, ⟨frames, ?_, hframes⟩, fun m hm => h.messages m (hmessages hm)⟩
    · rw [hreader]
      exact h.limit
    · rw [hreader]
      exact hfaces
  | message hreader hmessages =>
    have hmax := FrameReader.nextMessage_maxPayload listener.connection.meaning
      listener.connection.link.reader
    obtain ⟨left, hleft, hsubset, hnew⟩ := hfaces.nextMessage listener.connection.meaning
    refine ⟨?_, h.carried, ⟨left, ?_, fun frame hframe => hframes frame (hsubset hframe)⟩,
      fun m hm => ?_⟩
    · rw [hreader, hmax]
      exact h.limit
    · rw [hreader]
      exact hleft
    · rcases hmessages m hm with hm | hm
      · exact h.messages m hm
      · -- A message that has just been read was in one of the frames.
        obtain ⟨frame, hframe, hmeaning⟩ := hnew m hm
        obtain ⟨u, hu, hin⟩ := hframes frame hframe
        rw [← hregistry] at hin
        exact ⟨u, hu, hin.readAs hmeaning⟩

/-- Octets that are `carried` over are the next ones that the listener comes to. -/
theorem carry (h : Conveys r talker listener) {arrivals : Source}
    (harrivals : arrivals.octets <+: talker.outgoing) :
    Conveys r { talker with carried := talker.carried + arrivals.octets.length }
      { listener with connection := { listener.connection with
        link := { listener.connection.link with reader := { listener.connection.link.reader with
          source := listener.connection.link.reader.source ++ arrivals } } } } := by
  obtain ⟨frames, hfaces, hframes⟩ := h.frames
  obtain ⟨left, hleft⟩ := harrivals
  have hlength : arrivals.octets.length ≤ talker.outgoing.length := by
    rw [← hleft, List.length_append]
    omega
  refine ⟨h.limit, ?_, ⟨frames, ?_, hframes⟩, h.messages⟩
  · have hcarried := h.carried
    rw [Speaker.outgoing, List.length_drop] at hlength
    show talker.carried + arrivals.octets.length ≤ talker.written.length
    omega
  · -- What was behind the octets that are carried is what is outgoing now.
    have houtgoing : talker.written.drop (talker.carried + arrivals.octets.length) = left := by
      rw [← List.drop_drop]
      show talker.outgoing.drop _ = left
      rw [← hleft, List.drop_left]
    show FrameReader.Faces _ (talker.written.drop (talker.carried + arrivals.octets.length)) frames
    rw [houtgoing]
    rw [← hleft] at hfaces
    exact hfaces.arrive

end Conveys

/-! ## Both sides -/

namespace Dialogue

/-- The invariant of a dialogue. -/
structure Joined (r : Registry) (s : Dialogue) : Prop where
  registry : ∀ side, (s side).connection.registry = r
  orderly : ∀ side, (s side).Orderly
  conveys : ∀ side, Conveys r (s side) (s side.other)

/-- Two connections after their handshakes, neither of which has said or received anything so far.
Each takes frames as large as the other may send. -/
structure Begins (r : Registry) (s : Dialogue) : Prop where
  grown : r.Grown
  handshaken : ∀ side, ∃ link handshake config,
    (s side).connection = .ofHandshake link r handshake config
  limit : ∀ side, (s side).connection.link.writer.maxPayload ≤
    (s side.other).connection.link.reader.maxPayload
  fresh : ∀ side, (s side).given = 0 ∧ (s side).said = [] ∧ (s side).heard = [] ∧
    (s side).waiting = none ∧ (s side).answered = []
  /-- Nothing is on its way. -/
  clear : ∀ side, (s side).carried = (s side).written.length ∧
    (s side).connection.link.reader.buffer = [] ∧
    (s side).connection.link.reader.source.octets = []

variable {r : Registry} {s s' : Dialogue}

/-- A dialogue that `Begins` is `Joined`: nothing has been said, and nothing is on its way. -/
theorem Begins.joined (h : s.Begins r) : s.Joined r := by
  refine ⟨fun side => ?_, fun side => ?_, fun side => ?_⟩
  · obtain ⟨link, handshake, config, hconnection⟩ := h.handshaken side
    rw [hconnection]
    rfl
  · obtain ⟨link, handshake, config, hconnection⟩ := h.handshaken side
    obtain ⟨hgiven, hsaid, hheard, hwaiting, hanswered⟩ := h.fresh side
    refine ⟨⟨?_, ?_⟩, ?_, ?_, ?_, ?_⟩
    · rw [hconnection, hgiven]
      rfl
    · rw [hsaid]
      exact List.nil_sublist _
    · simp [hsaid]
    · simp [hsaid]
    · simp [hwaiting]
    · simp [hanswered]
  · obtain ⟨link, handshake, config, hconnection⟩ := h.handshaken side.other
    obtain ⟨-, -, hheard, -, hanswered⟩ := h.fresh side.other
    obtain ⟨hcarried, -, -⟩ := h.clear side
    obtain ⟨-, hbuffer, hsource⟩ := h.clear side.other
    have houtgoing : (s side).outgoing = [] := by
      rw [Speaker.outgoing, hcarried, List.drop_length]
    have hmessages : (s side.other).messages = [] := by
      rw [Speaker.messages, hconnection, hheard, hanswered]
      rfl
    refine ⟨h.limit side, Nat.le_of_eq hcarried, ⟨[], ⟨?_, by simp⟩, by simp [Frame.messages]⟩, ?_⟩
    · rw [hbuffer, hsource, houtgoing]
      rfl
    · simp [hmessages]

/-- In a `Joined` dialogue what the other side says is conveyed to this one, too. -/
theorem Joined.towards (h : s.Joined r) (side : Side) : Conveys r (s side.other) (s side) := by
  have hother := h.conveys side.other
  rwa [Side.other_other] at hother

/-- What a side has `heard` bears ids, as what was said does. -/
theorem Joined.nonzero (h : s.Joined r) (side : Side) :
    ∀ m ∈ (s side).heard, m.envelope.requestId ≠ 0 := by
  intro m hm
  have hmem : m ∈ (s side).messages :=
    List.mem_append_left _ (List.mem_append_right _ hm)
  obtain ⟨u, hu, hread⟩ := (h.towards side).messages m hmem
  rw [hread.requestId]
  exact (h.orderly side.other).nonzero u hu

/-- A dialogue is `Joined` when both of its directions are, so that it is enough to look
at these. -/
theorem joined_of {s : Dialogue} (side : Side)
    (hregistry : (s side).connection.registry = r ∧ (s side.other).connection.registry = r)
    (horderly : (s side).Orderly ∧ (s side.other).Orderly)
    (haway : Conveys r (s side) (s side.other)) (htowards : Conveys r (s side.other) (s side)) :
    s.Joined r := by
  refine ⟨Side.forall_of side hregistry.1 hregistry.2, Side.forall_of side horderly.1 horderly.2,
    Side.forall_of side haway ?_⟩
  rwa [Side.other_other]

/-- One move keeps a dialogue `Joined`. -/
theorem Joined.after? (hsound : r.Sound) (h : s.Joined r) {move : Move}
    (hafter : s.after? move = some s') : s'.Joined r := by
  cases move with
  | act side act =>
    obtain ⟨p', hact, rfl⟩ := Option.map_eq_some_iff.1 hafter
    have hregistry := h.registry side
    have hproceeds :=
      Speaker.act?_proceeds (hregistry ▸ hsound) (h.orderly side) (h.nonzero side) hact
    rw [hregistry] at hproceeds
    have hself : Function.update s side p' side = p' := Function.update_self ..
    have hother : Function.update s side p' side.other = s side.other :=
      Function.update_of_ne side.other_ne ..
    refine joined_of side ?_ ?_ ?_ ?_
    · -- What one side does concerns both directions: it talks in one, and listens in the other.
      rw [hself, hother]
      exact ⟨hproceeds.registry.trans hregistry, h.registry side.other⟩
    · rw [hself, hother]
      exact ⟨hproceeds.orderly, h.orderly side.other⟩
    · rw [hself, hother]
      exact (h.conveys side).speaks hproceeds.speaks
    · rw [hself, hother]
      exact (h.towards side).listens hregistry hproceeds.listens
  | carry side arrivals =>
    simp only [Dialogue.after?, Option.ite_none_right_eq_some, Option.some.injEq] at hafter
    obtain ⟨harrivals, rfl⟩ := hafter
    have ho := h.orderly side
    have ho' := h.orderly side.other
    refine joined_of side ?_ ?_ ?_ ?_
    all_goals rw [Function.update_self, Function.update_of_ne side.other_ne.symm,
      Function.update_self]
    · exact ⟨h.registry side, h.registry side.other⟩
    · exact ⟨⟨ho.numbered, ho.nonzero, ho.answers, ho.waits, ho.answered⟩,
        ⟨ho'.numbered.next, ho'.numbered.own⟩, ho'.nonzero, ho'.answers, ho'.waits, ho'.answered⟩
    · exact (h.conveys side).carry harrivals
    · -- In the other direction nothing is said or read.
      refine Conveys.listens (Conveys.speaks (h.towards side) ?_) (h.registry side) ?_
      · exact Speaker.speaks_nothing rfl rfl (List.Subset.refl _) rfl
      · exact .nothing rfl (List.Subset.refl _)

/-- So does a run, by induction over its moves. -/
theorem Joined.run? (hsound : r.Sound) (h : s.Joined r) {moves : List Move}
    (hrun : s.run? moves = some s') : s'.Joined r := by
  induction moves generalizing s with
  | nil =>
    simp only [Dialogue.run?, List.foldlM_nil, Option.pure_def, Option.some.injEq] at hrun
    exact hrun ▸ h
  | cons move moves ih =>
    simp only [Dialogue.run?, List.foldlM_cons, Option.bind_eq_bind,
      Option.bind_eq_some_iff] at hrun
    obtain ⟨s₁, hafter, hrest⟩ := hrun
    exact ih (h.after? hsound hafter) hrest

end Dialogue

/-! ## What a request comes to -/

namespace Dialogue

variable {r : Registry} {s s' : Dialogue}

/-- `run?` of what one side does leaves the other as it is. -/
theorem run?_acts (side : Side) {acts : List Act} {p : Speaker}
    (hacts : (s side).acts? acts = some p) :
    s.run? (acts.map (.act side)) = some (Function.update s side p) := by
  induction acts generalizing s with
  | nil =>
    simp only [Speaker.acts?, List.foldlM_nil, Option.pure_def, Option.some.injEq] at hacts
    rw [← hacts, Function.update_eq_self]
    rfl
  | cons act acts ih =>
    simp only [Speaker.acts?, List.foldlM_cons, Option.bind_eq_bind,
      Option.bind_eq_some_iff] at hacts
    obtain ⟨p₁, hact, hrest⟩ := hacts
    have hafter : s.after? (.act side act) = some (Function.update s side p₁) := by
      rw [Dialogue.after?, hact, Option.map_some]
    have hself : (Function.update s side p₁) side = p₁ := Function.update_self ..
    have hmore := ih (hself.symm ▸ hrest)
    rw [Function.update_idem] at hmore
    rw [List.map_cons, Dialogue.run?, List.foldlM_cons, hafter]
    exact hmore

/-- `Connection.request` of an idle side is `ask` and as many `look`s as it takes. -/
theorem exists_run_request (side : Side) {m answer : Message} {type : MessageType} {c : Connection}
    (hidle : (s side).waiting = none) (hid : m.envelope.requestId = 0)
    (h : (s side).connection.request m type = .ok answer c) :
    ∃ n id s', s.run? (.act side (.ask m) :: List.replicate n (.act side .look)) = some s' ∧
      (s' side).connection = c ∧ (⟨id, m, none⟩, answer) ∈ (s' side).answered := by
  -- A request that could not be sent does not come to anything.
  cases hsend : (s side).connection.send m with
  | error e connection =>
    rw [Connection.request_eq, hsend] at h
    cases h
  | ok id connection =>
    obtain ⟨n, p, hacts, -, hconnection, hanswered⟩ :=
      Speaker.exists_request type hidle hid hsend
    rw [h, Connection.outcome_ok] at hconnection hanswered
    refine ⟨n, id, Function.update s side p, ?_, ?_, ?_⟩
    · have hrun := run?_acts side hacts
      rwa [List.map_cons, List.map_replicate] at hrun
    · rw [Function.update_self, hconnection]
    · rw [Function.update_self, hanswered answer rfl]
      exact List.mem_append_right _ List.mem_cons_self

/-- `Connection.awaitAnswer`, the second half of it, is as many `look`s as it takes.  Octets may
have been carried to a waiting side in between. -/
theorem exists_run_awaitAnswer (side : Side) {request : Utterance} {answer : Message}
    {type : MessageType} {c : Connection} (hwaiting : (s side).waiting = some request)
    (h : (s side).connection.awaitAnswer request.id type = .ok answer c) :
    ∃ n s', s.run? (List.replicate n (.act side .look)) = some s' ∧
      (s' side).connection = c ∧ (request, answer) ∈ (s' side).answered := by
  obtain ⟨n, p, hacts, -, hconnection, hanswered⟩ := Speaker.exists_looks type hwaiting
  rw [h, Connection.outcome_ok] at hconnection hanswered
  refine ⟨n, Function.update s side p, ?_, ?_, ?_⟩
  · have hrun := run?_acts side hacts
    rwa [List.map_replicate] at hrun
  · rw [Function.update_self, hconnection]
  · rw [Function.update_self, hanswered answer rfl]
    exact List.mem_append_right _ List.mem_cons_self

/-- Where the message comes from that a request is `answered` by. -/
theorem Joined.origin (h : s.Joined r) (side : Side) {request : Utterance} {m : Message}
    (hm : (request, m) ∈ (s side).answered) :
    request ∈ (s side).said ∧ request.question = none ∧ m.envelope.requestId = request.id ∧
      ∃ u ∈ (s side.other).said, u.ReadAs m ∧
        (u.question = none ∨ ∃ question ∈ (s side.other).heard, u.question = some question ∧
          question.type.response? = some m.type ∧
          ((s side).given < UInt64.size → request.ReadAs question)) := by
  have hside := h.orderly side
  have hother := h.orderly side.other
  obtain ⟨hrequest, hown, hid⟩ := hside.answered request m hm
  refine ⟨hrequest, hown, hid, ?_⟩
  -- What a request has come to has been conveyed from the other side.
  have hmem : m ∈ (s side).messages :=
    List.mem_append_right _ (List.mem_map.2 ⟨(request, m), hm, rfl⟩)
  obtain ⟨u, hu, hread⟩ := (h.towards side).messages m hmem
  refine ⟨u, hu, hread, ?_⟩
  cases hquestion : u.question with
  | none => exact .inl rfl
  | some question =>
    obtain ⟨hheard, htype, huid⟩ := hother.answers u hu question hquestion
    refine .inr ⟨question, hheard, rfl, ?_, fun hgiven => ?_⟩
    · rw [hread.type]
      exact htype
    · -- What was answered was said on this side, and is no answer itself.
      have hmem' : question ∈ (s side.other).messages :=
        List.mem_append_left _ (List.mem_append_right _ hheard)
      obtain ⟨asked, hasked, hread'⟩ := (h.conveys side).messages question hmem'
      have hfirst : asked.question = none := by
        cases hback : asked.question with
        | none => rfl
        | some back =>
          obtain ⟨-, hanswer, -⟩ := hside.answers asked hasked back hback
          have hnone := MessageType.response?_of_response? hanswer
          rw [← hread'.type, htype] at hnone
          cases hnone
      -- Both bear the id of the request, and no id has been given twice.
      have hsame : asked = request := by
        apply hside.numbered.eq_of_id hgiven hasked hfirst hrequest hown
        calc asked.id = question.envelope.requestId := hread'.requestId.symm
          _ = u.id := huid.symm
          _ = m.envelope.requestId := hread.requestId.symm
          _ = request.id := hid
      exact hsame ▸ hread'

end Dialogue

/-- What a request comes to, in every run of a dialogue.  The message bears the id of the request
and was said by the other side under this id.  Either it is a message of the other side's own, which
has been given the same id there, or it is an answer; and then, as long as no id has been given
twice, it is the answer to this very request.  This holds of what `Connection.request` returns,
since that call is a run of `ask` and `look`, and of what `Connection.awaitAnswer` returns, which is
a run of `look`. -/
theorem request_comes_to {r : Registry} {s s' : Dialogue} {moves : List Move} (hbegins : s.Begins r)
    (hrun : s.run? moves = some s') (side : Side) :
    (∀ request m, (request, m) ∈ (s' side).answered →
      request ∈ (s' side).said ∧ request.question = none ∧ m.envelope.requestId = request.id ∧
        ∃ u ∈ (s' side.other).said, u.ReadAs m ∧
          (u.question = none ∨ ∃ question ∈ (s' side.other).heard, u.question = some question ∧
            question.type.response? = some m.type ∧
            ((s' side).given < UInt64.size → request.ReadAs question))) ∧
    (∀ m type answer c, (s' side).waiting = none → m.envelope.requestId = 0 →
      (s' side).connection.request m type = .ok answer c →
      ∃ n id s'', s.run? (moves ++ .act side (.ask m) :: List.replicate n (.act side .look)) =
          some s'' ∧
        (s'' side).connection = c ∧ (⟨id, m, none⟩, answer) ∈ (s'' side).answered) ∧
    ∀ request type answer c, (s' side).waiting = some request →
      (s' side).connection.awaitAnswer request.id type = .ok answer c →
      ∃ n s'', s.run? (moves ++ List.replicate n (.act side .look)) = some s'' ∧
        (s'' side).connection = c ∧ (request, answer) ∈ (s'' side).answered := by
  have hafter : ∀ more, s.run? (moves ++ more) = s'.run? more := by
    intro more
    rw [Dialogue.run?, List.foldlM_append]
    exact congrArg (· >>= _) hrun
  simp only [hafter]
  exact ⟨fun request m hm => (hbegins.joined.run? hbegins.grown.sound hrun).origin side hm,
    fun m type answer c => Dialogue.exists_run_request side,
    fun request type answer c => Dialogue.exists_run_awaitAnswer side⟩

namespace Dialogue

/-- Two sides that have shaken hands and not said anything yet. -/
def silent : Dialogue := fun side =>
  ⟨(Session.silent side).connection, 0, [], [], none, [], 0⟩

/-- `silent` is such a dialogue. -/
theorem silent_begins : silent.Begins .standard := by
  refine ⟨Registry.grown_full _, fun side => ⟨_, _, _, rfl⟩, fun side => ?_,
    fun side => ⟨rfl, rfl, rfl, rfl, rfl⟩, fun side => ⟨rfl, rfl, rfl⟩⟩
  exact Nat.le_refl Frame.defaultMaxPayload

/-- A question as it goes over the wire under the first id that a side gives. -/
def asking : Frame := ⟨⟨2, 2⟩, 2, [0, 1]⟩

/-- The answer to it. -/
def telling : Frame := ⟨⟨2, 3⟩, 2, [0, 1, 8, 3, 18, 2, 0x6E, 0x6F, 26, 3, 1, 1, 0x78]⟩

/-- The left side asks and the right side answers. -/
def answered : List Move :=
  [.act .left (.ask (.new (.main .listOSesRequest))), .carry .left [.octets asking.octets none],
    .act .right .receive, .act .right (.answer 0 [.number 3, .text "no", .list [.text "x"]]),
    .carry .right [.octets telling.octets none], .act .left .look]

/-- Both sides ask, each on its own account. -/
def misled : List Move :=
  [.act .left (.ask (.new (.main .listOSesRequest))),
    .act .right (.ask (.new (.main .listOSesRequest))), .carry .right [.octets asking.octets none],
    .act .left .look]

/-- What is left in view of a dialogue: the types of the messages that requests on the left have
come to, how many ids were given there, and for each message that the right side has said whether it
is an answer. -/
def view (s : Dialogue) : List MessageType × Nat × List Bool :=
  ((s .left).answered.map (·.2.type), (s .left).given, (s .right).said.map (·.question.isSome))

/-- `run?` after which requests on the left are `answered` by one message. -/
theorem exists_of_view (moves : List Move) (type : MessageType) (given : Nat) (answers : List Bool)
    (h : (silent.run? moves).map view = some ([type], given, answers)) :
    ∃ s request m, silent.run? moves = some s ∧ (request, m) ∈ (s .left).answered ∧ m.type = type ∧
      (s .left).given = given ∧
      ∀ u ∈ (s .right).said, u.question.isSome ∈ answers := by
  obtain ⟨s, hrun, hview⟩ := Option.map_eq_some_iff.1 h
  simp only [view, Prod.mk.injEq] at hview
  obtain ⟨htypes, hgiven, hanswers⟩ := hview
  obtain ⟨⟨request, m⟩, hsingle, htype⟩ := List.map_eq_singleton_iff.1 htypes
  refine ⟨s, request, m, hrun, ?_, htype, hgiven, fun u hu => ?_⟩
  · rw [hsingle]
    exact List.mem_cons_self
  · rw [← hanswers]
    exact List.mem_map_of_mem hu

end Dialogue

open Dialogue in
/-- `run?` of a question that is answered, with nothing else said: the request is `answered` by
the answer. -/
theorem request_comes_to_answer : ∃ s request m, silent.run? answered = some s ∧
    (request, m) ∈ (s .left).answered ∧ m.type = .main .listOSesResponse ∧
    ∃ question ∈ (s .right).heard, question.type.response? = some m.type ∧
      request.ReadAs question := by
  obtain ⟨s, request, m, hrun, hm, htype, hgiven, hanswers⟩ :=
    exists_of_view answered (.main .listOSesResponse) 1 [true] (by decide +kernel)
  obtain ⟨-, -, -, u, hu, -, hnone | ⟨question, hheard, -, hresponse, hread⟩⟩ :=
    (request_comes_to silent_begins hrun .left).1 request m hm
  · -- All that the right side has said is answers.
    have hanswer := hanswers u hu
    simp [hnone] at hanswer
  · have hfew : (s .left).given < UInt64.size := by
      rw [hgiven]
      decide
    exact ⟨s, request, m, hrun, hm, htype, question, hheard, hresponse, hread hfew⟩

open Dialogue in
/-- What a request is `answered` by need not be an answer: where both sides ask, each takes the
question of the other for the answer to its own. -/
theorem request_misled : ¬ ∀ (r : Registry) (s s' : Dialogue) (moves : List Move), s.Begins r →
    s.run? moves = some s' → ∀ side request m, (request, m) ∈ (s' side).answered →
      ∃ u ∈ (s' side.other).said, u.ReadAs m ∧
        ∃ question, u.question = some question ∧ request.ReadAs question := by
  intro hall
  obtain ⟨s, request, m, hrun, hm, -, -, hanswers⟩ :=
    exists_of_view misled (.main .listOSesRequest) 1 [false] (by decide +kernel)
  obtain ⟨u, hu, -, question, hquestion, -⟩ := hall _ _ _ _ silent_begins hrun .left _ _ hm
  have hanswer := hanswers u hu
  simp [hquestion] at hanswer

end Storefront
