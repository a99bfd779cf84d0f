import Storefront.Proofs.Cli.Decode
import Storefront.Proofs.Dump.Secrets
import Storefront.Proofs.Schema.Codec
import Storefront.Proofs.Version.Opening

/-! # Secrets are not printed

Nothing that is printed of a message depends on what its secrets are, only on how long they are.
So it is for the dumps of messages, wherever these come from, and for what a decode answers about the
frames that brought them.

* `showFrame_congr`         what an answer depends on
* `secrets_not_printed`     dumps and answers with other secrets
-/

namespace Storefront

/-- `decodeFrame` makes messages with the same type and envelope of frames with the same key and
request id. -/
theorem Registry.openlySame_of_decodeFrame {r : Registry} {frame frame' : Frame} {ctx ctx' : Context}
    {m m' : Message} (h : r.decodeFrame frame ctx = .ok m) (h' : r.decodeFrame frame' ctx' = .ok m')
    (hkey : frame'.key = frame.key) (hid : frame'.requestId = frame.requestId)
    (hfields : m.type.recordType.layout.OpenlySame m.fields m'.fields) : m.OpenlySame m' where
  type := by
    -- the key alone decides on the type
    have htype := (decodeFrame_ok h).1
    rw [← hkey, (decodeFrame_ok h').1] at htype
    exact Except.ok.inj htype
  envelope := by rw [(decodeFrame_ok h).2, (decodeFrame_ok h').2, hid]
  fields := hfields

namespace Cli

variable {bytes bytes' rest rest' : Bytes} {frame frame' : Frame} {format : OutputFormat}

/-- `showFrame` depends on the key, the request id and the size of the frame, and on
its `frameContent`. -/
theorem showFrame_congr
    (hframe : Frame.decode Frame.defaultMaxPayload bytes = .ok (some (frame, rest)))
    (hframe' : Frame.decode Frame.defaultMaxPayload bytes' = .ok (some (frame', rest')))
    (hkey : frame'.key = frame.key) (hid : frame'.requestId = frame.requestId)
    (hsize : frame'.payload.length = frame.payload.length)
    (hcontent : frameContent frame' = frameContent frame) :
    showFrame bytes' format = showFrame bytes format := by
  simp only [showFrame, hframe, hframe', hkey, hid, hsize, hcontent]

theorem frameContent_congr {m m' : Message} (hkey : frame'.key = frame.key)
    (h : Registry.standard.decodeFrame frame .ofLocal = .ok m)
    (h' : Registry.standard.decodeFrame frame' .ofLocal = .ok m') (hm : m.OpenlySame m') :
    frameContent frame' = frameContent frame := by
  simp only [frameContent, Frame.isKeepalive, hkey, h, h', MessageType.name, hm.type,
    Message.dump_eq hm]

end Cli

/-- `Message.dump` and `Cli.run` do not depend on secrets.  Messages that are `OpenlySame`, which is
to say that they differ in nothing but secrets of the same size, have the same dump, on one line and
as a tree; so have those that `decodeFrame` has read from two frames with the same key and request
id; and where such frames are of the same size, `run` of a decode answers the same about both, in
whatever format and whatever stands behind them. -/
theorem secrets_not_printed :
    (∀ m m' : Message, m.OpenlySame m' → ∀ style, m'.dump style = m.dump style) ∧
    (∀ (r : Registry) (frame frame' : Frame) (ctx ctx' : Context) (m m' : Message),
      r.decodeFrame frame ctx = .ok m → r.decodeFrame frame' ctx' = .ok m' →
      frame'.key = frame.key → frame'.requestId = frame.requestId →
      m.type.recordType.layout.OpenlySame m.fields m'.fields →
      ∀ style, m'.dump style = m.dump style) ∧
    ∀ (around around' : Surroundings) (arguments : List String) (format : Option OutputFormat)
      (path : String) (hex : Bool) (bytes bytes' rest rest' : Bytes) (frame frame' : Frame)
      (m m' : Message),
      around'.logLevel = around.logLevel → around'.terminal = around.terminal →
      Arguments.parse around.logLevel arguments = .ok ⟨format, .decode path hex⟩ →
      around.Supplies path hex bytes → around'.Supplies path hex bytes' →
      Frame.decode Frame.defaultMaxPayload bytes = .ok (some (frame, rest)) →
      Frame.decode Frame.defaultMaxPayload bytes' = .ok (some (frame', rest')) →
      Registry.standard.decodeFrame frame .ofLocal = .ok m →
      Registry.standard.decodeFrame frame' .ofLocal = .ok m' →
      frame'.key = frame.key → frame'.requestId = frame.requestId →
      frame'.payload.length = frame.payload.length →
      m.type.recordType.layout.OpenlySame m.fields m'.fields →
      Cli.run around' arguments = Cli.run around arguments := by
  refine ⟨?_, ?_, ?_⟩
  · intro m m' hm style
    rw [Message.dump_eq hm]
  · intro r frame frame' ctx ctx' m m' h h' hkey hid hfields style
    rw [Message.dump_eq (Registry.openlySame_of_decodeFrame h h' hkey hid hfields)]
  · intro around around' arguments format path hex bytes bytes' rest rest' frame frame' m m'
      hlevel hterminal hparse hsupplies hsupplies' hframe hframe' h h' hkey hid hsize hfields
    have hm := Registry.openlySame_of_decodeFrame h h' hkey hid hfields
    have hcontent := Cli.frameContent_congr hkey h h' hm
    -- `formatOf` looks at the terminal and the log level, which are the same in both surroundings
    have hparse' : Arguments.parse around'.logLevel arguments =
        .ok ⟨format, .decode path hex⟩ := hlevel ▸ hparse
    rw [Cli.run_of_supplies hparse hsupplies, Cli.run_of_supplies hparse' hsupplies']
    simp only [Cli.formatOf, hterminal, Cli.showFrame_congr hframe hframe' hkey hid hsize hcontent]

/-- A login. -/
def login (pass : String) : Message :=
  ⟨.core .authRequest, { requestId := 9 }, [.text pass, .text "u", .text "", .text ""]⟩

/-- The frame that brings a login with a short password. -/
def loginFrame (pass : String) : Frame where
  key := ⟨0, 2⟩
  requestId := 9
  payload :=
    [0, 1, 0x0A, (Bytes.ofText pass).length.toUInt8] ++ Bytes.ofText pass ++ [0x12, 1] ++
      Bytes.ofText "u"

/-- One step of `decode` over a text or a secret that is found. -/
theorem Layout.decode_of_text {about : FieldMeta} {type : ValueType} {initial : Value}
    {rest : Layout} {index : FieldIndex} {s : String} (htype : type = .text ∨ type = .secret)
    (hbound : about.maxSize = none)
    (hfind : index.find? about.tag = some ⟨about.tag, .len, Bytes.ofText s⟩) (ctx : Context)
    (slot : Nat) (fields : List Value) :
    (field about type initial rest).decode ctx index slot fields =
      rest.decode ctx index (slot + 1) (fields.set slot (.text s)) := by
  -- `decodeBody` of texts and of secrets is `decodeOctets` with `decodeText`
  have htext : ∀ old, decodeOctets about decodeText old (Cursor.start (Bytes.ofText s)) =
      ⟨.text s, ⟨0 + (Bytes.ofText s).length, []⟩, .ok ()⟩ := by
    intro old
    apply decodeOctets_whole
    · rw [hbound, checkBound_none]
    · simp only [decodeText, Utf8.decode_ofText]
  rcases htype with rfl | rfl
  · exact decode_of_read hfind rfl (htext _)
  · exact decode_of_read hfind rfl (htext _)

theorem decodeFrame_loginFrame {pass : String}
    (hsize : (loginFrame pass).payload.length ≤ Frame.defaultMaxPayload)
    (hindex : CoreMessage.authRequest.recordType.index (loginFrame pass).payload =
      .ok [⟨0, .varint, [1]⟩, ⟨1, .len, Bytes.ofText pass⟩, ⟨2, .len, Bytes.ofText "u"⟩]) :
    Registry.standard.decodeFrame (loginFrame pass) .ofLocal = .ok (login pass) := by
  have hresolve : Registry.standard.resolve (loginFrame pass).key = .ok (.core .authRequest) :=
    Registry.resolve_standard.2 ⟨.core, 2, by decide, rfl⟩
  have hfields : CoreMessage.authRequest.recordType.decodeMessage .ofLocal (loginFrame pass).payload
      CoreMessage.authRequest.recordType.initials = ((login pass).fields, .ok ()) := by
    rw [RecordType.decodeMessage_of_index _ _ hindex rfl, RecordType.decodeIndexed_of_no_hook rfl]
    -- The body brings the first two fields; the other two are those of a new message.
    show Layout.decode (.field _ _ _ (.field _ _ _ _)) _ _ _ _ = _
    rw [Layout.decode_of_text (.inr rfl) rfl rfl, Layout.decode_of_text (.inl rfl) rfl rfl]
    rfl
  have hdecode : Message.decode .ofLocal (.core .authRequest) (loginFrame pass).payload =
      .ok { login pass with envelope := {} } := by
    have hnew : (Message.new (.core .authRequest)).type.recordType.decodeMessage .ofLocal
        (loginFrame pass).payload (Message.new (.core .authRequest)).fields =
          ((login pass).fields, .ok ()) := hfields
    simp only [Message.decode, Message.decodeInto, hnew]
    rfl
  rw [Registry.decodeFrame_standard hsize, hresolve]
  simp only [Except.bind, hdecode]
  rfl

/-- `dump` and `run` on two logins with passwords of three octets each, one of them made up of
quotes and a backslash. -/
theorem secrets_not_printed_login :
    let pass := "\"\"\\"
    let pass' := "é!"
    let around (pass : String) : Surroundings :=
      ⟨.ok (loginFrame pass).octets, fun _ => .error .missing, none, true, ""⟩
    (login pass).OpenlySame (login pass') ∧
      (login pass').dump .line = (login pass).dump .line ∧
      Registry.standard.decodeFrame (loginFrame pass) .ofLocal = .ok (login pass) ∧
      Registry.standard.decodeFrame (loginFrame pass') .ofLocal = .ok (login pass') ∧
      Cli.run (around pass') ["decode", "-"] = Cli.run (around pass) ["decode", "-"] := by
  intro pass pass' around
  have hm : (login pass).OpenlySame (login pass') :=
    ⟨rfl, rfl, .inr ⟨_, _, rfl, rfl, by decide +kernel⟩, rfl, rfl, rfl, rfl⟩
  have hread : Registry.standard.decodeFrame (loginFrame pass) .ofLocal = .ok (login pass) :=
    decodeFrame_loginFrame (by decide +kernel) (by decide +kernel)
  have hread' : Registry.standard.decodeFrame (loginFrame pass') .ofLocal = .ok (login pass') :=
    decodeFrame_loginFrame (by decide +kernel) (by decide +kernel)
  -- the frame is all there is on standard input
  have hfits : ∀ frame : Frame, frame.payload.length ≤ Frame.defaultMaxPayload →
      Frame.decode Frame.defaultMaxPayload frame.octets = .ok (some (frame, [])) := by
    intro frame hsize
    have hdecode := Frame.decode_octets (Frame.fits_default hsize) []
    rwa [List.append_nil] at hdecode
  refine ⟨hm, ?_, hread, hread', ?_⟩
  · exact secrets_not_printed.1 _ _ hm .line
  · have hframe := hfits (loginFrame pass) (by decide +kernel)
    have hframe' := hfits (loginFrame pass') (by decide +kernel)
    have hparse : Arguments.parse none ["decode", "-"] = .ok ⟨none, .decode "-" false⟩ := by
      decide +kernel
    exact secrets_not_printed.2.2 (around pass) (around pass') ["decode", "-"] none "-" false _ _
      [] [] _ _ _ _ rfl rfl hparse ⟨_, rfl, rfl⟩ ⟨_, rfl, rfl⟩ hframe hframe' hread hread' rfl rfl
      (by decide +kernel) hm.fields

end Storefront
