import Storefront.Proofs.Cli.Input
import Storefront.Proofs.Frame.Decode
import Storefront.Proofs.Store.History

/-! # What a decode ends with

A decode looks at the front of its input.  It ends well when there is a frame there that is a
keepalive or carries a message of a registered type, and in all other cases it is the input that is
at fault.  What comes behind the first frame makes no difference.

* `Registered`           the keys that messages have
* `showFrame_error`      a decode fails for its input only
* `decode_classifies`    what this comes to for runs
-/

namespace Storefront

/-! ## Registered keys -/

/-- A key under which one of the built-in families has a message. -/
def Registered (key : MessageKey) (type : MessageType) : Prop :=
  ∃ family number, (number, type) ∈ (ProtocolFamily.of family).table ∧
    key = ⟨(ProtocolFamily.of family).id, number⟩

namespace Registry

/-- `standard` has the messages of the built-in families and no others. -/
theorem mem_standard_iff {key : MessageKey} {type : MessageType} :
    ⟨key, type⟩ ∈ standard.entries ↔ Registered key type := by
  constructor
  · have hall : ∀ entry ∈ standard.entries, ∃ family ∈ Family.all,
        (entry.key.message, entry.type) ∈ (ProtocolFamily.of family).table ∧
          entry.key.family = (ProtocolFamily.of family).id := by decide +kernel
    intro hentry
    obtain ⟨family, -, hrow, hid⟩ := hall _ hentry
    exact ⟨family, key.message, hrow, by rw [← hid]⟩
  · have hall : ∀ family ∈ Family.all, ∀ row ∈ (ProtocolFamily.of family).table,
        (⟨⟨(ProtocolFamily.of family).id, row.1⟩, row.2⟩ : Registration) ∈ standard.entries := by
      decide +kernel
    -- Each row of each of the three tables is looked at.
    rintro ⟨family, number, hrow, rfl⟩
    exact hall family (by cases family <;> decide) _ hrow

/-- `standard.resolve` answers the type of a key just when it is `Registered`. -/
theorem resolve_standard {key : MessageKey} {type : MessageType} :
    standard.resolve key = .ok type ↔ Registered key type :=
  (grown_full _).sound.resolve_eq_ok.trans mem_standard_iff

/-- `resolve` fails for the key of keepalives, or for one that is not known. -/
theorem resolve_error {r : Registry} {key : MessageKey} {e : SchemaError}
    (h : r.resolve key = .error e) : e = .nullMessage ∨ e = .unknownMessage key := by
  unfold resolve registration at h
  split at h
  · cases h
    exact .inl rfl
  · split at h
    · cases h
    · cases h
      exact .inr rfl

/-- `decodeFrame` of a payload that is not too large is `Message.decode` of the type that `resolve`
has for the key. -/
theorem decodeFrame_standard {frame : Frame}
    (hsize : frame.payload.length ≤ Frame.defaultMaxPayload) (ctx : Context) :
    standard.decodeFrame frame ctx = (standard.resolve frame.key).bind fun type =>
      (Message.decode ctx type frame.payload).map fun m =>
        { m with envelope := { m.envelope with requestId := frame.requestId } } := by
  -- The limit of the registry is that of a frame.
  have hcheck : standard.checkSize frame.payload = .ok () := if_neg (Nat.not_lt.2 hsize)
  simp only [decodeFrame, decode, hcheck, bind, Except.bind]
  cases standard.resolve frame.key with
  | error e => rfl
  | ok type =>
    simp only
    cases Message.decode ctx type frame.payload <;> rfl

end Registry

/-! ## What is the fault of the input -/

namespace CliError

/-- `wireCode` of a failure that lies in octets is `dataCode`. -/
theorem wireCode_of_ofOctets {e : WireError} (h : e.ofOctets = true) : wireCode e = dataCode := by
  cases e <;> first | rfl | cases h

/-- `exitCode` of a failure that lies in the contents of a body is `dataCode`. -/
theorem exitCode_decode_of_ofContents {e : SchemaError} (h : e.ofContents = true) :
    (decode e).exitCode = dataCode := by
  cases e with
  | wire e => exact wireCode_of_ofOctets h
  | _ => first | rfl | cases h

end CliError

/-- A frame that a decode can show: a keepalive, or one with a message of a registered type. -/
def Frame.IsShown (frame : Frame) : Prop :=
  frame.key = .null ∨ ∃ type m, Registered frame.key type ∧
    Message.decode .ofLocal type frame.payload = .ok m

namespace Cli

variable {frame : Frame} {bytes : Bytes} {format : OutputFormat} {e : CliError}

/-- `frameContent` succeeds exactly on a frame that `IsShown`. -/
theorem frameContent_ok_iff (hsize : frame.payload.length ≤ Frame.defaultMaxPayload) :
    (∃ content, frameContent frame = .ok content) ↔ frame.IsShown := by
  unfold frameContent Frame.isKeepalive Frame.IsShown
  by_cases hnull : frame.key.isNull = true
  · simp only [hnull, if_true, Except.ok.injEq, exists_eq', true_iff]
    exact .inl ((MessageKey.isNull_iff _).1 hnull)
  · -- A frame that is no keepalive is shown when its key resolves and its body is read.
    have hkey : frame.key ≠ .null := fun h => hnull ((MessageKey.isNull_iff _).2 h)
    simp only [hnull, Bool.false_eq_true, if_false, Registry.decodeFrame_standard hsize, hkey,
      false_or, ← Registry.resolve_standard]
    cases hresolve : Registry.standard.resolve frame.key with
    | error e => simp [Except.bind]
    | ok type =>
      cases hdecode : Message.decode .ofLocal type frame.payload <;>
        simp [Except.bind, Except.map, hdecode]

/-- `frameContent` fails with `dataCode`: what cannot be shown is the fault of the input. -/
theorem frameContent_error (hsize : frame.payload.length ≤ Frame.defaultMaxPayload)
    (h : frameContent frame = .error e) : e.exitCode = CliError.dataCode := by
  unfold frameContent at h
  split at h
  · cases h
  · rw [Registry.decodeFrame_standard hsize] at h
    cases hresolve : Registry.standard.resolve frame.key with
    | error e' =>
      simp only [hresolve, Except.bind, Except.error.injEq] at h
      subst h
      -- Neither error of the registry is anything but bad input.
      rcases Registry.resolve_error hresolve with rfl | rfl <;> rfl
    | ok type =>
      cases hdecode : Message.decode .ofLocal type frame.payload with
      | ok m => simp [hresolve, hdecode, Except.bind, Except.map] at h
      | error e' =>
        simp only [hresolve, hdecode, Except.bind, Except.map, Except.error.injEq] at h
        subst h
        exact CliError.exitCode_decode_of_ofContents (Message.decode_error hdecode)

/-- `showFrame` answers about a frame without regard to what is behind it. -/
theorem showFrame_octets (hsize : frame.payload.length ≤ Frame.defaultMaxPayload) (rest : Bytes) :
    showFrame (frame.octets ++ rest) format = showFrame frame.octets format := by
  have hfits := Frame.fits_default hsize
  -- The same frame is decoded with and without what follows it.
  have halone := Frame.decode_octets hfits []
  rw [List.append_nil] at halone
  simp only [showFrame, Frame.decode_octets hfits, halone]

/-- `showFrame` refuses a frame that is too large from its header, whatever follows. -/
theorem showFrame_octets_of_large (hlarge : Frame.defaultMaxPayload < frame.payload.length)
    (hlimit : frame.payload.length ≤ Frame.payloadLimit) (rest : Bytes) :
    showFrame (frame.octets ++ rest) format =
      .error (.frame (.payloadTooLarge frame.payload.length Frame.defaultMaxPayload)) := by
  -- The header says how large the payload is, and that is seen before any of the payload.
  have hfits : frame.Fits Frame.payloadLimit := ⟨hlimit, hlimit⟩
  obtain ⟨-, -, hannounces⟩ := Frame.decode_some (Frame.decode_octets hfits rest)
  rw [showFrame, hannounces.decode_eq, if_pos hlarge]

/-- `showFrame` answers exactly for octets that start with a frame that can be shown. -/
theorem showFrame_ok_iff :
    (∃ output, showFrame bytes format = .ok output) ↔
      ∃ frame rest, bytes = Frame.octets frame ++ rest ∧
        frame.payload.length ≤ Frame.defaultMaxPayload ∧ frame.IsShown := by
  constructor
  · rintro ⟨output, h⟩
    unfold showFrame at h
    split at h
    · cases h
    · cases h
    · rename_i frame rest hframe
      -- What was decoded stands in front of the octets.
      obtain ⟨hbytes, hfits, -⟩ := Frame.decode_some hframe
      refine ⟨frame, rest, hbytes, hfits.payload, (frameContent_ok_iff hfits.payload).1 ?_⟩
      cases hcontent : frameContent frame with
      | error e => simp [hcontent, bind, Except.bind] at h
      | ok content => exact ⟨content, rfl⟩
  · rintro ⟨frame, rest, rfl, hsize, hshown⟩
    obtain ⟨content, hcontent⟩ := (frameContent_ok_iff hsize).2 hshown
    simp only [showFrame, Frame.decode_octets (Frame.fits_default hsize), hcontent, bind, Except.bind]
    cases format <;> exact ⟨_, rfl⟩

/-- `showFrame` fails for the fault of the input only. -/
theorem showFrame_error (h : showFrame bytes format = .error e) :
    e.exitCode = CliError.dataCode := by
  unfold showFrame at h
  split at h
  · rename_i e' hframe
    cases h
    -- Octets that are at hand are not refused for a stream underneath.
    apply CliError.wireCode_of_ofOctets
    cases e' <;> first | rfl | exact absurd hframe Frame.decode_ne_io
  · cases h
    rfl
  · rename_i frame rest hframe
    obtain ⟨-, hfits, -⟩ := Frame.decode_some hframe
    cases hcontent : frameContent frame with
    | error e' =>
      simp only [hcontent, bind, Except.bind, Except.error.injEq] at h
      subst h
      exact frameContent_error hfits.payload hcontent
    | ok content =>
      simp only [hcontent, bind, Except.bind] at h
      split at h <;> cases h

/-- `run` of a decode whose contents can be had ends with 0 or with `dataCode`. -/
theorem exitCode_of_contents {around : Surroundings} {arguments : List String}
    {asked : Option OutputFormat} {path : String} {hex : Bool} {raw : Bytes}
    (hparse : Arguments.parse around.logLevel arguments = .ok ⟨asked, .decode path hex⟩)
    (hraw : around.contents path = .ok raw) :
    (run around arguments).exitCode = 0 ∨ (run around arguments).exitCode = CliError.dataCode := by
  have hshown : ∀ bytes format, (Outcome.ofAnswer (showFrame bytes format)).exitCode = 0 ∨
      (Outcome.ofAnswer (showFrame bytes format)).exitCode = CliError.dataCode := by
    intro bytes format
    cases h : showFrame bytes format with
    | ok output => exact .inl rfl
    | error e => exact .inr (showFrame_error h)
  rw [run_decode hparse, readInput_of_contents hraw]
  -- Either the octets are shown as they are, or the digits are read first.
  cases hex with
  | false => exact hshown _ _
  | true =>
    simp only [if_true]
    cases htext : HexInput.ofText raw with
    | ok bytes => exact hshown _ _
    | error e => exact .inr (HexInput.exitCode_of_ofText htext)

end Cli

/-- `run` of a decode, with or without `--hex`, has exit code 0 exactly when its octets start with a
frame of at most 16 MiB of payload that is a keepalive or carries a message of a registered type
(`IsShown`).  On all other contents the exit code is 60, also when the text spells no octets.  The
octets behind the first frame change neither the output nor the code. -/
theorem decode_classifies :
    (∀ (around : Surroundings) (arguments : List String) (format : Option OutputFormat)
      (path : String) (hex : Bool) (bytes : Bytes),
      Arguments.parse around.logLevel arguments = .ok ⟨format, .decode path hex⟩ →
      around.Supplies path hex bytes →
      ((Cli.run around arguments).exitCode = 0 ↔
        ∃ (frame : Frame) (rest : Bytes), bytes = frame.octets ++ rest ∧
          frame.payload.length ≤ 16 * 1024 * 1024 ∧ frame.IsShown)) ∧
    (∀ (around : Surroundings) (arguments : List String) (format : Option OutputFormat)
      (path : String) (hex : Bool) (raw : Bytes),
      Arguments.parse around.logLevel arguments = .ok ⟨format, .decode path hex⟩ →
      around.contents path = .ok raw →
      (Cli.run around arguments).exitCode = 0 ∨ (Cli.run around arguments).exitCode = 60) ∧
    ∀ (around around' : Surroundings) (arguments : List String) (format : Option OutputFormat)
      (path : String) (hex : Bool) (frame : Frame) (rest rest' : Bytes),
      around'.logLevel = around.logLevel → around'.terminal = around.terminal →
      Arguments.parse around.logLevel arguments = .ok ⟨format, .decode path hex⟩ →
      frame.payload.length ≤ Frame.payloadLimit →
      around.Supplies path hex (frame.octets ++ rest) →
      around'.Supplies path hex (frame.octets ++ rest') →
      Cli.run around' arguments = Cli.run around arguments := by
  refine ⟨?_, fun _ _ _ _ _ _ hparse hraw => Cli.exitCode_of_contents hparse hraw, ?_⟩
  · intro around arguments format path hex bytes hparse hsupplies
    have hshown : (∃ output, Cli.showFrame bytes (Cli.formatOf around format) = .ok output) ↔ _ :=
      Cli.showFrame_ok_iff
    rw [Frame.defaultMaxPayload] at hshown
    -- The exit code is 0 when the answer is an output.
    rw [Cli.run_of_supplies hparse hsupplies, ← hshown]
    cases h : Cli.showFrame bytes (Cli.formatOf around format) with
    | ok output => simp [Outcome.ofAnswer]
    | error e => simp [Outcome.ofAnswer, Cli.showFrame_error h, CliError.dataCode]
  · intro around around' arguments format path hex frame rest rest' hlevel hterminal hparse hlimit
      hsupplies hsupplies'
    -- Both runs are asked the same.
    have hparse' : Arguments.parse around'.logLevel arguments =
        .ok ⟨format, .decode path hex⟩ := hlevel ▸ hparse
    rw [Cli.run_of_supplies hparse hsupplies, Cli.run_of_supplies hparse' hsupplies']
    simp only [Cli.formatOf, hterminal]
    -- A frame is refused from its header alone, or all that is looked at is the frame.
    by_cases hlarge : Frame.defaultMaxPayload < frame.payload.length
    · rw [Cli.showFrame_octets_of_large hlarge hlimit, Cli.showFrame_octets_of_large hlarge hlimit]
    · rw [Cli.showFrame_octets (Nat.le_of_not_lt hlarge),
        Cli.showFrame_octets (Nat.le_of_not_lt hlarge)]

/-- `run` on a request in digits, and on the same with one more octet behind it. -/
theorem decode_classifies_request :
    let frame : Frame := ⟨⟨2, 2⟩, 7, []⟩
    let text : Bytes := Bytes.ofText "5350 00000000 02 0200 07000000 00000000"
    let around (text : Bytes) : Surroundings :=
      ⟨.ok text, fun _ => .error .missing, none, false, ""⟩
    let arguments := ["decode", "--hex", "-"]
    Arguments.parse none arguments = .ok ⟨none, .decode "-" true⟩ ∧
      (around text).Supplies "-" true frame.octets ∧
      (Cli.run (around text) arguments).exitCode = 0 ∧
      (around (text ++ Bytes.ofText " fF\n")).Supplies "-" true (frame.octets ++ [0xFF]) ∧
      Cli.run (around (text ++ Bytes.ofText " fF\n")) arguments =
        Cli.run (around text) arguments := by
  intro frame text around arguments
  have hparse : Arguments.parse none arguments = .ok ⟨none, .decode "-" true⟩ := by decide +kernel
  have hsupplies : (around text).Supplies "-" true frame.octets := ⟨text, rfl, by
    show HexInput.Spells _ _
    decide +kernel⟩
  have hsupplies' : (around (text ++ Bytes.ofText " fF\n")).Supplies "-" true
      (frame.octets ++ [0xFF]) := ⟨_, rfl, by
    show HexInput.Spells _ _
    decide +kernel⟩
  have hindex : (MessageType.main .listOSesRequest).recordType.index [] = .ok [] := by
    decide +kernel
  have hread : Message.decode .ofLocal (.main .listOSesRequest) frame.payload =
      .ok (.new (.main .listOSesRequest)) := by
    simp only [frame, Message.decode, Message.decodeInto, Message.new, RecordType.decodeMessage,
      hindex]
    rfl
  have hshown : frame.IsShown := .inr ⟨_, _, ⟨.main, 2, by decide, rfl⟩, hread⟩
  refine ⟨hparse, hsupplies, ?_, hsupplies', ?_⟩
  · exact (decode_classifies.1 (around text) arguments none "-" true _ hparse hsupplies).2
      ⟨frame, [], (List.append_nil _).symm, by decide, hshown⟩
  · exact decode_classifies.2.2 (around text) (around _) arguments none "-" true frame [] [0xFF]
      rfl rfl hparse (by decide) (by rwa [List.append_nil]) hsupplies'

end Storefront
