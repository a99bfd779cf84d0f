import Storefront.Cli.Arguments
import Storefront.Cli.Input
import Storefront.Cli.Table
import Storefront.Dump.Value
import Storefront.Json.Value
import Storefront.Store.Registry

/-! # Running commands

Every command answers with octets for the standard output.  JSON answers are one line; the other
formats are lines for people.
-/

namespace Storefront

/-- What a run can ask of its surroundings. -/
structure Surroundings where
  /-- The standard input. -/
  input : Except FileFault Bytes
  /-- The contents of files by path. -/
  file : String → Except FileFault Bytes
  /-- The log level that is set, if one is. -/
  logLevel : Option String
  /-- True when the output is read by a person. -/
  terminal : Bool
  /-- What the program was built for. -/
  target : String

/-- What a run comes to. -/
structure Outcome where
  exitCode : Nat
  output : Bytes
  /-- Why the run failed. -/
  error : Option CliError

namespace Cli

/-- The name of the program. -/
def name : String := "storeproto"

/-- The version of the program. -/
def version : String := "0.1.0"

/-- Lines of text. -/
def lines (ls : List String) : Bytes := Bytes.ofText (String.join (ls.map (· ++ "\n")))

/-- A JSON value on a line of its own. -/
def jsonLine (v : JsonValue) : Bytes := v.write ++ Bytes.ofText "\n"

/-- A text or null. -/
def textOrNull (s : Option String) : JsonValue := s.elim .null .text

/-- A cell of a table that may be empty. -/
def cellOrDash (s : Option String) : String := s.getD "-"

/-- What the program is and what it speaks. -/
def showVersion (target : String) (format : OutputFormat) : Bytes :=
  let features := ["cli", "peer"]
  let records := Family.all.map fun f =>
    let r := VersionRecord.ofLocal f
    (f.name, r.version.toNat, r.namedCounters.map fun (feature, n) => (feature, n.toNat))
  match format with
  | .json =>
    jsonLine (.object
      [("name", .text name), ("version", .text version), ("target", .text target),
        ("features", .list (features.map .text)),
        ("families", .list (records.map fun (family, version, counters) =>
          .object [("family", .text family), ("version", .natural version),
            ("counters", .list (counters.map fun (feature, n) =>
              .list [.text feature, .natural n]))]))])
  | .table | .pretty =>
    lines ([s!"name: {name}", s!"version: {version}", s!"target: {target}",
      "features: " ++ ", ".intercalate features] ++
      records.map fun (family, version, counters) =>
        let shown := " ".intercalate (counters.map fun (feature, n) => s!"{feature}={n}")
        s!"{family}: version={version} {shown}")

/-- The number of a family that is written in digits, with or without a plus in front. -/
def familyNumber? (s : String) : Option UInt8 :=
  let digits := match s.toList with
    | '+' :: cs => cs
    | cs => cs
  if digits.isEmpty ∨ ¬ digits.all Char.isDigit then none
  else
    let n : Nat := digits.foldl (fun n d => n * 10 + (d.toNat - '0'.toNat)) 0
    if n < 256 then some n.toUInt8 else none

/-- The family that is meant by a number or, in upper or lower case, by a name. -/
def resolveFamily (registry : Registry) (family : String) : Except CliError UInt8 :=
  -- A number that no family has may still be a name.
  match (familyNumber? family).filter fun id => registry.families.any (·.1 == id) with
  | some id => .ok id
  | none =>
    match registry.families.find? fun known => known.2.toLower == family.toLower with
    | some (id, _) => .ok id
    | none => .error (.unknownFamily family)

/-- All messages, or those of one family. -/
def showFamilies (only : Option String) (format : OutputFormat) : Except CliError Bytes := do
  let registry := Registry.standard
  let only ← only.mapM (resolveFamily registry)
  let entries := registry.registrations.filter fun entry =>
    only.all (entry.key.family == ·)
  let familyOf := fun (entry : Registration) =>
    (registry.families.lookup entry.key.family).getD "unknown"
  match format with
  | .json =>
    pure (jsonLine (.list (entries.map fun entry => .object
      [("family", .natural entry.key.family.toNat), ("family_name", .text (familyOf entry)),
        ("message", .natural entry.key.message.toNat), ("name", .text entry.type.name),
        ("format_version", .natural formatVersion)])))
  | .table =>
    pure (lines (Table.draw ["KEY", "FAMILY", "MESSAGE", "FORMAT"] (entries.map fun entry =>
      [entry.key.text, familyOf entry, entry.type.name, toString formatVersion])))
  | .pretty =>
    pure (lines (entries.map fun entry =>
      s!"{entry.key.text} {familyOf entry}.{entry.type.name}"))

/-- All result codes. -/
def showErrors (format : OutputFormat) : Bytes :=
  let category := Condition.category
  match format with
  | .json =>
    jsonLine (.object
      [("category", .text category),
        ("codes", .list (ErrorCode.all.map fun c => .object
          [("code", .natural c.code), ("name", .text c.name), ("text", .text c.text)]))])
  | .table =>
    lines (Table.draw ["CODE", "NAME", "TEXT"] (ErrorCode.all.map fun c =>
      [toString c.code, c.name, c.text]))
  | .pretty =>
    lines (ErrorCode.all.map fun c => s!"({category}:{c.code}) {c.name} {c.text}")

/-- A number at the right of three places. -/
def padLeft (n : Nat) : String :=
  let digits := toString n
  String.ofList (List.replicate (3 - digits.length) ' ') ++ digits

/-- The fields of a new message. -/
def showSchema (family message : String) (bare : Bool) (format : OutputFormat) :
    Except CliError Bytes := do
  let registry := Registry.standard
  let id ← resolveFamily registry family
  match registry.find? id message with
  | none => .error (.unknownMessage family message)
  | some entry =>
    let context := if bare then Context.empty else Context.ofLocal
    let infos := (Message.new entry.type).inspect context
    let wireName := fun (info : FieldInfo) => info.wireType.name.toLower
    let title := s!"{entry.type.name} ({entry.key.text})"
    match format with
    | .json =>
      pure (jsonLine (.object
        [("key", .text entry.key.text), ("message", .text entry.type.name),
          ("negotiated", .flag (!bare)),
          ("tags", .list (infos.map fun info => .object
            [("tag", .natural info.tag), ("name", .text info.name),
              ("wire_type", .text (wireName info)),
              ("max_size", info.maxSize.elim .null .natural),
              ("group", textOrNull info.group)]))]))
    | .table =>
      -- A bound or group that there is not shows as a dash.
      pure (lines (title :: Table.draw ["TAG", "NAME", "WIRE", "MAX", "GROUP"]
        (infos.map fun info =>
          [toString info.tag, info.name, wireName info,
            cellOrDash (info.maxSize.map toString), cellOrDash info.group])))
    | .pretty =>
      pure (lines (title :: infos.map fun info =>
        s!"  {padLeft info.tag} {info.name} [{wireName info}]"))

/-- The message of a frame: its name and what it looks like.  A keepalive has no looks. -/
def frameContent (frame : Frame) : Except CliError (String × Option String) :=
  if frame.isKeepalive then .ok ("keepalive", none)
  else
    match Registry.standard.decodeFrame frame Context.ofLocal with
    | .error e => .error (.decode e)
    | .ok m => .ok (m.type.name, some (m.dump (.tree 0)))

/-- The first frame of the input and the message it carries. -/
def showFrame (input : Bytes) (format : OutputFormat) : Except CliError Bytes :=
  match Frame.decode Frame.defaultMaxPayload input with
  | .error e => .error (.frame e)
  | .ok none => .error (.incompleteFrame input.length)
  | .ok (some (frame, _)) => do
    let (message, value) ← frameContent frame
    let key := frame.key.text
    let family := familyName frame.key.family
    let size := frame.payload.length
    match format with
    | .json =>
      pure (jsonLine (.object
        [("key", .text key), ("family", .text family), ("message", .text message),
          ("request_id", .natural frame.requestId.toNat), ("payload_len", .natural size),
          ("value", textOrNull value)]))
    | .table | .pretty =>
      pure (lines ([s!"key: {key} ({family}.{message})", s!"request id: {frame.requestId}",
        s!"payload: {size} bytes"] ++ value.toList))

/-- The input of a decode: the standard input for a dash, otherwise a file. -/
def readInput (around : Surroundings) (path : String) (hex : Bool) : Except CliError Bytes := do
  let raw ←
    if path = "-" then around.input.mapError (.file "stdin")
    else (around.file path).mapError (.file path)
  if hex then HexInput.ofText raw else pure raw

/-- The answer to a command. -/
def answer (around : Surroundings) (format : OutputFormat) : Command → Except CliError Bytes
  | .version false => .ok (lines [s!"{name} {version}"])
  | .version true => .ok (showVersion around.target format)
  | .families only => showFamilies only format
  | .errors => .ok (showErrors format)
  | .schema family message bare => showSchema family message bare format
  | .decode input hex => do showFrame (← readInput around input hex) format

/-- How the program is used. -/
def usage : List String :=
  ["Inspect the app-store wire protocol", "", s!"Usage: {name} [OPTIONS] <COMMAND>", "",
    "Commands: version, families, errors, schema, decode, help",
    "Options: --format <json|table|pretty>, --log-format <text|json>, --log-level <LEVEL>, " ++
      "--help, --version"]

/-- The code that misuse ends the program with. -/
def misuseCode : Nat := 2

/-- Runs the program. -/
def run (around : Surroundings) (arguments : List String) : Outcome :=
  match Arguments.parse around.logLevel arguments with
  | .error .help => ⟨0, lines usage, none⟩
  | .error .version => ⟨0, lines [s!"{name} {version}"], none⟩
  | .error .misuse => ⟨misuseCode, [], none⟩
  | .ok invocation =>
    let format := invocation.format.getD (if around.terminal then .table else .json)
    match answer around format invocation.command with
    | .ok output => ⟨0, output, none⟩
    | .error e => ⟨e.exitCode, [], some e⟩

end Cli

end Storefront
