import Storefront.Cli.Run

/-! # The program

Hands the arguments and the surroundings to the run and passes on what it comes to.
-/

namespace Storefront

/-- Octets as a list. -/
def octetsOf (bs : ByteArray) : Bytes := bs.toList

/-- What a failed read means. -/
def FileFault.ofError : IO.Error → FileFault
  | .noFileOrDirectory .. => .missing
  | .permissionDenied .. => .denied
  | e@(.inappropriateType _ code _) | e@(.invalidArgument _ code _) =>
    -- Some failures carry their number negated.
    match min code.toNat (0x100000000 - code.toNat) with
    | 20 => .notDirectory
    | 21 => .isDirectory
    | 36 => .nameTooLong
    | _ => .other (toString e)
  | e => .other (toString e)

/-- Reads octets, or says why not. -/
def readOctets (read : IO ByteArray) : IO (Except FileFault Bytes) := do
  try
    return .ok (octetsOf (← read))
  catch e =>
    return .error (.ofError e)

/-- The file that the arguments ask for, read beforehand; nothing is read for other commands. -/
def inputPath? (arguments : List String) (level : Option String) : Option String :=
  match Arguments.parse level arguments with
  | .ok ⟨_, .decode path _⟩ => some path
  | _ => none

end Storefront

open Storefront

/-- Runs the program on the arguments it was started with. -/
def main (arguments : List String) : IO UInt32 := do
  let logLevel ← IO.getEnv "STOREPROTO_LOG_LEVEL"
  let path := inputPath? arguments logLevel
  -- Only what the command is going to read is read: a terminal would wait for input otherwise.
  let input ←
    if path = some "-" then readOctets (do (← IO.getStdin).readBinToEnd)
    else pure (.ok [])
  let file ← match path with
    | some path => if path = "-" then pure (.ok []) else readOctets (IO.FS.readBinFile path)
    | none => pure (.ok [])
  let stdout ← IO.getStdout
  let around : Surroundings :=
    { input, file := fun _ => file, logLevel, terminal := ← stdout.isTty, target := "unknown" }
  let outcome := Cli.run around arguments
  stdout.write outcome.output.toByteArray
  if let some e := outcome.error then
    IO.eprintln s!"error: {e.message}"
  return outcome.exitCode.toUInt32
