import Storefront.Cli.Error
import Storefront.Text.Hex
import Storefront.Text.Utf8

/-! # Input of commands

A frame is given as it is or in hexadecimal digits, two for an octet, with blanks anywhere.
-/

namespace Storefront.HexInput

/-- True for the blanks that may stand among digits. -/
def isBlank (b : UInt8) : Bool :=
  b == 0x20 || b == 0x09 || b == 0x0A || b == 0x0C || b == 0x0D

/-- The octet that two characters spell.  A plus may stand in front of a single digit. -/
def octet? (text : String) : Option UInt8 :=
  match text.toList with
  | ['+', d] => (Hex.value? d).map (·.toUInt8)
  | [high, low] =>
    match Hex.value? high, Hex.value? low with
    | some high, some low => some (high * 16 + low).toUInt8
    | _, _ => none
  | _ => none

/-- The octets that pairs of digits spell. -/
def ofPairs : Bytes → Except CliError Bytes
  | [] => .ok []
  | [_] => .error .oddDigits
  | a :: b :: rest =>
    match Utf8.decode [a, b] with
    | .error _ => .error .brokenDigits
    | .ok text =>
      match octet? text with
      | none => .error (.invalidDigits text)
      | some octet => (ofPairs rest).map (octet :: ·)

/-- The octets that digits spell. -/
def ofText (text : Bytes) : Except CliError Bytes :=
  -- Digits are paired after the blanks have gone, so a pair may stand apart.
  let digits := text.filter fun b => !isBlank b
  if digits.length % 2 = 0 then ofPairs digits else .error .oddDigits

end Storefront.HexInput
