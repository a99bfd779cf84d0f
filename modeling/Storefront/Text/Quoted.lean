import Storefront.Text.Hex
import Storefront.Text.Printable

/-! # Quoted text

A dump shows texts and octets between double quotes.  A character with a short escape is shown by
it; a hidden character or octet by its number; anything else as it is.
-/

namespace Storefront.Quoted

/-- The letter of the short escape of a character that has one. -/
def shortEscape? (c : Char) : Option Char :=
  if c = '\x00' then some '0'
  else if c = '\t' then some 't'
  else if c = '\n' then some 'n'
  else if c = '\r' then some 'r'
  else if c = '\"' then some '\"'
  else if c = '\\' then some '\\'
  else none

/-- A character of a text as a dump shows it. -/
def escapeChar (c : Char) : List Char :=
  match shortEscape? c with
  | some letter => ['\\', letter]
  | none =>
    -- The number of a character is written as short as it can be.
    if Printable.isHidden c then
      ['\\', 'u', '\x7b'] ++ Hex.ofNat c.toNat ++ ['\x7d']
    else [c]

/-- A text as a dump shows it. -/
def text (s : String) : String :=
  String.ofList ('\"' :: s.toList.flatMap escapeChar ++ ['\"'])

/-- An octet as a dump shows it. -/
def escapeByte (b : UInt8) : List Char :=
  let c := Char.ofNat b.toNat
  match shortEscape? c with
  | some letter => ['\\', letter]
  | none => if 0x20 ≤ b && b < 0x7F then [c] else ['\\', 'x'] ++ Hex.ofByte b

/-- Octets as a dump shows them. -/
def bytes (bs : Bytes) : String :=
  String.ofList ('b' :: '\"' :: bs.flatMap escapeByte ++ ['\"'])

end Storefront.Quoted
