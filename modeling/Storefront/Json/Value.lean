import Storefront.Text.Hex

/-! # JSON values

What a JSON document says, and how it is written: without blanks, members in the order given, and in
texts no more escaped than has to be.
-/

namespace Storefront

/-- A number, digit by digit. -/
structure Numeral where
  negative : Bool
  /-- The digits before the point. -/
  whole : List Nat
  /-- The digits behind the point; none if there is no point. -/
  fraction : List Nat
  /-- The power of ten, if one is given. -/
  exponent : Option Int
  deriving DecidableEq, Repr

/-- A JSON value. -/
inductive JsonValue where
  | null
  | flag (b : Bool)
  /-- A natural number of 64 bits, written without sign, point or exponent. -/
  | natural (n : Nat)
  /-- Any other number. -/
  | numeral (n : Numeral)
  | text (s : String)
  | list (items : List JsonValue)
  /-- Members in the order in which they stand. -/
  | object (members : List (String × JsonValue))

namespace JsonValue

/-- The octets of characters that are all ASCII. -/
def ascii (cs : List Char) : Bytes := cs.map fun c => c.toNat.toUInt8

/-- The decimal digits of a number. -/
def decimal (n : Nat) : Bytes := ascii (Nat.toDigits 10 n)

/-- The letter of the short escape of an octet that has one. -/
def shortEscape? (b : UInt8) : Option Char :=
  match Char.ofNat b.toNat with
  | '\"' => some '\"'
  | '\\' => some '\\'
  | '\x08' => some 'b'
  | '\t' => some 't'
  | '\n' => some 'n'
  | '\x0c' => some 'f'
  | '\r' => some 'r'
  | _ => none

/-- An octet of a text: escaped if it is a quote, a backslash or a control character. -/
def escapeByte (b : UInt8) : Bytes :=
  match shortEscape? b with
  | some letter => ascii ['\\', letter]
  | none => if b < 0x20 then ascii (['\\', 'u', '0', '0'] ++ Hex.ofByte b) else [b]

/-- A text between quotes. -/
def writeText (s : String) : Bytes :=
  ascii ['\"'] ++ (Bytes.ofText s).flatMap escapeByte ++ ascii ['\"']

/-- A number in digits. -/
def writeNumeral (n : Numeral) : Bytes :=
  (if n.negative then ascii ['-'] else []) ++ n.whole.flatMap decimal ++
    (if n.fraction = [] then [] else ascii ['.'] ++ n.fraction.flatMap decimal) ++
    match n.exponent with
    | none => []
    | some (.ofNat e) => ascii ['e'] ++ decimal e
    | some (.negSucc e) => ascii ['e', '-'] ++ decimal (e + 1)

mutual

/-- A value as it is written. -/
def write : JsonValue → Bytes
  | null => ascii ['n', 'u', 'l', 'l']
  | flag true => ascii ['t', 'r', 'u', 'e']
  | flag false => ascii ['f', 'a', 'l', 's', 'e']
  | natural n => decimal n
  | numeral n => writeNumeral n
  | text s => writeText s
  | list [] => ascii ['[', ']']
  | list (v :: vs) => ascii ['['] ++ write v ++ writeItems vs
  | object [] => ascii ['\x7b', '\x7d']
  | object ((name, v) :: ms) =>
    ascii ['\x7b'] ++ writeText name ++ ascii [':'] ++ write v ++ writeMembers ms

/-- The elements behind the first one, and the end of the list. -/
def writeItems : List JsonValue → Bytes
  | [] => ascii [']']
  | v :: vs => ascii [','] ++ write v ++ writeItems vs

/-- The members behind the first one, and the end of the object. -/
def writeMembers : List (String × JsonValue) → Bytes
  | [] => ascii ['\x7d']
  | (name, v) :: ms =>
    ascii [','] ++ writeText name ++ ascii [':'] ++ write v ++ writeMembers ms

end

/-- The value of a member.  Of several members of one name the last one counts. -/
def member? (name : String) (members : List (String × JsonValue)) : Option JsonValue :=
  members.reverse.lookup name

end JsonValue

end Storefront
