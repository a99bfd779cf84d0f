import Storefront.Bytes

/-! # Hexadecimal text

Numbers and octets in base sixteen, with lower-case digits on output and either case on input.
-/

namespace Storefront.Hex

/-- The digits of base sixteen in order of value. -/
def digits : List Char :=
  ['0', '1', '2', '3', '4', '5', '6', '7', '8', '9', 'a', 'b', 'c', 'd', 'e', 'f']

/-- The digit of value `n % 16`. -/
def digit (n : Nat) : Char := (digits[n % 16]?).getD '0'

/-- The value of a digit, if the character is one. -/
def value? (c : Char) : Option Nat :=
  if '0' ≤ c ∧ c ≤ '9' then some (c.toNat - '0'.toNat)
  else if 'a' ≤ c ∧ c ≤ 'f' then some (c.toNat - 'a'.toNat + 10)
  else if 'A' ≤ c ∧ c ≤ 'F' then some (c.toNat - 'A'.toNat + 10)
  else none

theorem value?_digit (n : Nat) : value? (digit n) = some (n % 16) := by
  have h : n % 16 < 16 := Nat.mod_lt _ (by decide)
  -- There are sixteen digits to look at.
  have all : ∀ k, k < 16 → value? ((digits[k]?).getD '0') = some k := by decide
  exact all _ h

/-- The digits of `n` without leading zeros; zero is one digit. -/
def ofNat (n : Nat) : List Char := Nat.toDigits 16 n

/-- The two digits of an octet. -/
def ofByte (b : UInt8) : List Char := [digit (b.toNat / 16), digit b.toNat]

/-- The digits of a byte string, two for every octet. -/
def ofBytes (bs : Bytes) : String := String.ofList (bs.flatMap ofByte)

/-- The octets that pairs of digits spell, or `none` when there is an odd one out or a character
that is no digit. -/
def toBytes? : List Char → Option Bytes
  | [] => some []
  | [_] => none
  | a :: b :: rest =>
    match value? a, value? b, toBytes? rest with
    | some high, some low, some bs => some ((high * 16 + low).toUInt8 :: bs)
    | _, _, _ => none

end Storefront.Hex
