import Storefront.Json.Value

/-! # How large numbers may be

A number that no double-precision number can hold is refused, whatever it is for.  The digits are
cut to as many as fit 64 bits; these and the power of ten are each rounded to 53 bits and
multiplied, and the number is too large when the product, rounded likewise, is above the largest
finite one.
-/

namespace Storefront

/-- Rounds a number to 53 bits, to the even neighbour when two are equally near. -/
def roundTo53 (n : Nat) : Nat :=
  let unit := 1 <<< (n.log2 - 52)
  let below := n / unit
  let rest := n % unit
  let up := unit < 2 * rest || (2 * rest == unit && below % 2 == 1)
  (if up then below + 1 else below) * unit

namespace Numeral

/-- The digits of a number as far as they fit 64 bits, and the power of ten they stand for. -/
structure Leading where
  digits : Nat
  power : Int
  deriving DecidableEq, Repr

/-- Takes digits before the point.  The first one that does not fit and all after it are dropped. -/
def leadingWhole (digits : Nat) : List Nat → Leading
  | [] => ⟨digits, 0⟩
  | d :: ds =>
    if digits * 10 + d < 0x10000000000000000 then leadingWhole (digits * 10 + d) ds
    else ⟨digits, (d :: ds).length⟩

/-- Takes digits behind the point up to the first one that does not fit. -/
def leadingFraction (x : Leading) : List Nat → Leading
  | [] => x
  | d :: ds =>
    if x.digits * 10 + d < 0x10000000000000000 then
      leadingFraction ⟨x.digits * 10 + d, x.power - 1⟩ ds
    else x

/-- The digits of a number as far as they fit 64 bits. -/
def leading (n : Numeral) : Leading :=
  let x := leadingFraction (leadingWhole 0 n.whole) n.fraction
  { x with power := x.power + n.exponent.getD 0 }

/-- True when no double-precision number can hold the number. -/
def isTooLarge (n : Numeral) : Bool :=
  let x := n.leading
  -- The least number that is rounded to no finite one lies half a unit above the largest.
  x.digits != 0 && (308 < x.power ||
    0 ≤ x.power &&
      (1 <<< 1024) - (1 <<< 970) ≤ roundTo53 x.digits * roundTo53 (Nat.pow 10 x.power.toNat))

/-- The natural number of 64 bits that a numeral writes without sign, point or exponent. -/
def natural? (n : Numeral) : Option Nat :=
  let x := n.leading
  if n.negative ∨ n.fraction ≠ [] ∨ n.exponent ≠ none ∨ x.power ≠ 0 then none
  else some x.digits

end Numeral

end Storefront
