import Mathlib.Data.List.Basic
import Storefront.Proofs.Json.Grammar

/-! # Numbers and texts as they are written

What is written of a natural number of 64 bits or of a text spells that number or text.

* `Number.octets_decimal`, `Number.value_decimal`   a number of 64 bits
* `Text.written`                                    a text, whatever characters are in it
-/

namespace Storefront

open JsonValue

namespace JsonScan

/-! ## Numbers -/

/-- The decimal digits of a number, the highest first. -/
def decimalDigits (n : Nat) : List Nat := (Nat.toDigits 10 n).map fun c => c.toNat - '0'.toNat

theorem toNat_digitChar {d : Nat} (h : d < 10) : d.digitChar.toNat - '0'.toNat = d := by
  interval_cases d <;> rfl

/-- `decimalDigits` with the last digit taken off the end. -/
theorem decimalDigits_eq (n : Nat) :
    decimalDigits n = if n < 10 then [n] else decimalDigits (n / 10) ++ [n % 10] := by
  unfold decimalDigits
  rw [Nat.toDigits_eq_if (by omega)]
  split
  · next h => rw [List.map_singleton, toNat_digitChar h]
  · rw [List.map_append, List.map_singleton, toNat_digitChar (Nat.mod_lt n (by omega))]

/-- `decimal` with the last octet taken off the end. -/
theorem decimal_eq (n : Nat) :
    decimal n = if n < 10 then [octet n.digitChar]
      else decimal (n / 10) ++ [octet (n % 10).digitChar] := by
  unfold decimal
  rw [Nat.toDigits_eq_if (by omega)]
  split
  · rfl
  · exact List.map_append

theorem decimalDigits_ne_nil (n : Nat) : decimalDigits n ≠ [] := by
  rw [decimalDigits_eq]
  split <;> simp

/-- `decimalDigits` are below ten. -/
theorem decimalDigits_lt (n : Nat) : ∀ d ∈ decimalDigits n, d < 10 := by
  induction n using Nat.strongRecOn with
  | ind n ih =>
    rw [decimalDigits_eq]
    split
    · simpa
    · intro d hd
      -- A digit of the quotient, or the remainder.
      rcases List.mem_append.1 hd with hd | hd
      · exact ih (n / 10) (by omega) d hd
      · obtain rfl := List.mem_singleton.1 hd
        exact Nat.mod_lt n (by omega)

/-- `decimalDigits` start with a zero for the number zero only. -/
theorem head?_decimalDigits {n : Nat} (h : 0 < n) : (decimalDigits n).head? ≠ some 0 := by
  induction n using Nat.strongRecOn with
  | ind n ih =>
    rw [decimalDigits_eq]
    split
    · simp
      omega
    · -- The digit in front is that of the number without its last digit.
      rw [List.head?_append_of_ne_nil _ (decimalDigits_ne_nil _)]
      exact ih (n / 10) (by omega) (by omega)

/-- `decimalDigits` amount to the number. -/
theorem foldl_decimalDigits (n : Nat) : (decimalDigits n).foldl (fun a d => a * 10 + d) 0 = n := by
  induction n using Nat.strongRecOn with
  | ind n ih =>
    rw [decimalDigits_eq]
    split
    · simp
    · -- The digits of the quotient amount to the quotient, to which the last one is added.
      rw [List.foldl_append, ih (n / 10) (by omega)]
      simp
      omega

/-- `decimal` writes the `decimalDigits`. -/
theorem map_decimalDigits (n : Nat) :
    (decimalDigits n).map (fun d => octet d.digitChar) = decimal n := by
  induction n using Nat.strongRecOn with
  | ind n ih =>
    rw [decimalDigits_eq, decimal_eq]
    split
    · rfl
    · rw [List.map_append, ih (n / 10) (by omega)]
      rfl

/-- More digits do not make a number smaller, by induction over the `foldl`. -/
theorem le_foldl_digits (ds : List Nat) (a : Nat) : a ≤ ds.foldl (fun a d => a * 10 + d) a := by
  induction ds generalizing a with
  | nil => exact Nat.le_refl a
  | cons d ds ih => exact Nat.le_trans (by omega) (ih (a * 10 + d))

/-- `leadingWhole` drops no digit of a number that fits 64 bits. -/
theorem leadingWhole_of_lt {ds : List Nat} {a : Nat}
    (h : ds.foldl (fun a d => a * 10 + d) a < 0x10000000000000000) :
    Numeral.leadingWhole a ds = ⟨ds.foldl (fun a d => a * 10 + d) a, 0⟩ := by
  induction ds generalizing a with
  | nil => rfl
  | cons d ds ih =>
    rw [List.foldl_cons] at h ⊢
    -- The number with one more digit is at most the whole number.
    have hd : a * 10 + d < 0x10000000000000000 := Nat.lt_of_le_of_lt (le_foldl_digits ds _) h
    rw [Numeral.leadingWhole, if_pos hd]
    exact ih h

/-- `natural?` reads the `decimalDigits` of a number of 64 bits as this number. -/
theorem natural?_decimalDigits {n : Nat} (h : n < 0x10000000000000000) :
    Numeral.natural? ⟨false, decimalDigits n, [], none⟩ = some n := by
  have hl := leadingWhole_of_lt ((foldl_decimalDigits n).symm ▸ h)
  rw [foldl_decimalDigits] at hl
  simp [Numeral.natural?, Numeral.leading, hl, Numeral.leadingFraction]

/-! ## Octets of texts -/

theorem toNat_ofNat {n : Nat} (h : n < 0x100) : (Char.ofNat n).toNat = n := by
  have hv : n.isValidChar := .inl (by omega)
  rw [Char.ofNat, dif_pos hv]
  rfl

/-- `octet` of such a character is this number. -/
theorem octet_ofNat (b : UInt8) : octet (Char.ofNat b.toNat) = b := by
  rw [octet, toNat_ofNat b.toNat_lt]
  simp

/-- `shortEscape?` reads the letter that stands for an octet as this octet. -/
theorem shortEscape?_letter {b : UInt8} {letter : Char}
    (h : JsonValue.shortEscape? b = some letter) : shortEscape? (octet letter) = some b := by
  have hb := octet_ofNat b
  unfold JsonValue.shortEscape? at h
  split at h <;> cases h <;> rename_i hc <;> rw [← hb, hc] <;> rfl

/-- `codePoint` of an ASCII character is one octet. -/
theorem codePoint_of_lt {n : Nat} (h : n < 0x80) : codePoint n = [n.toUInt8] := by
  have hc : (Char.ofNat n).val.toNat = n := toNat_ofNat (by omega)
  unfold codePoint Bytes.ofText
  rw [String.toByteArray_singleton]
  -- One octet is enough below `0x80`.
  simp [List.utf8Encode, String.utf8EncodeChar, hc]
  omega

/-- `hexDigit?` reads what `Hex.digit` writes as the lowest four bits. -/
theorem hexDigit?_digit (n : Nat) : hexDigit? (octet (Hex.digit n)) = some (n % 16) := by
  have h : n % 16 < 16 := Nat.mod_lt _ (by decide)
  -- There are sixteen digits to look at.
  have all : ∀ k, k < 16 → hexDigit? (octet ((Hex.digits[k]?).getD '0')) = some k := by decide
  exact all _ h

end JsonScan

namespace JsonGrammar

open JsonScan

/-! ## What is written -/

namespace Number

/-- A natural number as it is written. -/
def decimal (n : Nat) : Number where
  negative := false
  whole := ⟨decimalDigits n, decimalDigits_lt n, decimalDigits_ne_nil n⟩
  trimmed := by
    intro hzero
    obtain rfl | hn := Nat.eq_zero_or_pos n
    · rfl
    · exact absurd hzero (head?_decimalDigits hn)
  fraction := none
  exponent := none

/-- `decimal` is spelled by the octets that are written. -/
theorem octets_decimal (n : Nat) : (decimal n).octets = JsonValue.decimal n := by
  have hdigits : (decimal n).octets = (decimalDigits n).map fun d => octet d.digitChar := by
    simp [octets, tailOctets, decimal, Digits.octets]
  rw [hdigits, map_decimalDigits]

/-- `decimal` of a number of 64 bits is held as a natural number. -/
theorem value_decimal {n : Nat} (h : n < 0x10000000000000000) : (decimal n).value = .natural n := by
  have hnatural : (decimal n).numeral.natural? = some n := natural?_decimalDigits h
  rw [value, hnatural]

end Number

/-- The four digits that `Hex.ofByte` gives a control character amount to its number. -/
theorem quad_ofByte (b : UInt8) : Quad (ascii (['0', '0'] ++ Hex.ofByte b)) b.toNat := by
  have hb := b.toNat_lt
  have hzero : hexDigit? (octet '0') = some 0 := by decide
  have hquad : Quad (ascii (['0', '0'] ++ Hex.ofByte b)) _ :=
    .mk hzero hzero (hexDigit?_digit (b.toNat / 16)) (hexDigit?_digit b.toNat)
  -- Two zeros, the upper four bits and the lower four.
  have hnumber : ((0 * 16 + 0) * 16 + b.toNat / 16 % 16) * 16 + b.toNat % 16 = b.toNat := by
    omega
  exact hnumber ▸ hquad

/-- `escapeByte` writes an octet of a text as it is or escaped. -/
theorem Inside.escapeByte_append {s t : Bytes} (h : Inside s t) (b : UInt8) :
    Inside (escapeByte b ++ s) (b :: t) := by
  cases hb : JsonValue.shortEscape? b with
  | some letter =>
    simp only [escapeByte, hb]
    exact .short (shortEscape?_letter hb) h
  | none =>
    simp only [escapeByte, hb]
    by_cases hc : b < 0x20
    · have hn : b.toNat < 0x20 := hc
      -- A control character without a short escape is written with four digits.
      have hnumbered := Inside.numbered (quad_ofByte b) (by omega) (by omega) h
      have hpoint : codePoint b.toNat = [b] := by
        rw [codePoint_of_lt (by omega)]
        simp
      rw [hpoint] at hnumbered
      rw [if_pos hc]
      exact hnumbered
    · -- An octet that is no quote, no backslash and no control character stands for itself.
      rw [if_neg hc]
      have hquote : b ≠ octet '\"' := by
        rintro rfl
        cases hb
      have hslash : b ≠ octet '\\' := by
        rintro rfl
        cases hb
      exact .plain hquote hslash hc h

/-- `writeText` spells a text, whatever characters are in it. -/
theorem Text.written (t : String) : Text (writeText t) t := by
  -- By induction on the octets, whatever characters they belong to.
  have hinside (bs : Bytes) : Inside (bs.flatMap escapeByte) bs := by
    induction bs with
    | nil => exact .nil
    | cons b bs ih => exact ih.escapeByte_append b
  exact .mk (hinside (Bytes.ofText t))

end JsonGrammar

end Storefront
