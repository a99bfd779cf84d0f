import Storefront.Json.Magnitude
import Storefront.Text.Utf8

/-! # The parts of JSON

Blanks, words, numbers and texts, read off the front of octets.  Each scanner answers what is left;
the lemmas named `shorter` say that this is less than there was.

A document is read from left to right, and the first fault met decides.  Octets that end too early
are told apart from octets that no document has in that place.
-/

namespace Storefront

/-- Why a JSON document cannot be read. -/
inductive JsonFault where
  /-- The octets end inside the document. -/
  | incomplete
  /-- The octets are no JSON. -/
  | malformed
  /-- The octets are JSON but not what is called for. -/
  | mismatched
  deriving DecidableEq, Repr

namespace JsonScan

/-- The octet of an ASCII character. -/
abbrev octet (c : Char) : UInt8 := c.toNat.toUInt8

/-- True for the octets that may stand between the parts of a document. -/
def isBlank (b : UInt8) : Bool :=
  b == octet ' ' || b == octet '\n' || b == octet '\t' || b == octet '\r'

/-- Drops the blanks at the front. -/
def skipBlanks : Bytes → Bytes
  | [] => []
  | b :: rest => if isBlank b then skipBlanks rest else b :: rest

theorem length_skipBlanks_le (s : Bytes) : (skipBlanks s).length ≤ s.length := by
  induction s with
  | nil => simp [skipBlanks]
  | cons b rest ih =>
    rw [skipBlanks]
    split
    · exact Nat.le_succ_of_le ih
    · exact Nat.le_refl _

theorem lt_of_skipBlanks_eq_cons {s rest : Bytes} {b : UInt8} (h : skipBlanks s = b :: rest) :
    rest.length < s.length := by
  have := length_skipBlanks_le s
  rw [h, List.length_cons] at this
  exact this

/-- Expects the given octets at the front. -/
def word : (expected : Bytes) → Bytes → Except JsonFault Bytes
  | [], s => .ok s
  | _ :: _, [] => .error .incomplete
  | e :: es, b :: rest => if b = e then word es rest else .error .malformed

theorem word_shorter {es s r : Bytes} (h : word es s = .ok r) : r.length ≤ s.length := by
  induction es generalizing s with
  | nil => simp_all [word]
  | cons e es ih =>
    cases s with
    | nil => simp [word] at h
    | cons b rest =>
      rw [word] at h
      split at h
      · have := ih h; simp; omega
      · simp at h

/-! ## Numbers -/

/-- The value of a decimal digit, if the octet is one. -/
def digit? (b : UInt8) : Option Nat :=
  if octet '0' ≤ b && b ≤ octet '9' then some (b.toNat - '0'.toNat) else none

/-- Splits off the digits at the front. -/
def digits : Bytes → List Nat × Bytes
  | [] => ([], [])
  | b :: rest =>
    match digit? b with
    | some d => let x := digits rest; (d :: x.1, x.2)
    | none => ([], b :: rest)

theorem digits_shorter (s : Bytes) : (digits s).2.length + (digits s).1.length = s.length := by
  induction s with
  | nil => rfl
  | cons b rest ih =>
    rw [digits]
    split
    · rw [List.length_cons, List.length_cons, ← ih]
      rfl
    · simp

/-- Splits off the digits at the front, of which there has to be one. -/
def someDigits (s : Bytes) : Except JsonFault (List Nat × Bytes) :=
  match digits s with
  | ([], []) => .error .incomplete
  | ([], _ :: _) => .error .malformed
  | (d :: ds, r) => .ok (d :: ds, r)

theorem someDigits_shorter {s r : Bytes} {ds : List Nat} (h : someDigits s = .ok (ds, r)) :
    r.length < s.length := by
  have hs := digits_shorter s
  unfold someDigits at h
  split at h
  · simp at h
  · simp at h
  · rename_i d ds' r' hd
    simp only [Except.ok.injEq, Prod.mk.injEq] at h
    obtain ⟨rfl, rfl⟩ := h
    simp only [hd, List.length_cons] at hs
    omega

/-- The digits before the point: one of them, or more of which the first is not zero. -/
def wholePart (s : Bytes) : Except JsonFault (List Nat × Bytes) :=
  match someDigits s with
  | .error e => .error e
  | .ok (ds, r) => if ds.head? = some 0 ∧ ds.length ≠ 1 then .error .malformed else .ok (ds, r)

theorem wholePart_shorter {s r : Bytes} {ds : List Nat} (h : wholePart s = .ok (ds, r)) :
    r.length < s.length := by
  unfold wholePart at h
  split at h
  · simp at h
  · rename_i hd
    split at h <;> simp at h
    obtain ⟨rfl, rfl⟩ := h
    exact someDigits_shorter hd

/-- The digits behind the point, if there is one. -/
def fractionPart : Bytes → Except JsonFault (List Nat × Bytes)
  | [] => .ok ([], [])
  | b :: rest => if b = octet '.' then someDigits rest else .ok ([], b :: rest)

theorem fractionPart_shorter {s r : Bytes} {ds : List Nat} (h : fractionPart s = .ok (ds, r)) :
    r.length ≤ s.length := by
  cases s with
  | nil => simp [fractionPart] at h; simp [h]
  | cons b rest =>
    rw [fractionPart] at h
    split at h
    · have := someDigits_shorter h; simp; omega
    · simp at h; simp [← h.2]

/-- Splits off a sign.  Answers whether it is a minus. -/
def sign : Bytes → Bool × Bytes
  | [] => (false, [])
  | b :: rest =>
    if b = octet '-' then (true, rest)
    else if b = octet '+' then (false, rest)
    else (false, b :: rest)

theorem sign_shorter (s : Bytes) : (sign s).2.length ≤ s.length := by
  cases s with
  | nil => simp [sign]
  | cons b rest => rw [sign]; (repeat' split) <;> simp

/-- The power of ten, if one is given. -/
def exponentPart : Bytes → Except JsonFault (Option Int × Bytes)
  | [] => .ok (none, [])
  | b :: rest =>
    if b = octet 'e' ∨ b = octet 'E' then
      match someDigits (sign rest).2 with
      | .error e => .error e
      | .ok (ds, r) =>
        -- The sign belongs to the exponent as a whole and may stand before zeros.
        let power : Nat := ds.foldl (fun n d => n * 10 + d) 0
        .ok (some (if (sign rest).1 then -power else power), r)
    else .ok (none, b :: rest)

theorem exponentPart_shorter {s r : Bytes} {e : Option Int} (h : exponentPart s = .ok (e, r)) :
    r.length ≤ s.length := by
  cases s with
  | nil => simp [exponentPart] at h; simp [h]
  | cons b rest =>
    rw [exponentPart] at h
    split at h
    · split at h
      · simp at h
      · rename_i hd
        have h₁ := someDigits_shorter hd
        have h₂ := sign_shorter rest
        simp only [Except.ok.injEq, Prod.mk.injEq] at h
        rw [← h.2, List.length_cons]
        omega
    · simp at h; simp [← h.2]

/-- A number.  The octets start with a minus or a digit. -/
def numeral (s : Bytes) : Except JsonFault (Numeral × Bytes) :=
  let negative := s.head? = some (octet '-')
  match wholePart (if negative then s.tail else s) with
  | .error e => .error e
  | .ok (whole, s) =>
    match fractionPart s with
    | .error e => .error e
    | .ok (fraction, s) =>
      match exponentPart s with
      | .error e => .error e
      | .ok (exponent, s) => .ok (⟨negative, whole, fraction, exponent⟩, s)

theorem numeral_shorter {s r : Bytes} {n : Numeral} (h : numeral s = .ok (n, r)) :
    r.length < s.length := by
  unfold numeral at h
  simp only at h
  split at h
  · simp at h
  · rename_i hw
    split at h
    · simp at h
    · rename_i hf
      split at h
      · simp at h
      · rename_i he
        simp at h
        have hw := wholePart_shorter hw
        have hf := fractionPart_shorter hf
        have he := exponentPart_shorter he
        have ht : (if s.head? = some (octet '-') then s.tail else s).length ≤ s.length := by
          split <;> simp
        rw [← h.2]
        omega

/-- The value of a number, which may not be too large. -/
def number (s : Bytes) : Except JsonFault (JsonValue × Bytes) :=
  match numeral s with
  | .error e => .error e
  | .ok (n, r) =>
    if n.isTooLarge then .error .malformed
    else .ok (match n.natural? with
      | some n => .natural n
      | none => .numeral n, r)

theorem number_shorter {s r : Bytes} {v : JsonValue} (h : number s = .ok (v, r)) :
    r.length < s.length := by
  unfold number at h
  split at h
  · simp at h
  · rename_i hn
    split at h <;> simp at h
    rw [← h.2]
    exact numeral_shorter hn

/-! ## Texts -/

/-- The value of a hexadecimal digit, if the octet is one. -/
def hexDigit? (b : UInt8) : Option Nat := Hex.value? (Char.ofNat b.toNat)

/-- A number of four hexadecimal digits. -/
def hexNumber : Bytes → Except JsonFault (Nat × Bytes)
  | a :: b :: c :: d :: rest =>
    match hexDigit? a, hexDigit? b, hexDigit? c, hexDigit? d with
    | some a, some b, some c, some d => .ok (((a * 16 + b) * 16 + c) * 16 + d, rest)
    | _, _, _, _ => .error .malformed
  | _ => .error .incomplete

theorem hexNumber_shorter {s r : Bytes} {n : Nat} (h : hexNumber s = .ok (n, r)) :
    r.length < s.length := by
  unfold hexNumber at h
  split at h
  · split at h <;> simp at h
    simp [← h.2]
    omega
  · simp at h

/-- Characters outside the basic plane are escaped as two numbers; this is the second one. -/
def secondHalf (s : Bytes) : Except JsonFault (Nat × Bytes) :=
  match word [octet '\\', octet 'u'] s with
  | .error e => .error e
  | .ok s =>
    match hexNumber s with
    | .error e => .error e
    | .ok (n, r) => if 0xDC00 ≤ n ∧ n ≤ 0xDFFF then .ok (n, r) else .error .malformed

theorem secondHalf_shorter {s r : Bytes} {n : Nat} (h : secondHalf s = .ok (n, r)) :
    r.length < s.length := by
  unfold secondHalf at h
  split at h
  · simp at h
  · rename_i hw
    split at h
    · simp at h
    · rename_i hn
      split at h <;> simp at h
      have hw := word_shorter hw
      have hn := hexNumber_shorter hn
      rw [← h.2]
      omega

/-- The octets of a code point. -/
def codePoint (n : Nat) : Bytes := Bytes.ofText (String.singleton (Char.ofNat n))

/-- The octets that a numbered escape stands for.  The two halves of a pair have to stand together
if the text is `wanted`; in a text that nobody wants any number will do. -/
def numbered (wanted : Bool) (s : Bytes) : Except JsonFault (Bytes × Bytes) :=
  match hexNumber s with
  | .error e => .error e
  | .ok (n, r) =>
    -- An unwanted half needs no other: only its digits are looked at.
    if ¬ wanted then .ok ([], r)
    else if 0xDC00 ≤ n ∧ n ≤ 0xDFFF then .error .malformed
    else if 0xD800 ≤ n ∧ n ≤ 0xDBFF then
      match secondHalf r with
      | .error e => .error e
      | .ok (m, r) => .ok (codePoint (0x10000 + (n - 0xD800) * 0x400 + (m - 0xDC00)), r)
    else .ok (codePoint n, r)

theorem numbered_shorter {wanted : Bool} {s r bs : Bytes}
    (h : numbered wanted s = .ok (bs, r)) : r.length < s.length := by
  unfold numbered at h
  split at h
  · simp at h
  · rename_i hn
    have hn := hexNumber_shorter hn
    split at h
    · simp at h; rw [← h.2]; exact hn
    · split at h
      · simp at h
      · split at h
        · split at h
          · simp at h
          · rename_i hs
            have hs := secondHalf_shorter hs
            simp at h
            rw [← h.2]
            omega
        · simp at h; rw [← h.2]; exact hn

/-- The octet that the letter of a short escape stands for. -/
def shortEscape? (letter : UInt8) : Option UInt8 :=
  match Char.ofNat letter.toNat with
  | '\"' => some (octet '\"')
  | '\\' => some (octet '\\')
  | '/' => some (octet '/')
  | 'b' => some 0x08
  | 'f' => some 0x0C
  | 'n' => some (octet '\n')
  | 'r' => some (octet '\r')
  | 't' => some (octet '\t')
  | _ => none

/-- The octets that an escape stands for, behind its backslash. -/
def escape (wanted : Bool) : Bytes → Except JsonFault (Bytes × Bytes)
  | [] => .error .incomplete
  | letter :: rest =>
    match shortEscape? letter with
    | some b => .ok ([b], rest)
    | none => if letter = octet 'u' then numbered wanted rest else .error .malformed

theorem escape_shorter {wanted : Bool} {s r bs : Bytes} (h : escape wanted s = .ok (bs, r)) :
    r.length < s.length := by
  cases s with
  | nil => simp [escape] at h
  | cons letter rest =>
    rw [escape] at h
    split at h
    · simp at h; simp [← h.2]
    · split at h
      · have := numbered_shorter h; simp; omega
      · simp at h

/-- The octets of a text up to the quote that ends it; `done` are those so far, last one first. -/
def octetsFrom (wanted : Bool) (done : Bytes) (s : Bytes) : Except JsonFault (Bytes × Bytes) :=
  match s with
  | [] => .error .incomplete
  | b :: rest =>
    if b = octet '\"' then .ok (done.reverse, rest)
    else if b = octet '\\' then
      match _h : escape wanted rest with
      | .error e => .error e
      | .ok (bs, r) => octetsFrom wanted (bs.reverse ++ done) r
    else if b < 0x20 then .error .malformed
    else octetsFrom wanted (b :: done) rest
termination_by s.length
decreasing_by
  · have := escape_shorter _h; simp; omega
  · simp

theorem octetsFrom_shorter {wanted : Bool} {done s r bs : Bytes}
    (h : octetsFrom wanted done s = .ok (bs, r)) : r.length < s.length := by
  fun_induction octetsFrom wanted done s with
  | case1 => simp at h
  | case2 => simp at h; simp [← h.2]
  | case3 => simp at h
  | case4 _ _ _ _ he _ ih =>
    have he := escape_shorter he
    have := ih h
    simp
    omega
  | case5 => simp at h
  | case6 _ _ _ _ _ _ ih => have := ih h; simp; omega

/-- The octets of a text, behind its opening quote. -/
def octets (wanted : Bool) (s : Bytes) : Except JsonFault (Bytes × Bytes) := octetsFrom wanted [] s

theorem octets_shorter {wanted : Bool} {s r bs : Bytes} (h : octets wanted s = .ok (bs, r)) :
    r.length < s.length :=
  octetsFrom_shorter h

/-- A text, behind its opening quote. -/
def text (s : Bytes) : Except JsonFault (String × Bytes) :=
  match octets true s with
  | .error e => .error e
  | .ok (bs, r) =>
    -- A text is looked at as a whole: its end has been found before its characters are.
    match Utf8.decode bs with
    | .ok t => .ok (t, r)
    | .error _ => .error .malformed

theorem text_shorter {s r : Bytes} {t : String} (h : text s = .ok (t, r)) :
    r.length < s.length := by
  unfold text at h
  split at h
  · simp at h
  · rename_i ho
    split at h <;> simp at h
    rw [← h.2]
    exact octets_shorter ho

end JsonScan

end Storefront
