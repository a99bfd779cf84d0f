import Mathlib.Tactic.IntervalCases
import Storefront.Json.Scan

/-! # How JSON is spelled

One value can be spelled in many ways: with blanks between its parts, with any character of a text
escaped, and with a number as in `1`, `1.0` or `10E-1`.  The grammar here says which octets spell
which value, without regard to how they are read; the scanners take what it derives.

A number has no end of its own, so octets that may stand behind one have to stop it (`Stops`).  A
text ends with its quote.

* `Number.numeral_read`     a number is taken digit by digit
* `Inside.octetsFrom_eq`    what is between the quotes of a text is taken, escaped or not
-/

namespace Storefront

open JsonScan

namespace JsonGrammar

/-- Octets that may stand between the parts of a document. -/
def Blank (bs : Bytes) : Prop := ∀ b ∈ bs, isBlank b

/-! ## Numbers -/

/-- Digits, of which there is one at least. -/
structure Digits where
  digits : List Nat
  decimal : ∀ d ∈ digits, d < 10
  nonempty : digits ≠ []

/-- The power of ten that a number is multiplied with. -/
structure Exponent where
  /-- Whether the letter in front is the capital one. -/
  capital : Bool
  /-- Whether the sign is a minus, if there is a sign. -/
  sign : Option Bool
  digits : Digits

/-- A number as it is spelled. -/
structure Number where
  negative : Bool
  whole : Digits
  /-- No zeros stand in front of other digits. -/
  trimmed : whole.digits.head? = some 0 → whole.digits.length = 1
  fraction : Option Digits
  exponent : Option Exponent

/-- The octets of digits. -/
def Digits.octets (ds : Digits) : Bytes := ds.digits.map fun d => octet d.digitChar

namespace Exponent

/-- The sign of an exponent, if it has one. -/
def signOctets (e : Exponent) : Bytes :=
  match e.sign with
  | none => []
  | some negative => [octet (if negative then '-' else '+')]

/-- The octets of an exponent. -/
def octets (e : Exponent) : Bytes :=
  octet (if e.capital then 'E' else 'e') :: (e.signOctets ++ e.digits.octets)

/-- The power of ten that an exponent stands for. -/
def power (e : Exponent) : Int :=
  let n : Nat := e.digits.digits.foldl (fun n d => n * 10 + d) 0
  if e.sign = some true then -n else n

end Exponent

namespace Number

/-- The octets behind the digits before the point. -/
def tailOctets (n : Number) : Bytes :=
  (n.fraction.elim [] fun ds => octet '.' :: ds.octets) ++ n.exponent.elim [] Exponent.octets

/-- The octets of a number. -/
def octets (n : Number) : Bytes :=
  (if n.negative then [octet '-'] else []) ++ (n.whole.octets ++ n.tailOctets)

/-- The number digit by digit. -/
def numeral (n : Number) : Numeral where
  negative := n.negative
  whole := n.whole.digits
  fraction := n.fraction.elim [] Digits.digits
  exponent := n.exponent.map Exponent.power

/-- The value of a number.  What is spelled without sign, point and exponent is a natural number if
it has at most 64 bits. -/
def value (n : Number) : JsonValue :=
  match n.numeral.natural? with
  | some k => .natural k
  | none => .numeral n.numeral

end Number

/-! ## Texts -/

/-- Four hexadecimal digits and the number that they amount to. -/
inductive Quad : Bytes → Nat → Prop
  | mk {a b c d : UInt8} {i j k l : Nat} (ha : hexDigit? a = some i) (hb : hexDigit? b = some j)
    (hc : hexDigit? c = some k) (hd : hexDigit? d = some l) :
    Quad [a, b, c, d] (((i * 16 + j) * 16 + k) * 16 + l)

/-- What stands between the quotes of a text, and the octets of the text. -/
inductive Inside : Bytes → Bytes → Prop
  | nil : Inside [] []
  /-- An octet that stands for itself. -/
  | plain {b : UInt8} {s t : Bytes} (hquote : b ≠ octet '\"') (hslash : b ≠ octet '\\')
    (hcontrol : ¬ b < 0x20) (h : Inside s t) : Inside (b :: s) (b :: t)
  /-- An octet with a letter of its own. -/
  | short {letter b : UInt8} {s t : Bytes} (hletter : shortEscape? letter = some b)
    (h : Inside s t) : Inside (octet '\\' :: letter :: s) (b :: t)
  /-- A code point by its number. -/
  | numbered {quad s t : Bytes} {n : Nat} (hquad : Quad quad n)
    (hhigh : ¬ (0xD800 ≤ n ∧ n ≤ 0xDBFF)) (hlow : ¬ (0xDC00 ≤ n ∧ n ≤ 0xDFFF)) (h : Inside s t) :
    Inside (octet '\\' :: octet 'u' :: (quad ++ s)) (codePoint n ++ t)
  /-- A code point outside the basic plane by two numbers. -/
  | paired {quad quad' s t : Bytes} {n m : Nat} (hquad : Quad quad n) (hquad' : Quad quad' m)
    (hhigh : 0xD800 ≤ n ∧ n ≤ 0xDBFF) (hlow : 0xDC00 ≤ m ∧ m ≤ 0xDFFF) (h : Inside s t) :
    Inside (octet '\\' :: octet 'u' :: (quad ++ octet '\\' :: octet 'u' :: (quad' ++ s)))
      (codePoint (0x10000 + (n - 0xD800) * 0x400 + (m - 0xDC00)) ++ t)

/-- The octets of a text, its quotes included. -/
inductive Text : Bytes → String → Prop
  | mk {s : Bytes} {t : String} (h : Inside s (Bytes.ofText t)) :
    Text (octet '\"' :: (s ++ [octet '\"'])) t

/-! ## Values -/

/-- A part of a list or object, with the blanks on both sides. -/
structure Spaced (α : Type) where
  before : Bytes
  octets : Bytes
  after : Bytes
  /-- What the octets in the middle spell. -/
  what : α
  blank : Blank before ∧ Blank after

/-- The octets of a part and of the blanks around it. -/
def Spaced.spelled {α : Type} (x : Spaced α) : Bytes := x.before ++ (x.octets ++ x.after)

/-- A member of an object. -/
structure Member where
  name : Spaced String
  value : Spaced JsonValue

namespace Member

/-- The octets of a member. -/
def spelled (m : Member) : Bytes := m.name.spelled ++ octet ':' :: m.value.spelled

/-- The name of a member and its value. -/
def what (m : Member) : String × JsonValue := (m.name.what, m.value.what)

end Member

/-- The octets of parts behind the first one, each with a comma in front. -/
def more (parts : List Bytes) : Bytes := parts.flatMap fun part => octet ',' :: part

/-- The octets of values that are no lists and no objects. -/
inductive SpellsScalar : Bytes → JsonValue → Prop
  | null : SpellsScalar (JsonValue.ascii ['n', 'u', 'l', 'l']) .null
  | yes : SpellsScalar (JsonValue.ascii ['t', 'r', 'u', 'e']) (.flag true)
  | no : SpellsScalar (JsonValue.ascii ['f', 'a', 'l', 's', 'e']) (.flag false)
  | number (n : Number) : SpellsScalar n.octets n.value
  | text {bs : Bytes} {t : String} (h : Text bs t) : SpellsScalar bs (.text t)

/-- Octets that spell a value, without blanks around it. -/
inductive Spells : Bytes → JsonValue → Prop
  | scalar {bs : Bytes} {v : JsonValue} (h : SpellsScalar bs v) : Spells bs v
  | emptyList {bs : Bytes} (h : Blank bs) : Spells (octet '[' :: (bs ++ [octet ']'])) (.list [])
  | list {x : Spaced JsonValue} {xs : List (Spaced JsonValue)}
    (h : ∀ y ∈ x :: xs, Spells y.octets y.what) :
    Spells (octet '[' :: (x.spelled ++ (more (xs.map Spaced.spelled) ++ [octet ']'])))
      (.list ((x :: xs).map Spaced.what))
  | emptyObject {bs : Bytes} (h : Blank bs) :
    Spells (octet '\x7b' :: (bs ++ [octet '\x7d'])) (.object [])
  | object {m : Member} {ms : List Member} (hname : ∀ y ∈ m :: ms, Text y.name.octets y.name.what)
    (h : ∀ y ∈ m :: ms, Spells y.value.octets y.value.what) :
    Spells (octet '\x7b' :: (m.spelled ++ (more (ms.map Member.spelled) ++ [octet '\x7d'])))
      (.object ((m :: ms).map Member.what))

/-! ## What the scanners take -/

/-- Octets of which the first is no digit. -/
def NoDigit (s : Bytes) : Prop := ∀ b ∈ s.head?, digit? b = none

/-- Octets that do not go on with a number. -/
def Stops (s : Bytes) : Prop :=
  ∀ b ∈ s.head?, digit? b = none ∧ b ≠ octet '.' ∧ b ≠ octet 'e' ∧ b ≠ octet 'E'

theorem stops_cons {b : UInt8}
    (h : digit? b = none ∧ b ≠ octet '.' ∧ b ≠ octet 'e' ∧ b ≠ octet 'E') (s : Bytes) :
    Stops (b :: s) := by
  simpa [Stops] using h

variable {s : Bytes}

/-- What `Stops` a number is no digit. -/
theorem Stops.noDigit (h : Stops s) : NoDigit s := fun b hb => (h b hb).1

/-- `digits` takes none where none stands in front. -/
theorem NoDigit.digits_eq (h : NoDigit s) : digits s = ([], s) := by
  cases s with
  | nil => rfl
  | cons b s => simp [JsonScan.digits, h b rfl]

/-- `digit?` reads the octet of a digit as this digit. -/
theorem digit?_digitChar {d : Nat} (h : d < 10) : digit? (octet d.digitChar) = some d := by
  interval_cases d <;> rfl

namespace Digits

variable (ds : Digits)

/-- `digits` takes all of them, up to where they end. -/
theorem digits_read (h : NoDigit s) : JsonScan.digits (ds.octets ++ s) = (ds.digits, s) := by
  obtain ⟨digits, decimal, nonempty⟩ := ds
  simp only [octets]
  clear nonempty
  induction digits with
  | nil => exact h.digits_eq
  | cons d digits ih =>
    have hd := digit?_digitChar (decimal d List.mem_cons_self)
    -- One digit comes off the front, and the others behind it.
    have hdigits := ih fun d h => decimal d (List.mem_cons_of_mem _ h)
    simp only [List.map_cons, List.cons_append, JsonScan.digits, hd, hdigits]

/-- `someDigits` takes digits, of which there is one at least. -/
theorem someDigits_read (h : NoDigit s) :
    JsonScan.someDigits (ds.octets ++ s) = .ok (ds.digits, s) := by
  have hread := ds.digits_read h
  unfold someDigits
  cases hds : ds.digits with
  | nil => exact absurd hds ds.nonempty
  | cons d digits => rw [hread, hds]

/-- The `octets` of digits start with a digit. -/
theorem octets_eq_cons : ∃ d w, d < 10 ∧ ds.octets = octet d.digitChar :: w := by
  obtain ⟨digits, decimal, nonempty⟩ := ds
  cases digits with
  | nil => exact absurd rfl nonempty
  | cons d digits => exact ⟨d, _, decimal d List.mem_cons_self, rfl⟩

end Digits

/-- `sign` takes the sign of an exponent and leaves its digits. -/
theorem Exponent.sign_read (e : Exponent) (s : Bytes) :
    JsonScan.sign (e.signOctets ++ (e.digits.octets ++ s)) =
      (decide (e.sign = some true), e.digits.octets ++ s) := by
  cases hsign : e.sign with
  | none =>
    -- Without a sign a digit stands in front, which is neither plus nor minus.
    obtain ⟨d, w, hd, hw⟩ := e.digits.octets_eq_cons
    have hminus : octet d.digitChar ≠ octet '-' := by interval_cases d <;> decide
    have hplus : octet d.digitChar ≠ octet '+' := by interval_cases d <;> decide
    simp only [signOctets, hsign, hw, List.nil_append, List.cons_append, JsonScan.sign,
      if_neg hminus, if_neg hplus]
    rfl
  | some negative => cases negative <;> simp [signOctets, hsign, JsonScan.sign]

namespace Number

variable (n : Number)

/-- `exponentPart` takes the exponent, or nothing where there is none. -/
theorem exponentPart_read (h : Stops s) :
    JsonScan.exponentPart (n.exponent.elim [] Exponent.octets ++ s) =
      .ok (n.exponent.map Exponent.power, s) := by
  cases n.exponent with
  | none =>
    cases s with
    | nil => rfl
    | cons b s =>
      -- What stops a number is no letter of an exponent.
      obtain ⟨-, -, hsmall, hcapital⟩ := h b rfl
      show JsonScan.exponentPart (b :: s) = _
      rw [JsonScan.exponentPart, if_neg (not_or.2 ⟨hsmall, hcapital⟩)]
      rfl
  | some e =>
    -- Either letter will do.
    have hmark : octet (if e.capital then 'E' else 'e') = octet 'e' ∨
        octet (if e.capital then 'E' else 'e') = octet 'E' := by
      cases e.capital <;> simp
    have hdigits := e.digits.someDigits_read h.noDigit
    simp only [Option.elim_some, Exponent.octets, List.cons_append, List.append_assoc,
      JsonScan.exponentPart, if_pos hmark, e.sign_read, hdigits, decide_eq_true_eq]
    rfl

/-- An exponent, or what stops a number, starts with no digit. -/
theorem noDigit_exponent (h : Stops s) : NoDigit (n.exponent.elim [] Exponent.octets ++ s) := by
  cases n.exponent with
  | none => exact h.noDigit
  | some e =>
    intro b hb
    obtain rfl : octet (if e.capital then 'E' else 'e') = b := by simpa [Exponent.octets] using hb
    cases e.capital <;> rfl

/-- `fractionPart` takes the point and the digits behind it, or nothing where there is no point. -/
theorem fractionPart_read (h : Stops s) :
    JsonScan.fractionPart (n.tailOctets ++ s) =
      .ok (n.fraction.elim [] Digits.digits, n.exponent.elim [] Exponent.octets ++ s) := by
  rw [tailOctets, List.append_assoc]
  cases n.fraction with
  | some ds =>
    simp only [Option.elim_some, List.cons_append, JsonScan.fractionPart, if_true]
    exact ds.someDigits_read (n.noDigit_exponent h)
  | none =>
    -- Neither the letter of an exponent nor what stops the number is a point.
    have hpoint : ∀ b ∈ (n.exponent.elim [] Exponent.octets ++ s).head?, b ≠ octet '.' := by
      intro b hb
      cases he : n.exponent with
      | none => exact (h b (by simpa [he] using hb)).2.1
      | some e =>
        obtain rfl : octet (if e.capital then 'E' else 'e') = b := by
          simpa [he, Exponent.octets] using hb
        cases e.capital <;> decide
    show JsonScan.fractionPart (n.exponent.elim [] Exponent.octets ++ s) = _
    cases hs : n.exponent.elim [] Exponent.octets ++ s with
    | nil => rfl
    | cons b rest =>
      rw [JsonScan.fractionPart, if_neg (hpoint b (by simp [hs]))]
      rfl

/-- What stands behind the whole part starts with no digit. -/
theorem noDigit_tail (h : Stops s) : NoDigit (n.tailOctets ++ s) := by
  rw [tailOctets, List.append_assoc]
  cases n.fraction with
  | none => exact n.noDigit_exponent h
  | some ds =>
    intro b hb
    obtain rfl : octet '.' = b := by simpa using hb
    rfl

/-- `numeral` reads a number digit by digit. -/
theorem numeral_read (h : Stops s) : JsonScan.numeral (n.octets ++ s) = .ok (n.numeral, s) := by
  have hsome := n.whole.someDigits_read (n.noDigit_tail h)
  have hwhole : JsonScan.wholePart (n.whole.octets ++ (n.tailOctets ++ s)) =
      .ok (n.whole.digits, n.tailOctets ++ s) := by
    -- A zero in front would be the only digit.
    have htrimmed : ¬ (n.whole.digits.head? = some 0 ∧ n.whole.digits.length ≠ 1) :=
      fun ⟨hzero, hlength⟩ => hlength (n.trimmed hzero)
    simp only [JsonScan.wholePart, hsome, if_neg htrimmed]
  have hoctets : n.octets ++ s =
      (if n.negative then [octet '-'] else []) ++ (n.whole.octets ++ (n.tailOctets ++ s)) := by
    simp [octets]
  have hsign : ((n.octets ++ s).head? = some (octet '-')) ↔ n.negative = true := by
    rw [hoctets]
    cases n.negative with
    | true => simp
    | false =>
      -- Without a sign a digit stands in front.
      obtain ⟨d, w, hd, hw⟩ := n.whole.octets_eq_cons
      have hminus : octet d.digitChar ≠ octet '-' := by interval_cases d <;> decide
      simpa [hw] using hminus
  -- Behind the sign, if there is one, the digits begin.
  have hrest : (if (n.octets ++ s).head? = some (octet '-') then (n.octets ++ s).tail
      else n.octets ++ s) = n.whole.octets ++ (n.tailOctets ++ s) := by
    by_cases hn : n.negative
    · rw [if_pos (hsign.2 hn), hoctets, if_pos hn]
      rfl
    · rw [if_neg fun h => hn (hsign.1 h), hoctets, if_neg hn]
      rfl
  have hnegative : decide ((n.octets ++ s).head? = some (octet '-')) = n.negative := by
    cases hn : n.negative with
    | true => exact decide_eq_true (hsign.2 hn)
    | false => exact decide_eq_false fun h => Bool.noConfusion (hn.symm.trans (hsign.1 h))
  -- Sign, digits, fraction and exponent are each taken up to where the next one starts.
  simp only [JsonScan.numeral, hrest, hwhole, n.fractionPart_read h, n.exponentPart_read h,
    hnegative]
  rfl

/-- `number` reads its value, if that is not `isTooLarge`. -/
theorem number_read (hsmall : n.numeral.isTooLarge = false) (h : Stops s) :
    JsonScan.number (n.octets ++ s) = .ok (n.value, s) := by
  simp only [JsonScan.number, n.numeral_read h, hsmall, value]
  cases n.numeral.natural? <;> rfl

end Number

/-- `hexNumber` takes four digits for the number that they amount to. -/
theorem Quad.hexNumber_read {quad : Bytes} {n : Nat} (h : Quad quad n) (s : Bytes) :
    hexNumber (quad ++ s) = .ok (n, s) := by
  cases h with
  | mk ha hb hc hd => simp only [List.cons_append, List.nil_append, hexNumber, ha, hb, hc, hd]

/-- `escape` takes a letter for the octet that it stands for. -/
theorem escape_short (wanted : Bool) {letter b : UInt8} (h : shortEscape? letter = some b)
    (r : Bytes) : escape wanted (letter :: r) = .ok ([b], r) := by
  simp only [escape, h]

/-- `escape` takes a numbered escape for its `codePoint`, if the text is wanted. -/
theorem escape_numbered {quad : Bytes} {n : Nat} (h : Quad quad n)
    (hhigh : ¬ (0xD800 ≤ n ∧ n ≤ 0xDBFF)) (hlow : ¬ (0xDC00 ≤ n ∧ n ≤ 0xDFFF)) (r : Bytes) :
    escape true (octet 'u' :: (quad ++ r)) = .ok (codePoint n, r) := by
  have hshort : shortEscape? (octet 'u') = none := by decide
  simp only [escape, hshort, if_true, numbered, h.hexNumber_read, if_neg hlow, if_neg hhigh,
    not_true_eq_false, if_false]

/-- `escape` takes two numbered escapes for one `codePoint`. -/
theorem escape_paired {quad quad' : Bytes} {n m : Nat} (h : Quad quad n) (h' : Quad quad' m)
    (hhigh : 0xD800 ≤ n ∧ n ≤ 0xDBFF) (hlow : 0xDC00 ≤ m ∧ m ≤ 0xDFFF) (r : Bytes) :
    escape true (octet 'u' :: (quad ++ octet '\\' :: octet 'u' :: (quad' ++ r))) =
      .ok (codePoint (0x10000 + (n - 0xD800) * 0x400 + (m - 0xDC00)), r) := by
  have hshort : shortEscape? (octet 'u') = none := by decide
  -- A first number is no second one.
  have hfirst : ¬ (0xDC00 ≤ n ∧ n ≤ 0xDFFF) := by omega
  have hsecond : secondHalf (octet '\\' :: octet 'u' :: (quad' ++ r)) = .ok (m, r) := by
    simp only [secondHalf, word, if_true, h'.hexNumber_read, if_pos hlow]
  simp only [escape, hshort, if_true, numbered, h.hexNumber_read, if_neg hfirst, if_pos hhigh,
    hsecond, not_true_eq_false, if_false]

/-- `escape` passes over an unwanted escape, whatever its number. -/
theorem escape_unwanted {quad : Bytes} {n : Nat} (h : Quad quad n) (r : Bytes) :
    escape false (octet 'u' :: (quad ++ r)) = .ok ([], r) := by
  have hshort : shortEscape? (octet 'u') = none := by decide
  simp only [escape, hshort, if_true, numbered, h.hexNumber_read, Bool.false_eq_true,
    not_false_eq_true]

/-- `octetsFrom` takes an escape for its octets. -/
theorem octetsFrom_escape {wanted : Bool} {e bs s : Bytes} (done : Bytes)
    (h : escape wanted e = .ok (bs, s)) :
    octetsFrom wanted done (octet '\\' :: e) = octetsFrom wanted (bs.reverse ++ done) s := by
  have hquote : octet '\\' ≠ octet '\"' := by decide
  rw [octetsFrom, if_neg hquote, if_pos rfl]
  grind

namespace Inside

variable {inside t : Bytes}

/-- `octetsFrom` takes what is between the quotes of a text for its octets, escaped or not. -/
theorem octetsFrom_eq (h : Inside inside t) (done s : Bytes) :
    octetsFrom true done (inside ++ octet '\"' :: s) = .ok (done.reverse ++ t, s) := by
  -- By induction over what stands there: each piece adds its octets to those before it.
  induction h generalizing done with
  | nil => simp [octetsFrom]
  | plain hquote hslash hcontrol h ih =>
    rw [List.cons_append, octetsFrom, if_neg hquote, if_neg hslash, if_neg hcontrol, ih]
    simp
  | short hletter h ih =>
    rw [List.cons_append, List.cons_append, octetsFrom_escape done (escape_short true hletter _),
      ih]
    simp
  | numbered hquad hhigh hlow h ih =>
    rw [List.cons_append, List.cons_append, List.append_assoc,
      octetsFrom_escape done (escape_numbered hquad hhigh hlow _), ih]
    simp
  | paired hquad hquad' hhigh hlow h ih =>
    simp only [List.cons_append, List.append_assoc]
    rw [octetsFrom_escape done (escape_paired hquad hquad' hhigh hlow _), ih]
    simp

/-- `octetsFrom` passes over it where nobody wants it. -/
theorem octetsFrom_unwanted (h : Inside inside t) (done s : Bytes) :
    ∃ bs, octetsFrom false done (inside ++ octet '\"' :: s) = .ok (bs, s) := by
  induction h generalizing done with
  -- The closing quote.
  | nil => exact ⟨_, by rw [List.nil_append, octetsFrom, if_pos rfl]⟩
  | plain hquote hslash hcontrol h ih =>
    rw [List.cons_append, octetsFrom, if_neg hquote, if_neg hslash, if_neg hcontrol]
    exact ih _
  | short hletter h ih =>
    rw [List.cons_append, List.cons_append, octetsFrom_escape done (escape_short false hletter _)]
    exact ih _
  | numbered hquad hhigh hlow h ih =>
    rw [List.cons_append, List.cons_append, List.append_assoc,
      octetsFrom_escape done (escape_unwanted hquad _)]
    exact ih _
  | paired hquad hquad' hhigh hlow h ih =>
    -- The two numbers are two escapes where no code point is made of them.
    simp only [List.cons_append, List.append_assoc]
    rw [octetsFrom_escape done (escape_unwanted hquad _),
      octetsFrom_escape _ (escape_unwanted hquad' _)]
    exact ih _

end Inside

namespace Text

variable {bs : Bytes} {t : String}

/-- `text` takes a text up to its closing quote, and `octets` passes over as much. -/
theorem read (h : Text bs t) (s : Bytes) :
    ∃ inside, bs = octet '\"' :: inside ∧ JsonScan.text (inside ++ s) = .ok (t, s) ∧
      ∃ os, JsonScan.octets false (inside ++ s) = .ok (os, s) := by
  cases h with
  | @mk inside _ h =>
    refine ⟨_, rfl, ?_⟩
    rw [List.append_assoc]
    show JsonScan.text (inside ++ octet '\"' :: s) = _ ∧
      ∃ os, JsonScan.octets false (inside ++ octet '\"' :: s) = _
    refine ⟨?_, h.octetsFrom_unwanted [] s⟩
    simp only [JsonScan.text, octets, h.octetsFrom_eq, List.reverse_nil, List.nil_append,
      Utf8.decode_ofText]

end Text

end JsonGrammar

end Storefront
