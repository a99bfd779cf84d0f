import Mathlib.Data.List.Induction
import Storefront.Proofs.Cli.Input

/-! # Which texts are digits

A text in hexadecimal digits is read pair by pair once the blanks are out of it.  Which octets are
digits, and what they are worth, is said here by their numbers.

* `Digit`, `Pairs`        digits, and the octets that pairs of them spell
* `ofPairs_eq_ok`         a plus may stand in front of a single digit, too
* `pairs_iff_rendered`    digits spell just the octets that they are the rendering of
* `hexText_read`          which texts are read, and as what
-/

namespace Storefront.HexInput

/-- The octets that are digits of base sixteen, in lower or in upper case, and what they are
worth. -/
inductive Digit : UInt8 → Nat → Prop
  | decimal {n : Nat} (h : n < 10) : Digit (0x30 + n).toUInt8 n
  | lower {n : Nat} (h : n < 6) : Digit (0x61 + n).toUInt8 (10 + n)
  | upper {n : Nat} (h : n < 6) : Digit (0x41 + n).toUInt8 (10 + n)

/-- The octets that may stand in front of the second digit of a pair, and what they are worth: a
digit, or a plus. -/
def Lead (b : UInt8) (n : Nat) : Prop := Digit b n ∨ b = 0x2B ∧ n = 0

/-- Pairs of digits, and the octets that they spell. -/
inductive Pairs (lead : UInt8 → Nat → Prop) : Bytes → Bytes → Prop
  | nil : Pairs lead [] []
  | cons {a b : UInt8} {high low : Nat} {digits octets : Bytes} (ha : lead a high)
      (hb : Digit b low) (rest : Pairs lead digits octets) :
      Pairs lead (a :: b :: digits) ((high * 16 + low).toUInt8 :: octets)

/-- A text without the blanks in it. -/
def stripped (text : Bytes) : Bytes := text.filter fun b => !isBlank b

/-- An octet in lower case. -/
def lowerCase (b : UInt8) : UInt8 := if 0x41 ≤ b ∧ b ≤ 0x5A then b + 0x20 else b

variable {a b o : UInt8} {n : Nat} {digits octets text : Bytes} {lead : UInt8 → Nat → Prop}

/-! ## Digits -/

/-- `Digit` gives the octets that `Hex.value?` takes, with what they are worth. -/
theorem digit_iff : Digit b n ↔ Hex.value? (Char.ofNat b.toNat) = some n := by
  -- All 256 octets are looked at once.
  have hall : ∀ k < 256, Hex.value? (Char.ofNat k) =
      if 0x30 ≤ k ∧ k < 0x3A then some (k - 0x30)
      else if 0x61 ≤ k ∧ k < 0x67 then some (k - 0x61 + 10)
      else if 0x41 ≤ k ∧ k < 0x47 then some (k - 0x41 + 10)
      else none := by decide +kernel
  have hback : ∀ {m : Nat}, b.toNat = m → b = m.toUInt8 := by
    rintro m rfl
    simp
  rw [hall b.toNat b.toNat_lt]
  constructor
  · -- Each kind of digit lies in its own range.
    rintro (h | h | h) <;> simp only [Nat.toUInt8_eq, UInt8.toNat_ofNat']
    · rw [if_pos (by omega), Option.some.injEq]
      omega
    · rw [if_neg (by omega), if_pos (by omega), Option.some.injEq]
      omega
    · rw [if_neg (by omega), if_neg (by omega), if_pos (by omega), Option.some.injEq]
      omega
  · intro h
    split at h
    · have hb := hback (m := 0x30 + n) (by grind)
      rw [hb]
      exact .decimal (by grind)
    · -- The worth of a letter is what it is above ten.
      obtain ⟨k, rfl⟩ : ∃ k, n = 10 + k := ⟨n - 10, by grind⟩
      split at h
      · have hb := hback (m := 0x61 + k) (by grind)
        rw [hb]
        exact .lower (by grind)
      · have hb := hback (m := 0x41 + k) (by grind)
        rw [hb]
        exact .upper (by grind)

/-- A digit is worth less than sixteen. -/
theorem Digit.lt_sixteen (h : Digit b n) : n < 16 := by
  cases h <;> omega

/-- A `Digit` is what `Hex.digit` makes of its worth, but for its case. -/
theorem digit_iff_lowerCase :
    Digit b n ↔ n < 16 ∧ lowerCase b = (Hex.digit n).toNat.toUInt8 := by
  -- Each octet and each worth is looked at once.
  have hall : ∀ k < 256, ∀ n < 16, Hex.value? (Char.ofNat k) = some n ↔
      lowerCase k.toUInt8 = (Hex.digit n).toNat.toUInt8 := by decide +kernel
  have hb : b.toNat.toUInt8 = b := by simp
  constructor
  · intro h
    have hn := h.lt_sixteen
    refine ⟨hn, ?_⟩
    rw [← hb, ← hall b.toNat b.toNat_lt n hn]
    exact digit_iff.1 h
  · rintro ⟨hn, h⟩
    rw [digit_iff, hall b.toNat b.toNat_lt n hn, hb]
    exact h

/-- What may stand in front of a digit, a `Lead`, is ASCII. -/
theorem Lead.ascii {n : Nat} (h : Lead b n) : b.toNat < 128 := by
  rcases h with h | ⟨rfl, -⟩
  · exact (ascii_of_value? (digit_iff.1 h)).1
  · decide

/-! ## Pairs -/

/-- `Pairs` stay pairs when more is allowed as their first octets. -/
theorem Pairs.mono {lead' : UInt8 → Nat → Prop} (hlead : ∀ b n, lead b n → lead' b n)
    (h : Pairs lead digits octets) : Pairs lead' digits octets := by
  induction h with
  | nil => exact .nil
  | cons ha hb _ ih => exact .cons (hlead _ _ ha) hb ih

/-- `Pairs` are an even number of octets. -/
theorem Pairs.even (h : Pairs lead digits octets) : digits.length % 2 = 0 := by
  induction h with
  | nil => rfl
  | cons _ _ _ ih =>
    simp only [List.length_cons]
    omega

/-- `Pairs` without a plus are pairs of `Digit`s. -/
theorem Pairs.of_no_plus (h : Pairs Lead digits octets) (hplus : 0x2B ∉ digits) :
    Pairs Digit digits octets := by
  induction h with
  | nil => exact .nil
  | @cons a b high low digits octets ha hb _ ih =>
    have hdigit : Digit a high := by
      rcases ha with ha | ⟨rfl, -⟩
      · exact ha
      · exact absurd List.mem_cons_self hplus
    have hrest : 0x2B ∉ digits := fun hmem =>
      hplus (List.mem_cons_of_mem a (List.mem_cons_of_mem b hmem))
    exact .cons hdigit hb (ih hrest)

/-- Any even number of `Digit`s are `Pairs`, and nothing else is. -/
theorem exists_pairs_iff :
    (∃ octets, Pairs Digit digits octets) ↔
      digits.length % 2 = 0 ∧ ∀ b ∈ digits, ∃ n, Digit b n := by
  constructor
  · rintro ⟨octets, h⟩
    -- Every octet of a pair is a digit.
    refine ⟨h.even, ?_⟩
    induction h with
    | nil => simp
    | cons ha hb _ ih => simpa using ⟨⟨_, ha⟩, ⟨_, hb⟩, ih⟩
  · rintro ⟨heven, hall⟩
    -- The induction goes over two digits at a time.
    induction digits using List.twoStepInduction with
    | nil => exact ⟨[], .nil⟩
    | singleton b => cases heven
    | cons_cons a b digits ih =>
      simp only [List.length_cons] at heven
      obtain ⟨high, ha⟩ := hall a (by simp)
      obtain ⟨low, hb⟩ := hall b (by simp)
      obtain ⟨octets, hrest⟩ := ih (by omega) fun c hc => hall c (by simp [hc])
      exact ⟨_, .cons ha hb hrest⟩

/-! ## Reading -/

/-- `Hex.value?` takes ASCII characters only. -/
theorem toNat_lt_of_value? {c : Char} (h : Hex.value? c = some n) : c.toNat < 128 := by
  have hupto : ∀ {top : Char}, top.toNat < 128 → c ≤ top → c.toNat < 128 :=
    fun htop hc => Nat.lt_of_le_of_lt (UInt32.le_iff_toNat_le.1 hc) htop
  unfold Hex.value? at h
  split at h
  · rename_i hdecimal
    exact hupto (by decide) hdecimal.2
  · split at h
    · rename_i hlower
      exact hupto (by decide) hlower.2
    · split at h
      · rename_i hupper
        exact hupto (by decide) hupper.2
      · cases h

/-- Two octets that `Utf8.decode` reads as two ASCII characters are these. -/
theorem chars_of_decode {s : String} {x y : Char} (hs : Utf8.decode [a, b] = .ok s)
    (hxy : s.toList = [x, y]) (hx : x.toNat < 128) (hy : y.toNat < 128) :
    Char.ofNat a.toNat = x ∧ Char.ofNat b.toNat = y := by
  -- A character of ASCII is its octet and comes back from it.
  have hback : ∀ {c : Char}, c.toNat < 128 → Char.ofNat c.toNat.toUInt8.toNat = c := by
    intro c hc
    have hsame : c.toNat.toUInt8.toNat = c.toNat := by
      simp only [Nat.toUInt8_eq, UInt8.toNat_ofNat']
      omega
    rw [hsame, Char.ofNat_toNat]
  have hascii : ∀ c ∈ [x, y], c.toNat < 128 := by simp [hx, hy]
  have hoctets := Bytes.ofText_of_ascii hascii
  -- The text is encoded in the octets that it was decoded from.
  rw [← hxy, String.ofList_toList, Utf8.ofText_of_decode hs, hxy] at hoctets
  simp only [List.map_cons, List.map_nil, List.cons.injEq, and_true] at hoctets
  obtain ⟨rfl, rfl⟩ := hoctets
  exact ⟨hback hx, hback hy⟩

/-- `octet?` takes a `Lead` and a `Digit`, and makes one octet of them. -/
theorem octet?_eq_some :
    (∃ s, Utf8.decode [a, b] = .ok s ∧ octet? s = some o) ↔
      ∃ high low, Lead a high ∧ Digit b low ∧ o = (high * 16 + low).toUInt8 := by
  constructor
  · rintro ⟨s, hs, ho⟩
    unfold octet? at ho
    split at ho
    case h_1 d hchars =>
      obtain ⟨low, hlow, rfl⟩ := Option.map_eq_some_iff.1 ho
      obtain ⟨hplus, hd⟩ := chars_of_decode hs hchars (by decide) (toNat_lt_of_value? hlow)
      -- The first arm of `octet?` is the one with a sign.
      have ha : a = 0x2B := by
        rw [← JsonScan.octet_ofNat a, hplus]
        rfl
      exact ⟨0, low, .inr ⟨ha, rfl⟩, digit_iff.2 (hd ▸ hlow), by simp⟩
    case h_2 x y _ hchars =>
      split at ho
      · rename_i high low hhigh hlow
        cases ho
        obtain ⟨hx, hy⟩ := chars_of_decode hs hchars (toNat_lt_of_value? hhigh)
          (toNat_lt_of_value? hlow)
        exact ⟨high, low, .inl (digit_iff.2 (hx ▸ hhigh)), digit_iff.2 (hy ▸ hlow), rfl⟩
      · cases ho
    case h_3 => cases ho
  · rintro ⟨high, low, ha, hb, rfl⟩
    -- Both characters are ASCII, so the octets decode to them.
    have hlow := digit_iff.1 hb
    refine ⟨_, decode_ascii ha.ascii (ascii_of_value? hlow).1, ?_⟩
    rcases ha with ha | ⟨rfl, rfl⟩
    · exact octet?_of_digits (digit_iff.1 ha) hlow
    · have hplus : Char.ofNat (0x2B : UInt8).toNat = '+' := rfl
      simp only [octet?, String.toList_ofList, hplus, hlow, Option.map_some, Nat.zero_mul,
        Nat.zero_add]

/-- `ofPairs` reads `Pairs` as what they spell, a plus in front of a single digit included. -/
theorem ofPairs_eq_ok : ofPairs digits = .ok octets ↔ Pairs Lead digits octets := by
  induction digits using List.twoStepInduction generalizing octets with
  | nil =>
    constructor
    · intro h
      cases h
      exact .nil
    · intro h
      cases h
      rfl
  | singleton b =>
    constructor <;> intro h <;> cases h
  | cons_cons a b digits ih =>
    constructor
    · intro h
      simp only [ofPairs] at h
      split at h
      · cases h
      · rename_i s hs
        split at h
        · cases h
        · rename_i o ho
          obtain ⟨high, low, ha, hb, rfl⟩ := octet?_eq_some.1 ⟨s, hs, ho⟩
          cases hrest : ofPairs digits with
          | error e => simp [hrest, Except.map] at h
          | ok rest =>
            simp only [hrest, Except.map, Except.ok.injEq] at h
            subst h
            -- The pair is read, and those behind it are by induction.
            exact .cons ha hb (ih.1 hrest)
    · intro h
      cases h with
      | cons ha hb hrest =>
        obtain ⟨s, hs, ho⟩ := octet?_eq_some.2 ⟨_, _, ha, hb, rfl⟩
        simp only [ofPairs, hs, ho, ih.2 hrest, Except.map]

/-- `ofText` reads the pairs that are left without blanks. -/
theorem ofText_eq_ok : ofText text = .ok octets ↔ Pairs Lead (stripped text) octets := by
  rw [← ofPairs_eq_ok, ofText]
  show (if (stripped text).length % 2 = 0 then ofPairs (stripped text) else _) = _ ↔ _
  by_cases heven : (stripped text).length % 2 = 0
  · rw [if_pos heven]
  · rw [if_neg heven]
    constructor
    · intro h
      cases h
    · intro h
      exact absurd (ofPairs_eq_ok.1 h).even heven

/-! ## Renderings -/

/-- `Hex.ofBytes` writes two digits for each octet. -/
theorem ofText_ofBytes (octets : Bytes) :
    Bytes.ofText (Hex.ofBytes octets) =
      (octets.flatMap Hex.ofByte).map fun c => c.toNat.toUInt8 := by
  apply Bytes.ofText_of_ascii
  intro c hc
  obtain ⟨o, -, hc⟩ := List.mem_flatMap.1 hc
  simp only [Hex.ofByte, List.mem_cons, List.not_mem_nil, or_false] at hc
  rcases hc with rfl | rfl <;> exact toNat_lt_of_value? (Hex.value?_digit _)

/-- `Pairs` of digits spell just the octets of which `Hex.ofBytes` makes them, but for
their case. -/
theorem pairs_iff_rendered :
    Pairs Digit digits octets ↔ digits.map lowerCase = Bytes.ofText (Hex.ofBytes octets) := by
  -- `Hex.digit` looks at the last four bits only.
  have hmod : ∀ n, Hex.digit (n % 16) = Hex.digit n := by
    intro n
    simp only [Hex.digit, Nat.mod_mod]
  rw [ofText_ofBytes]
  constructor
  · intro h
    induction h with
    | nil => rfl
    | @cons a b high low digits octets ha hb _ ih =>
      obtain ⟨hhigh, ha⟩ := digit_iff_lowerCase.1 ha
      obtain ⟨hlow, hb⟩ := digit_iff_lowerCase.1 hb
      have ho : (high * 16 + low).toUInt8.toNat = high * 16 + low := by
        simp only [Nat.toUInt8_eq, UInt8.toNat_ofNat']
        omega
      -- The two digits of an octet are its quotient and its remainder.
      have hfront : (high * 16 + low) / 16 = high := by omega
      have hback : Hex.digit (high * 16 + low) = Hex.digit low := by
        rw [← hmod, show (high * 16 + low) % 16 = low by omega]
      rw [List.map_cons, List.map_cons, ih, ha, hb, List.flatMap_cons, List.map_append, Hex.ofByte,
        ho, hfront, hback]
      rfl
  · intro h
    induction octets generalizing digits with
    | nil =>
      rw [List.flatMap_nil, List.map_nil, List.map_eq_nil_iff] at h
      subst h
      exact .nil
    | cons o octets ih =>
      have ho := o.toNat_lt
      -- An octet is made of its upper and its lower digit.
      have hspelled : o = (o.toNat / 16 * 16 + o.toNat % 16).toUInt8 := by
        rw [show o.toNat / 16 * 16 + o.toNat % 16 = o.toNat by omega]
        simp
      rw [List.flatMap_cons, Hex.ofByte, List.map_append] at h
      obtain ⟨a, digits, rfl, ha, h⟩ := List.map_eq_cons_iff.1 h
      obtain ⟨b, digits, rfl, hb, h⟩ := List.map_eq_cons_iff.1 h
      rw [← hmod o.toNat] at hb
      rw [hspelled]
      exact .cons (digit_iff_lowerCase.2 ⟨by omega, ha⟩) (digit_iff_lowerCase.2 ⟨by omega, hb⟩)
        (ih h)

/-- `ofText` reads a text when it is made up of pairs once the blanks are `stripped` from it, each
of two digits or of a plus and a digit (`Lead`), and reads it as what these spell.

* Any even number of digits is read, and nothing else in which there is no plus.
* What `Hex.ofBytes` makes of octets, in upper or lower case and with blanks anywhere, is read as
  these octets, and nothing else in which there is no plus is.
* What is not read is refused with exit code 60. -/
theorem hexText_read (text : Bytes) :
    (∀ octets, ofText text = .ok octets ↔ Pairs Lead (stripped text) octets) ∧
    ((stripped text).length % 2 = 0 → (∀ b ∈ stripped text, ∃ n, Digit b n) →
      ∃ octets, Pairs Digit (stripped text) octets ∧ ofText text = .ok octets) ∧
    (0x2B ∉ text → ∀ octets, ofText text = .ok octets →
      (stripped text).length % 2 = 0 ∧ (∀ b ∈ stripped text, ∃ n, Digit b n) ∧
        Pairs Digit (stripped text) octets) ∧
    (∀ octets, (stripped text).map lowerCase = Bytes.ofText (Hex.ofBytes octets) →
      ofText text = .ok octets) ∧
    ((∃ octets, ofText text = .ok octets) ∨
      ∃ e, ofText text = .error e ∧ e.exitCode = 60) := by
  have hlead : ∀ {digits octets : Bytes}, Pairs Digit digits octets → Pairs Lead digits octets :=
    fun h => h.mono fun _ _ => .inl
  refine ⟨fun _ => ofText_eq_ok, ?digits, ?exact, ?rendered, ?refused⟩
  case digits =>
    intro heven hall
    obtain ⟨octets, h⟩ := exists_pairs_iff.2 ⟨heven, hall⟩
    exact ⟨octets, h, ofText_eq_ok.2 (hlead h)⟩
  case exact =>
    intro hplus octets h
    have hnone : 0x2B ∉ stripped text := fun hmem => hplus (List.mem_of_mem_filter hmem)
    have hpairs := (ofText_eq_ok.1 h).of_no_plus hnone
    obtain ⟨heven, hall⟩ := exists_pairs_iff.1 ⟨octets, hpairs⟩
    exact ⟨heven, hall, hpairs⟩
  case rendered =>
    intro octets h
    exact ofText_eq_ok.2 (hlead (pairs_iff_rendered.2 h))
  case refused =>
    cases h : ofText text with
    | ok octets => exact .inl ⟨octets, rfl⟩
    | error e => exact .inr ⟨e, rfl, exitCode_of_ofText h⟩

/-- `ofText` reads `+5` as the octet 5, although the plus is no digit. -/
theorem plus_read :
    ofText [0x2B, 0x35] = .ok [5] ∧ (stripped [0x2B, 0x35]).length % 2 = 0 ∧
      ¬ ∀ b ∈ stripped [0x2B, 0x35], ∃ n, Digit b n := by
  have hplus : Lead 0x2B 0 := .inr ⟨rfl, rfl⟩
  have hfive : Digit 0x35 5 := digit_iff.2 (by decide)
  have hpairs : Pairs Lead (stripped [0x2B, 0x35]) [5] := .cons hplus hfive .nil
  refine ⟨ofText_eq_ok.2 hpairs, rfl, fun hall => ?_⟩
  obtain ⟨n, hn⟩ := hall 0x2B List.mem_cons_self
  -- A plus is worth nothing.
  have hnone : Hex.value? (Char.ofNat (0x2B : UInt8).toNat) = none := by decide
  rw [digit_iff, hnone] at hn
  cases hn

/-- `ofText` of four digits of both cases among blanks. -/
theorem hexText_read_mixed :
    let text : Bytes := [0x20, 0x35, 0x66, 0x09, 0x41, 0x30, 0x0A]
    (stripped text).map lowerCase = Bytes.ofText (Hex.ofBytes [0x5F, 0xA0]) ∧
      ofText text = .ok [0x5F, 0xA0] ∧ 0x2B ∉ text ∧ (stripped text).length % 2 = 0 ∧
      (∀ b ∈ stripped text, ∃ n, Digit b n) ∧
      ∃ octets, Pairs Digit (stripped text) octets ∧ ofText text = .ok octets := by
  intro text
  have hhigh : Digit 0x35 5 ∧ Digit 0x66 15 := by
    rw [digit_iff, digit_iff]
    decide
  have hlow : Digit 0x41 10 ∧ Digit 0x30 0 := by
    rw [digit_iff, digit_iff]
    decide
  have hpairs : Pairs Digit (stripped text) [0x5F, 0xA0] :=
    .cons hhigh.1 hhigh.2 (.cons hlow.1 hlow.2 .nil)
  have hrendered := pairs_iff_rendered.1 hpairs
  have hplus : 0x2B ∉ text := by decide
  obtain ⟨-, hdigits, hexact, hspelled, -⟩ := hexText_read text
  have hread : ofText text = .ok [0x5F, 0xA0] := hspelled _ hrendered
  obtain ⟨heven, hall, -⟩ := hexact hplus _ hread
  exact ⟨hrendered, hread, hplus, heven, hall, hdigits heven hall⟩

end Storefront.HexInput
