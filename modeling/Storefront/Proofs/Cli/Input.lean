import Storefront.Cli.Run
import Storefront.Proofs.Json.Scalar

/-! # What a decode is given

The octets that a decode looks at are those of a file or of the standard input, or what these spell
in hexadecimal digits.  They are all that the answer depends on, apart from the format.

* `HexInput.ofText_of_spells`   digits are read as what they spell
* `Cli.run_decode`              a run that decodes answers about the octets that it is given
-/

namespace Storefront

/-- `ofText` of ASCII characters has one octet for each. -/
theorem Bytes.ofText_of_ascii {cs : List Char} (h : ∀ c ∈ cs, c.toNat < 128) :
    Bytes.ofText (String.ofList cs) = cs.map fun c => c.toNat.toUInt8 := by
  -- By induction on the characters, each of which is encoded in one octet.
  have hencode : cs.flatMap String.utf8EncodeChar = cs.map fun c => c.toNat.toUInt8 := by
    induction cs with
    | nil => rfl
    | cons c cs ih =>
      have hc : c.val.toNat ≤ 0x7F := Nat.le_of_lt_succ (h c List.mem_cons_self)
      have hrest := ih fun d hd => h d (List.mem_cons_of_mem c hd)
      rw [List.flatMap_cons, hrest, String.utf8EncodeChar, if_pos hc]
      rfl
  unfold Bytes.ofText
  rw [String.toByteArray_ofList, List.utf8Encode, hencode]
  simp

namespace HexInput

/-- A text that spells octets: two hexadecimal digits for each of them, in upper or lower case, with
blanks anywhere. -/
def Spells (text bytes : Bytes) : Prop :=
  Hex.toBytes? ((text.filter fun b => !isBlank b).map fun b => Char.ofNat b.toNat) = some bytes

instance (text bytes : Bytes) : Decidable (Spells text bytes) := inferInstanceAs (Decidable (_ = _))

/-- What `value?` takes for a digit is ASCII, and no plus. -/
theorem ascii_of_value? {b : UInt8} {n : Nat} (h : Hex.value? (Char.ofNat b.toNat) = some n) :
    b.toNat < 128 ∧ Char.ofNat b.toNat ≠ '+' := by
  have hall : ∀ k < 256, (Hex.value? (Char.ofNat k)).isSome →
      k < 128 ∧ Char.ofNat k ≠ '+' := by decide +kernel
  exact hall b.toNat b.toNat_lt (by rw [h]; rfl)

/-- `Utf8.decode` makes two characters of two octets of ASCII. -/
theorem decode_ascii {a b : UInt8} (ha : a.toNat < 128) (hb : b.toNat < 128) :
    Utf8.decode [a, b] = .ok (String.ofList [Char.ofNat a.toNat, Char.ofNat b.toNat]) := by
  have hascii : ∀ c ∈ [Char.ofNat a.toNat, Char.ofNat b.toNat], c.toNat < 128 := by
    simp [JsonScan.toNat_ofNat a.toNat_lt, JsonScan.toNat_ofNat b.toNat_lt, ha, hb]
  -- The octets of the text are the two.
  have hoctets :
      Bytes.ofText (String.ofList [Char.ofNat a.toNat, Char.ofNat b.toNat]) = [a, b] := by
    rw [Bytes.ofText_of_ascii hascii]
    simp [JsonScan.toNat_ofNat a.toNat_lt, JsonScan.toNat_ofNat b.toNat_lt]
  rw [← hoctets, Utf8.decode_ofText]

/-- `octet?` takes two digits. -/
theorem octet?_of_digits {a b : UInt8} {high low : Nat}
    (ha : Hex.value? (Char.ofNat a.toNat) = some high)
    (hb : Hex.value? (Char.ofNat b.toNat) = some low) :
    octet? (String.ofList [Char.ofNat a.toNat, Char.ofNat b.toNat]) =
      some (high * 16 + low).toUInt8 := by
  -- A sign before a number would be read as one, but what starts with a digit has none.
  have hplus := (ascii_of_value? ha).2
  unfold octet?
  rw [String.toList_ofList]
  split
  · rename_i d heq
    exact absurd (List.cons.inj heq).1 hplus
  · rename_i x y _ heq
    simp only [List.cons.injEq, and_true] at heq
    obtain ⟨rfl, rfl⟩ := heq
    simp only [ha, hb]
  · rename_i hno
    exact absurd rfl (hno _ _)

/-- `ofPairs` reads an even number of digits as `Hex.toBytes?` does. -/
theorem ofPairs_of_toBytes? : (digits : Bytes) → ∀ {bytes : Bytes},
    Hex.toBytes? (digits.map fun b => Char.ofNat b.toNat) = some bytes →
    ofPairs digits = .ok bytes ∧ digits.length % 2 = 0
  | [], _, h => by
    cases h
    exact ⟨rfl, rfl⟩
  | [_], _, h => by cases h
  | a :: b :: rest, _, h => by
    simp only [List.map_cons, Hex.toBytes?] at h
    split at h
    · rename_i high low bs hhigh hlow hbs
      cases h
      -- The first two digits are an octet, and the others are read behind them.
      obtain ⟨hrest, heven⟩ := ofPairs_of_toBytes? rest hbs
      have htext := decode_ascii (ascii_of_value? hhigh).1 (ascii_of_value? hlow).1
      refine ⟨?_, ?_⟩
      · simp only [ofPairs, htext, octet?_of_digits hhigh hlow, hrest, Except.map]
      · simp only [List.length_cons]
        omega
    · cases h

/-- `ofText` reads a text as the octets that it `Spells`. -/
theorem ofText_of_spells {text bytes : Bytes} (h : Spells text bytes) : ofText text = .ok bytes := by
  obtain ⟨hread, heven⟩ := ofPairs_of_toBytes? _ h
  rw [ofText, if_pos heven, hread]

/-- `ofText` fails with `dataCode`: it is the input that is refused. -/
theorem exitCode_of_ofText {text : Bytes} {e : CliError} (h : ofText text = .error e) :
    e.exitCode = CliError.dataCode := by
  -- Each of the ways in which pairs can fail has the same code.
  have hpairs : ∀ {digits : Bytes} {e : CliError}, ofPairs digits = .error e →
      e.exitCode = CliError.dataCode := by
    intro digits e h
    fun_induction ofPairs digits with
    | case1 => cases h
    | case2 =>
      cases h
      rfl
    | case3 =>
      cases h
      rfl
    | case4 =>
      cases h
      rfl
    | case5 a b rest _ _ octet _ ih =>
      cases hrest : ofPairs rest with
      | ok bs => simp [hrest, Except.map] at h
      | error e' =>
        simp only [hrest, Except.map, Except.error.injEq] at h
        subst h
        exact ih hrest
  unfold ofText at h
  dsimp only at h
  split at h
  · exact hpairs h
  · cases h
    rfl

end HexInput

namespace Surroundings

/-- What stands under a path: the standard input for a dash, otherwise a file. -/
def contents (around : Surroundings) (path : String) : Except FileFault Bytes :=
  if path = "-" then around.input else around.file path

/-- The octets that a decode is given: what stands under the path, or what it spells. -/
def Supplies (around : Surroundings) (path : String) (hex : Bool) (bytes : Bytes) : Prop :=
  ∃ raw, around.contents path = .ok raw ∧ if hex then HexInput.Spells raw bytes else raw = bytes

end Surroundings

/-- What a run comes to that ends with an answer or a failure. -/
def Outcome.ofAnswer : Except CliError Bytes → Outcome
  | .ok output => ⟨0, output, none⟩
  | .error e => ⟨e.exitCode, [], some e⟩

namespace Cli

variable {around : Surroundings} {path : String} {hex : Bool} {raw bytes : Bytes}
  {arguments : List String} {format : Option OutputFormat}

/-- `readInput` reads what stands under the path, and as text when it is in digits. -/
theorem readInput_of_contents (h : around.contents path = .ok raw) :
    readInput around path hex = if hex then HexInput.ofText raw else .ok raw := by
  unfold Surroundings.contents at h
  unfold readInput
  split at h <;> rename_i hpath
  · rw [if_pos hpath, h]
    rfl
  · rw [if_neg hpath, h]
    rfl

/-- `readInput` comes to the octets that it is given. -/
theorem readInput_of_supplies (h : around.Supplies path hex bytes) :
    readInput around path hex = .ok bytes := by
  obtain ⟨raw, hraw, hbytes⟩ := h
  rw [readInput_of_contents hraw]
  cases hex with
  | false => exact congrArg Except.ok hbytes
  | true => exact HexInput.ofText_of_spells hbytes

/-- The format that a decode answers in. -/
def formatOf (around : Surroundings) (format : Option OutputFormat) : OutputFormat :=
  format.getD (if around.terminal then .table else .json)

/-- `run` of a decode is `readInput`, and then `showFrame` about the octets that it gives. -/
theorem run_decode
    (hparse : Arguments.parse around.logLevel arguments = .ok ⟨format, .decode path hex⟩) :
    run around arguments = .ofAnswer ((readInput around path hex).bind fun bytes =>
      showFrame bytes (formatOf around format)) := by
  simp only [run, hparse, answer, formatOf, bind]
  split <;> rename_i hanswer <;> rw [hanswer] <;> rfl

/-- `run` of a decode is `showFrame` about the octets that the surroundings supply. -/
theorem run_of_supplies
    (hparse : Arguments.parse around.logLevel arguments = .ok ⟨format, .decode path hex⟩)
    (h : around.Supplies path hex bytes) :
    run around arguments = .ofAnswer (showFrame bytes (formatOf around format)) := by
  rw [run_decode hparse, readInput_of_supplies h]
  rfl

end Cli

end Storefront
