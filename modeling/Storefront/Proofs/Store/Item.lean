import Mathlib.Data.Nat.Bitwise
import Storefront.Store.Item

/-! # Changes of application items

The word of an item is changed part by part.  A change of one part keeps the others as they are,
also where they hold numbers that this build has no name for, so of any changes made one after the
other each part shows the last that was about it.

* `Change`, `apply`       the ways in which the word is changed
* `testBit_word`          which bits of the word belong to which part
* `foldl_last_write`      what is left of writes made one after the other
* `parts_independent`     what every part holds after any changes
-/

namespace Storefront

/-- The place of a flag among the flags. -/
def AppItemFlag.place : AppItemFlag → Nat
  | reviewAccepted => 0
  | reviewRejected => 1

theorem AppItemFlag.place_lt (flag : AppItemFlag) : flag.place < 52 := by
  cases flag <;> decide

/-- `bit` of a flag stands in its `place`. -/
theorem AppItemFlag.toNat_bit (flag : AppItemFlag) : flag.bit.toNat = 2 ^ flag.place := by
  cases flag <;> rfl

namespace AppItemEntry

/-- The parts of an item's word. -/
inductive Part where
  | state
  | kind
  | flags
  deriving DecidableEq

/-- The bits of the word that belong to a part. -/
def Part.Covers : Part → Nat → Prop
  | state, i => i < 8
  | kind, i => 8 ≤ i ∧ i < 12
  | flags, i => 12 ≤ i

/-- The number that a part of an item's word holds. -/
def Part.value (e : AppItemEntry) : Part → Nat
  | state => e.rawState.toNat
  | kind => e.rawKind.toNat
  | flags => e.flags.toNat

/-- A change of an item's word. -/
inductive Change where
  | setState (state : AppItemState)
  | setKind (kind : AppItemKind)
  | setFlags (flags : UInt64)
  | setFlag (flag : AppItemFlag)
  | resetFlag (flag : AppItemFlag)

/-- The item after a change. -/
def apply (e : AppItemEntry) : Change → AppItemEntry
  | .setState state => e.setState state
  | .setKind kind => e.setKind kind
  | .setFlags flags => e.setFlags flags
  | .setFlag flag => e.setFlag flag
  | .resetFlag flag => e.resetFlag flag

/-- The item after changes made one after the other. -/
def applyAll (e : AppItemEntry) (cs : List Change) : AppItemEntry := cs.foldl apply e

namespace Change

/-- The part that a change is about. -/
def part : Change → Part
  | setState _ => .state
  | setKind _ => .kind
  | setFlags _ | setFlag _ | resetFlag _ => .flags

/-- The state that a change sets. -/
def state? : Change → Option UInt8
  | setState state => some state.code
  | _ => none

/-- The kind that a change sets. -/
def kind? : Change → Option UInt8
  | setKind kind => some kind.code
  | _ => none

/-- What a change sets the flag in the `i`-th place to.  There are 52 places; all of them are set at
once, or the one of a flag is. -/
def flag? (i : Nat) : Change → Option Bool
  | setFlags flags => some (decide (i < 52) && flags.toNat.testBit i)
  | setFlag flag => if flag.place = i then some true else none
  | resetFlag flag => if flag.place = i then some false else none
  | _ => none

end Change

variable {e e' : AppItemEntry} {c d : Change} {p : Part} {i : Nat} {state kind : UInt8}
  {flags : UInt64} {name : String}

/-! ## Parts of a word -/

/-- `pack` puts the state lowest, then four bits of the kind, then 52 of the flags. -/
theorem toNat_pack (state kind : UInt8) (flags : UInt64) :
    (pack state kind flags).toNat =
      2 ^ 8 * (2 ^ 4 * (flags.toNat % 2 ^ 52) + kind.toNat % 2 ^ 4) + state.toNat := by
  have hstate := state.toNat_lt
  -- Every shift is one of the powers, and the parts do not overlap.
  simp only [pack, Nat.toUInt64_eq, UInt64.toNat_ofNat']
  omega

theorem rawKind_lt (e : AppItemEntry) : e.rawKind.toNat < 2 ^ 4 := by
  simp only [rawKind, unpack, Nat.toUInt8_eq, UInt8.toNat_ofNat']
  omega

theorem flags_lt (e : AppItemEntry) : e.flags.toNat < 2 ^ 52 := by
  have hword := e.word.toNat_lt
  simp only [AppItemEntry.flags, unpack, Nat.toUInt64_eq, UInt64.toNat_ofNat']
  omega

/-- `word` is what `pack` makes of its parts. -/
theorem word_eq (e : AppItemEntry) : e.word = pack e.rawState e.rawKind e.flags :=
  (pack_unpack e.word).symm

@[simp] theorem rawState_pack : rawState ⟨name, pack state kind flags⟩ = state := by
  simp [rawState, unpack_pack]

theorem toNat_rawKind_pack :
    (rawKind ⟨name, pack state kind flags⟩).toNat = kind.toNat % 2 ^ 4 := by
  simp only [rawKind, unpack_pack, Nat.toUInt8_eq, UInt8.toNat_ofNat']
  omega

theorem toNat_flags_pack :
    (AppItemEntry.flags ⟨name, pack state kind flags⟩).toNat = flags.toNat % 2 ^ 52 := by
  simp only [AppItemEntry.flags, unpack_pack, Nat.toUInt64_eq, UInt64.toNat_ofNat']
  omega

/-- `word` has the state in the lowest eight bits, the kind in the next four, and the flags in those
above them. -/
theorem testBit_word (e : AppItemEntry) (i : Nat) :
    e.word.toNat.testBit i =
      if i < 8 then e.rawState.toNat.testBit i
      else if i < 12 then e.rawKind.toNat.testBit (i - 8)
      else e.flags.toNat.testBit (i - 12) := by
  have hstate : e.rawState.toNat < 2 ^ 8 := e.rawState.toNat_lt
  have hkind : e.rawKind.toNat % 2 ^ 4 < 2 ^ 4 := Nat.mod_lt _ (by decide)
  -- The state lies below `2 ^ 8`, so the bits above belong to the quotient.
  rw [word_eq, toNat_pack, Nat.testBit_two_pow_mul_add _ hstate]
  by_cases hlow : i < 8
  · rw [if_pos hlow, if_pos hlow]
  · rw [if_neg hlow, if_neg hlow, Nat.testBit_two_pow_mul_add _ hkind,
      Nat.mod_eq_of_lt e.rawKind_lt, Nat.mod_eq_of_lt e.flags_lt]
    -- Of the quotient, the lowest four bits are the kind.
    by_cases hmiddle : i < 12
    · rw [if_pos (by omega), if_pos hmiddle]
    · rw [if_neg (by omega), if_neg hmiddle, Nat.sub_sub]

/-- An item is its name and the `value` of each part. -/
theorem eq_of_parts (hname : e.name = e'.name) (hparts : ∀ p : Part, p.value e = p.value e') :
    e = e' := by
  have hstate : e.rawState = e'.rawState := UInt8.toNat_inj.1 (hparts .state)
  have hkind : e.rawKind = e'.rawKind := UInt8.toNat_inj.1 (hparts .kind)
  have hflags : e.flags = e'.flags := UInt64.toNat_inj.1 (hparts .flags)
  -- The parts make up the word.
  have hword : e.word = e'.word := by rw [word_eq, word_eq e', hstate, hkind, hflags]
  cases e
  cases e'
  simp_all

/-! ## One change -/

@[simp] theorem name_apply (e : AppItemEntry) (c : Change) : (e.apply c).name = e.name := by
  cases c <;> rfl

/-- `setState` sets the state, and no other change does. -/
theorem rawState_apply (e : AppItemEntry) (c : Change) :
    (e.apply c).rawState = c.state?.getD e.rawState := by
  cases c <;> exact rawState_pack

/-- `setKind` sets the kind, whose code has four bits, and no other change does. -/
theorem rawKind_apply (e : AppItemEntry) (c : Change) :
    (e.apply c).rawKind = c.kind?.getD e.rawKind := by
  apply UInt8.toNat_inj.1
  -- Four bits of the kind are all of it.
  have hkept := Nat.mod_eq_of_lt e.rawKind_lt
  cases c with
  | setKind kind =>
    have hcode : kind.code.toNat % 2 ^ 4 = kind.code.toNat := by cases kind <;> rfl
    exact toNat_rawKind_pack.trans hcode
  | _ => exact toNat_rawKind_pack.trans hkept

/-- `setFlags` drops those that have no place. -/
theorem testBit_setFlags (e : AppItemEntry) (flags : UInt64) (i : Nat) :
    (e.setFlags flags).flags.toNat.testBit i = (decide (i < 52) && flags.toNat.testBit i) := by
  rw [setFlags, toNat_flags_pack, Nat.testBit_mod_two_pow]

theorem testBit_of_le (e : AppItemEntry) (h : 52 ≤ i) : e.flags.toNat.testBit i = false := by
  have hroom : 2 ^ 52 ≤ 2 ^ i := Nat.pow_le_pow_right (by decide) h
  exact Nat.testBit_lt_two_pow (Nat.lt_of_lt_of_le e.flags_lt hroom)

/-- What becomes of a single flag: `setFlags` sets all, `setFlag` and `resetFlag` the one in
the place. -/
theorem testBit_flags_apply (e : AppItemEntry) (c : Change) (i : Nat) :
    (e.apply c).flags.toNat.testBit i = (c.flag? i).getD (e.flags.toNat.testBit i) := by
  have hkept : ∀ state kind, (AppItemEntry.flags ⟨e.name, pack state kind e.flags⟩).toNat =
      e.flags.toNat := by
    intro state kind
    rw [toNat_flags_pack, Nat.mod_eq_of_lt e.flags_lt]
  -- Where there is no place for a flag there is none before and none after.
  have hhigh : 52 ≤ i → e.flags.toNat.testBit i = false := e.testBit_of_le
  cases c with
  | setState state => exact congrArg (·.testBit i) (hkept _ _)
  | setKind kind => exact congrArg (·.testBit i) (hkept _ _)
  | setFlags flags => exact testBit_setFlags e flags i
  | setFlag flag =>
    have hplace := flag.place_lt
    simp only [apply, setFlag, testBit_setFlags, UInt64.toNat_or, Nat.testBit_or, flag.toNat_bit,
      Nat.testBit_two_pow, Change.flag?]
    by_cases hflag : flag.place = i
    · have hi : i < 52 := by omega
      simp [hi, hflag]
    · by_cases hi : i < 52
      · simp [hi, hflag]
      · simp [hi, hflag, hhigh (by omega)]
  | resetFlag flag =>
    have hplace := flag.place_lt
    have hbit : 2 ^ flag.place < 2 ^ 64 := Nat.pow_lt_pow_right (by decide) (by omega)
    -- The complement of a bit has all the others.
    have hothers : (~~~flag.bit).toNat = 2 ^ 64 - (2 ^ flag.place + 1) := by
      rw [UInt64.toNat_not, flag.toNat_bit, UInt64.size]
      omega
    simp only [apply, resetFlag, testBit_setFlags, UInt64.toNat_and, Nat.testBit_and, hothers,
      Nat.testBit_two_pow_sub_succ hbit, Nat.testBit_two_pow, Change.flag?]
    by_cases hflag : flag.place = i
    · simp [hflag]
    · by_cases hi : i < 52
      · have hword : i < 64 := by omega
        simp [hi, hflag, hword]
      · simp [hi, hflag, hhigh (by omega)]

/-- `isFlagSet` looks at the bit in the place of the flag. -/
theorem isFlagSet_eq (e : AppItemEntry) (flag : AppItemFlag) :
    e.isFlagSet flag = e.flags.toNat.testBit flag.place := by
  -- Masking with one bit leaves this bit or nothing.
  have hjoint : (e.flags &&& flag.bit).toNat =
      (e.flags.toNat.testBit flag.place).toNat * 2 ^ flag.place := by
    rw [UInt64.toNat_and, flag.toNat_bit, Nat.and_two_pow]
  have hpos : 0 < 2 ^ flag.place := Nat.two_pow_pos _
  have hzero : (e.flags &&& flag.bit) = 0 ↔ e.flags.toNat.testBit flag.place = false := by
    rw [← UInt64.toNat_inj, hjoint]
    cases e.flags.toNat.testBit flag.place <;> simp
  unfold isFlagSet
  cases hset : e.flags.toNat.testBit flag.place <;> simp_all

/-- `value` of a part after a change depends on its value before, and on no other part. -/
theorem value_apply_congr (c : Change) (h : p.value e = p.value e') :
    p.value (e.apply c) = p.value (e'.apply c) := by
  cases p with
  | state =>
    have hstate : e.rawState = e'.rawState := UInt8.toNat_inj.1 h
    simp only [Part.value, rawState_apply, hstate]
  | kind =>
    have hkind : e.rawKind = e'.rawKind := UInt8.toNat_inj.1 h
    simp only [Part.value, rawKind_apply, hkind]
  | flags =>
    have hflags : e.flags.toNat = e'.flags.toNat := h
    -- Flags are compared bit by bit.
    apply Nat.eq_of_testBit_eq
    intro i
    simp only [Part.value, testBit_flags_apply, hflags]

/-- `apply` of a change of one part keeps what the others hold. -/
theorem value_apply (e : AppItemEntry) (h : c.part ≠ p) : p.value (e.apply c) = p.value e := by
  cases p with
  | state =>
    -- A change of another part sets no state.
    have hnone : c.state? = none := by
      cases c with
      | setState state => exact absurd rfl h
      | _ => rfl
    simp only [Part.value, rawState_apply, hnone, Option.getD_none]
  | kind =>
    -- A change of another part sets no kind.
    have hnone : c.kind? = none := by
      cases c with
      | setKind kind => exact absurd rfl h
      | _ => rfl
    simp only [Part.value, rawKind_apply, hnone, Option.getD_none]
  | flags =>
    -- A change of another part sets no flag.
    have hnone : ∀ i, c.flag? i = none := by
      cases c with
      | setState state => exact fun _ => rfl
      | setKind kind => exact fun _ => rfl
      | _ => exact absurd rfl h
    apply Nat.eq_of_testBit_eq
    intro i
    simp only [Part.value, testBit_flags_apply, hnone, Option.getD_none]

/-- `apply` of changes of two parts comes to the same in either order. -/
theorem apply_comm (e : AppItemEntry) (h : c.part ≠ d.part) :
    (e.apply c).apply d = (e.apply d).apply c := by
  apply eq_of_parts
  · simp only [name_apply]
  · intro p
    -- One of the two is about another part, so it makes no difference where it stands.
    by_cases hc : c.part = p
    · have hd : d.part ≠ p := fun hd => h (hc.trans hd.symm)
      rw [value_apply _ hd, value_apply_congr c (value_apply e hd)]
    · rw [value_apply _ hc, value_apply_congr d (value_apply e hc)]

/-! ## Any changes -/

/-- What is seen of a state after a `foldl` of writes is the last of them that is about it. -/
theorem foldl_last_write {σ α β : Type} {step : σ → α → σ} (view : σ → β) {write : α → Option β}
    (hstep : ∀ s a, view (step s a) = (write a).getD (view s)) (s : σ) (as : List α) :
    view (as.foldl step s) = ((as.filterMap write).getLast?).getD (view s) := by
  induction as generalizing s with
  | nil => rfl
  | cons a as ih =>
    rw [List.foldl_cons, ih, hstep]
    -- The first write counts only if no later one is about it.
    cases hwrite : write a with
    | none => rw [List.filterMap_cons_none hwrite, Option.getD_none]
    | some b => rw [List.filterMap_cons_some hwrite, List.getLast?_cons, Option.getD_some,
        Option.getD_some]

/-- `applyAll` is not about the name. -/
theorem name_applyAll (e : AppItemEntry) (cs : List Change) : (e.applyAll cs).name = e.name := by
  induction cs generalizing e with
  | nil => rfl
  | cons c cs ih => exact (ih (e.apply c)).trans (name_apply e c)

/-- `applyAll` keeps the `value` of a part that no change is about. -/
theorem value_applyAll (e : AppItemEntry) {cs : List Change} (h : ∀ c ∈ cs, c.part ≠ p) :
    p.value (e.applyAll cs) = p.value e := by
  induction cs generalizing e with
  | nil => rfl
  | cons c cs ih =>
    have hrest := ih (e.apply c) fun d hd => h d (List.mem_cons_of_mem c hd)
    have hfirst := value_apply e (h c List.mem_cons_self)
    exact hrest.trans hfirst

/-- `applyAll` keeps the bits of the word that belong to parts which no change is about. -/
theorem testBit_applyAll (e : AppItemEntry) {cs : List Change}
    (h : ∀ c ∈ cs, ¬ c.part.Covers i) :
    (e.applyAll cs).word.toNat.testBit i = e.word.toNat.testBit i := by
  -- The part that the bit belongs to is one that no change is about.
  have hkept : ∀ p : Part, p.Covers i → p.value (e.applyAll cs) = p.value e := by
    intro p hp
    apply value_applyAll
    rintro c hc rfl
    exact h c hc hp
  rw [testBit_word, testBit_word]
  by_cases hlow : i < 8
  · have hstate : (e.applyAll cs).rawState.toNat = e.rawState.toNat := hkept .state hlow
    rw [if_pos hlow, if_pos hlow, hstate]
  · rw [if_neg hlow, if_neg hlow]
    by_cases hmiddle : i < 12
    · have hkind : (e.applyAll cs).rawKind.toNat = e.rawKind.toNat :=
        hkept .kind ⟨by omega, hmiddle⟩
      rw [if_pos hmiddle, if_pos hmiddle, hkind]
    · have hflags : (e.applyAll cs).flags.toNat = e.flags.toNat :=
        hkept .flags (show 12 ≤ i by omega)
      rw [if_neg hmiddle, if_neg hmiddle, hflags]

/-- The parts of an item's `word` do not get in each other's way.

* `unpack` gives back what `pack` was given, less the bits for which a part has no room, and `pack`
  of what `unpack` makes of any word is the word.
* After any changes made one after the other (`applyAll`), `rawState` and `rawKind` are those of the
  last change that was about them, and so is every bit of `flags`.  What none was about is as it has
  been, be it known to this build or not, down to the bits of the word.
* `apply` of two changes of different parts may be done in either order.
* `state?`, `kind?` and `isFlagSet` answer what has been set. -/
theorem parts_independent :
    (∀ (state kind : UInt8) (flags : UInt64), unpack (pack state kind flags) =
      (state, (kind.toNat % 16).toUInt8, (flags.toNat % 2 ^ 52).toUInt64)) ∧
    (∀ word : UInt64, pack (unpack word).1 (unpack word).2.1 (unpack word).2.2 = word) ∧
    (∀ (e : AppItemEntry) (cs : List Change),
      (e.applyAll cs).name = e.name ∧
      (e.applyAll cs).rawState = ((cs.filterMap Change.state?).getLast?).getD e.rawState ∧
      (e.applyAll cs).rawKind = ((cs.filterMap Change.kind?).getLast?).getD e.rawKind ∧
      ∀ i, (e.applyAll cs).flags.toNat.testBit i =
        ((cs.filterMap (Change.flag? i)).getLast?).getD (e.flags.toNat.testBit i)) ∧
    (∀ (e : AppItemEntry) (cs : List Change) (p : Part), (∀ c ∈ cs, c.part ≠ p) →
      p.value (e.applyAll cs) = p.value e) ∧
    (∀ (e : AppItemEntry) (cs : List Change) (i : Nat), (∀ c ∈ cs, ¬ c.part.Covers i) →
      (e.applyAll cs).word.toNat.testBit i = e.word.toNat.testBit i) ∧
    (∀ (e : AppItemEntry) (c d : Change), c.part ≠ d.part →
      (e.apply c).apply d = (e.apply d).apply c) ∧
    ∀ e : AppItemEntry, (∀ state, (e.setState state).state? = some state) ∧
      (∀ kind, (e.setKind kind).kind? = some kind) ∧
      ∀ flag, e.isFlagSet flag = e.flags.toNat.testBit flag.place := by
  refine ⟨unpack_pack, pack_unpack,
    fun e cs => ⟨name_applyAll e cs, ?state, ?kind, fun i => ?flags⟩,
    fun e _ _ => value_applyAll e, fun e _ _ => testBit_applyAll e, fun e _ _ => apply_comm e,
    fun e => ⟨fun state => ?known, fun kind => ?knownKind, isFlagSet_eq e⟩⟩
  case state => exact foldl_last_write rawState rawState_apply e cs
  case kind => exact foldl_last_write rawKind rawKind_apply e cs
  case flags =>
    exact foldl_last_write (fun e => e.flags.toNat.testBit i)
      (fun e c => testBit_flags_apply e c i) e cs
  case known =>
    have hset : (e.setState state).rawState = state.code := rawState_apply e (.setState state)
    rw [state?, hset, AppItemState.ofCode?_code]
  case knownKind =>
    have hset : (e.setKind kind).rawKind = kind.code := rawKind_apply e (.setKind kind)
    rw [kind?, hset, AppItemKind.ofCode?_code]

/-- `applyAll` on a word of an unknown state, an unknown kind and a flag without a name. -/
theorem parts_independent_unknown :
    let e : AppItemEntry := ⟨"beta", pack 42 7 0x8000000000001⟩
    let changes : List Change := [.setFlag .reviewRejected, .resetFlag .reviewAccepted]
    (e.applyAll changes).rawState = 42 ∧ Part.kind.value (e.applyAll changes) = 7 ∧
      (e.applyAll changes).flags.toNat.testBit 51 = true ∧
      (e.applyAll changes).word.toNat.testBit 1 = true ∧
      (e.apply (.setState .trash)).apply (.setKind .media) =
        (e.apply (.setKind .media)).apply (.setState .trash) := by
  intro e changes
  obtain ⟨-, -, hruns, hkept, hbits, hcomm, -⟩ := parts_independent
  obtain ⟨-, hstate, -, hflags⟩ := hruns e changes
  refine ⟨hstate.trans (by decide), ?_, (hflags 51).trans (by decide), ?_,
    hcomm e _ _ (by decide)⟩
  · exact (hkept e changes .kind (by decide)).trans (by decide)
  · -- Both changes are of flags, and the bit is one of the state.
    have hnone : ∀ c ∈ changes, ¬ c.part.Covers 1 := by
      intro c hc
      simp only [changes, List.mem_cons, List.not_mem_nil, or_false] at hc
      rcases hc with rfl | rfl <;> exact (by decide : ¬ 12 ≤ 1)
    exact (hbits e changes 1 hnone).trans (by decide)

end AppItemEntry

end Storefront
