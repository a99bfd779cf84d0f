import Mathlib.Data.List.Forall2
import Storefront.Json.Reader
import Storefront.Proofs.Json.Grammar

/-! # Documents however spelled

A reader takes a value off octets that spell it, in whichever of the many ways, and leaves what
follows.  Two things bound what is read: how deep lists and objects stand inside each other, and how
large a number may be (`Held`).

* `elements_read`           a list is read element by element
* `Collects.members_read`   an object is read member by member
* `Spells.reads`            a value is read however it is spelled
-/

namespace Storefront

open JsonScan JsonGrammar

namespace JsonGrammar

variable {bs s : Bytes}

/-! ## Blanks -/

theorem skipBlanks_cons {b : UInt8} (h : isBlank b = false) (s : Bytes) :
    skipBlanks (b :: s) = b :: s := by
  simp [skipBlanks, h]

/-- `skipBlanks` passes over blanks, whatever follows them. -/
theorem skipBlanks_append (h : Blank bs) (s : Bytes) : skipBlanks (bs ++ s) = skipBlanks s := by
  -- One blank after the other, each of which `skipBlanks` drops.
  induction bs with
  | nil => rfl
  | cons b bs ih =>
    rw [List.cons_append, skipBlanks, if_pos (h b List.mem_cons_self)]
    exact ih fun c hc => h c (List.mem_cons_of_mem _ hc)

theorem skipBlanks_append_cons (h : Blank bs) {b : UInt8} (hb : isBlank b = false) (s : Bytes) :
    skipBlanks (bs ++ b :: s) = b :: s :=
  (skipBlanks_append h _).trans (skipBlanks_cons hb s)

/-- `skipBlanks` passes over what is in front of a part. -/
theorem Spaced.skipBlanks_spelled {α : Type} {x : Spaced α} {b : UInt8} {w : Bytes}
    (hw : x.octets = b :: w) (hb : isBlank b = false) (s : Bytes) :
    skipBlanks (x.spelled ++ s) = b :: (w ++ (x.after ++ s)) := by
  rw [spelled, List.append_assoc, List.append_assoc, hw]
  exact skipBlanks_append_cons x.blank.1 hb _

theorem blank_nil : Blank [] := by simp [Blank]

/-- A blank `Stops` a number. -/
theorem stops_of_isBlank {b : UInt8} (h : isBlank b) (s : Bytes) : Stops (b :: s) := by
  apply stops_cons
  simp only [isBlank, Bool.or_eq_true, beq_iff_eq] at h
  -- Blanks are four octets, none of which a number has.
  obtain ((rfl | rfl) | rfl) | rfl := h <;> decide

/-- `Blank` octets stop a number, and so does what stops one behind them. -/
theorem Blank.stops (h : Blank bs) (hs : Stops s) : Stops (bs ++ s) := by
  -- The first octet decides, which is a blank unless there are none.
  cases bs with
  | nil => exact hs
  | cons b bs => exact stops_of_isBlank (h b List.mem_cons_self) _

theorem stops_comma (s : Bytes) : Stops (octet ',' :: s) := stops_cons (by decide) s

theorem stops_bracket (s : Bytes) : Stops (octet ']' :: s) := stops_cons (by decide) s

theorem stops_brace (s : Bytes) : Stops (octet '\x7d' :: s) := stops_cons (by decide) s

/-- What `more` makes of the parts that follow stops a number, be it another part or the end. -/
theorem stops_more (h : Blank bs) (parts : List Bytes) (hs : Stops s) :
    Stops (bs ++ (more parts ++ s)) := by
  apply h.stops
  cases parts with
  | nil => exact hs
  | cons part parts => exact stops_comma _

/-! ## Values that are read -/

/-- The values that can be held: nested no deeper than so many levels, and without numbers that are
too large. -/
inductive Held : (levels : Nat) → JsonValue → Prop
  | null {levels : Nat} : Held levels .null
  | flag {levels : Nat} (b : Bool) : Held levels (.flag b)
  | natural {levels : Nat} (n : Nat) : Held levels (.natural n)
  | numeral {levels : Nat} {n : Numeral} (h : n.isTooLarge = false) : Held levels (.numeral n)
  | text {levels : Nat} (t : String) : Held levels (.text t)
  | list {levels : Nat} {vs : List JsonValue} (h : ∀ v ∈ vs, Held levels v) :
    Held (levels + 1) (.list vs)
  | object {levels : Nat} {ms : List (String × JsonValue)} (h : ∀ m ∈ ms, Held levels m.2) :
    Held (levels + 1) (.object ms)

/-- `roundTo53` adds one unit of the last place at most. -/
theorem roundTo53_le (n : Nat) : roundTo53 n ≤ n + 1 <<< (n.log2 - 52) := by
  have h : n / 1 <<< (n.log2 - 52) * 1 <<< (n.log2 - 52) ≤ n := Nat.div_mul_le_self n _
  unfold roundTo53
  simp only
  -- Up: the quotient and one more unit.  Down: the quotient alone.
  split
  · rw [Nat.add_mul, Nat.one_mul]
    exact Nat.add_le_add_right h _
  · exact Nat.le_trans h (Nat.le_add_right n _)

/-- A number of 64 bits is far below the largest one that `isTooLarge` lets through. -/
theorem roundTo53_lt {n : Nat} (h : n < 0x10000000000000000) :
    roundTo53 n < (1 <<< 1024) - (1 <<< 970) := by
  have hlog : n.log2 ≤ 63 := by
    obtain rfl | hn := Nat.eq_zero_or_pos n
    · decide
    · exact Nat.le_of_lt_succ ((Nat.log2_lt (by omega)).2 h)
  -- Rounding adds a unit at most, which is small beside the number.
  have hunit : 1 <<< (n.log2 - 52) ≤ 1 <<< 11 := by
    rw [Nat.one_shiftLeft, Nat.one_shiftLeft]
    exact Nat.pow_le_pow_right (by omega) (by omega)
  have hmax : 0x10000000000000000 + 1 <<< 11 < (1 <<< 1024) - (1 <<< 970) := by decide
  have hn := roundTo53_le n
  omega

/-- `leadingWhole` stops taking up digits before its number outgrows 64 bits. -/
theorem digits_leadingWhole_lt (ds : List Nat) {a : Nat} (h : a < 0x10000000000000000) :
    (Numeral.leadingWhole a ds).digits < 0x10000000000000000 := by
  induction ds generalizing a with
  | nil => exact h
  | cons d ds ih =>
    rw [Numeral.leadingWhole]
    split
    · -- The digit is taken up because the number with it still fits.
      next hd => exact ih hd
    · exact h

/-- A numeral that is `natural?` of 64 bits is not `isTooLarge`. -/
theorem isTooLarge_of_natural? {n : Numeral} {k : Nat} (h : n.natural? = some k) :
    n.isTooLarge = false := by
  unfold Numeral.natural? at h
  dsimp only at h
  split at h
  · cases h
  · next hplain =>
    simp only [not_or, not_not] at hplain
    obtain ⟨-, hfraction, -, hpower⟩ := hplain
    have hlt : n.leading.digits < 0x10000000000000000 := by
      simp only [Numeral.leading, hfraction, Numeral.leadingFraction]
      exact digits_leadingWhole_lt n.whole (by decide)
    -- Without a power of ten it is the digits alone that count, and these are of 64 bits.
    have hone : roundTo53 (Nat.pow 10 (Int.toNat 0)) = 1 := by decide
    have hmax : ¬ (1 <<< 1024) - (1 <<< 970) ≤ roundTo53 n.leading.digits :=
      Nat.not_le.2 (roundTo53_lt hlt)
    simp only [Numeral.isTooLarge, hpower, hone, Nat.mul_one, decide_eq_false hmax]
    simp

/-- A number that can be `Held` is not `isTooLarge`. -/
theorem Number.isTooLarge_of_held {n : Number} {levels : Nat} (h : Held levels n.value) :
    n.numeral.isTooLarge = false := by
  unfold value at h
  -- A number that is natural is held as one; any other is held only if it is not too large.
  cases hn : n.numeral.natural? with
  | some k => exact isTooLarge_of_natural? hn
  | none =>
    rw [hn] at h
    cases h with
    | numeral h => exact h

end JsonGrammar

namespace JsonReader

variable {α β : Type}

/-- True when a reader takes `a` off octets, whatever blanks are in front of them, and leaves what
follows. -/
def Reads (x : JsonReader α) (octets : Bytes) (a : α) : Prop :=
  ∀ before s, Blank before → Stops s → x.read (before ++ (octets ++ s)) = .ok (a, s)

theorem map_read {x : JsonReader α} {s r : Bytes} {a : α} (h : x.read s = .ok (a, r)) (f : α → β) :
    (x.map f).read s = .ok (f a, r) := by
  simp only [map, h]

/-- `map` changes what is read and not the octets that it `Reads`. -/
theorem Reads.map {x : JsonReader α} {octets : Bytes} {a : α} (h : x.Reads octets a) (f : α → β) :
    (x.map f).Reads octets (f a) :=
  fun before s hbefore hs => map_read (h before s hbefore hs) f

/-! ## Steps of the readers -/

/-- `scalarAt` of a digit is `number`. -/
theorem scalarAt_digit {d : Nat} (h : d < 10) (s : Bytes) :
    scalarAt (octet d.digitChar :: s) = number (octet d.digitChar :: s) := by
  interval_cases d <;> rfl

/-- `elementsFrom` ends with a bracket behind an element. -/
theorem elementsFrom_last {item : JsonReader α} {done : List α} {v : α} {s r r' : Bytes}
    (hv : item.read s = .ok (v, r)) (hn : next (octet ']') r = .ok (.done r')) :
    elementsFrom item done s = .ok ((v :: done).reverse, r') := by
  rw [elementsFrom]
  grind

/-- `elementsFrom` goes on behind a comma. -/
theorem elementsFrom_another {item : JsonReader α} {done : List α} {v : α} {s r r' : Bytes}
    (hv : item.read s = .ok (v, r)) (hn : next (octet ']') r = .ok (.another r')) :
    elementsFrom item done s = elementsFrom item (v :: done) r' := by
  rw [elementsFrom]
  grind

/-- `membersFrom` ends with a brace behind a member. -/
theorem membersFrom_last {member : α → String → JsonReader α} {a b : α} {key : String}
    {s r r' r'' : Bytes} (hk : name.read s = .ok (key, r))
    (hv : (member a key).read r = .ok (b, r')) (hn : next (octet '\x7d') r' = .ok (.done r'')) :
    membersFrom member a s = .ok (b, r'') := by
  rw [membersFrom]
  grind

/-- `membersFrom` goes on behind a comma. -/
theorem membersFrom_another {member : α → String → JsonReader α} {a b : α} {key : String}
    {s r r' r'' : Bytes} (hk : name.read s = .ok (key, r))
    (hv : (member a key).read r = .ok (b, r')) (hn : next (octet '\x7d') r' = .ok (.another r'')) :
    membersFrom member a s = membersFrom member b r'' := by
  rw [membersFrom]
  grind

end JsonReader

namespace JsonGrammar

open JsonReader

variable {bs s : Bytes} {v : JsonValue}

/-! ## Values without parts -/

/-- The `octets` of a number start with a digit or a minus. -/
theorem Number.octets_eq_cons (n : Number) :
    ∃ b w, n.octets = b :: w ∧ (b = octet '-' ∨ ∃ d < 10, b = octet d.digitChar) := by
  obtain ⟨d, w, hd, hw⟩ := n.whole.octets_eq_cons
  unfold octets
  cases n.negative with
  | true => exact ⟨_, _, rfl, .inl rfl⟩
  | false => exact ⟨_, _, by rw [hw]; rfl, .inr ⟨d, hd, rfl⟩⟩

namespace SpellsScalar

/-- What `SpellsScalar` allows starts with no blank, no bracket and no brace. -/
theorem eq_cons (h : SpellsScalar bs v) :
    ∃ b w, bs = b :: w ∧ isBlank b = false ∧ b ≠ octet '[' ∧ b ≠ octet ']' ∧ b ≠ octet '\x7b' := by
  cases h with
  | null | yes | no => exact ⟨_, _, rfl, by decide⟩
  | number n =>
    obtain ⟨b, w, hw, hb⟩ := n.octets_eq_cons
    refine ⟨b, w, hw, ?_⟩
    obtain rfl | ⟨d, hd, rfl⟩ := hb
    · decide
    · interval_cases d <;> decide
  | text h =>
    cases h
    exact ⟨_, _, rfl, by decide⟩

/-- `scalarAt` reads a value without parts, if it is no number that is too large. -/
theorem scalarAt_eq (h : SpellsScalar bs v) {levels : Nat} (hheld : Held levels v) (hs : Stops s) :
    scalarAt (bs ++ s) = .ok (v, s) := by
  cases h with
  | null | yes | no => rfl
  | number n =>
    have hread := n.number_read (n.isTooLarge_of_held hheld) hs
    obtain ⟨b, w, hw, hb⟩ := n.octets_eq_cons
    rw [hw] at hread ⊢
    -- The octet in front decides that a number is read.
    obtain rfl | ⟨d, hd, rfl⟩ := hb
    · exact hread
    · exact (scalarAt_digit hd _).trans hread
  | text h =>
    obtain ⟨inside, rfl, hread, -⟩ := h.read s
    show (JsonScan.text (inside ++ s)).map _ = _
    rw [hread]
    rfl

/-- `scalar` reads a value without parts, and makes of it what it accepts. -/
theorem reads_scalar {α : Type} (h : SpellsScalar bs v) {levels : Nat} (hheld : Held levels v)
    {f : JsonValue → Option α} {a : α} (hf : f v = some a) : (scalar f).Reads bs a := by
  intro before s hbefore hs
  obtain ⟨b, w, hw, hb, -⟩ := h.eq_cons
  -- A scalar starts with no blank, so skipping stops in front of it.
  have hskip : skipBlanks (before ++ (bs ++ s)) = bs ++ s := by
    rw [skipBlanks_append hbefore, hw]
    exact skipBlanks_cons hb _
  simp only [scalar, hskip, h.scalarAt_eq hheld hs, hf]

/-- `value` reads a value without parts at any level, for neither its bracket nor its brace
is there. -/
theorem reads_value (h : SpellsScalar bs v) {levels : Nat} (hheld : Held levels v) :
    (value levels).Reads bs v := by
  intro before s hbefore hs
  obtain ⟨b, w, hw, hb, hl, -, ho⟩ := h.eq_cons
  have hv := h.scalarAt_eq hheld hs
  -- Whether there may be parts does not matter: the octet in front is that of a scalar.
  have hread (part : Option (JsonReader JsonValue)) :
      readValue part (before ++ (bs ++ s)) = .ok (v, s) := by
    rw [hw, List.cons_append] at hv ⊢
    rw [readValue, skipBlanks_append hbefore, skipBlanks_cons hb]
    simp only [if_neg hl, if_neg ho]
    exact hv
  cases levels with
  | zero => exact hread none
  | succ levels => exact hread (some (value levels))

end SpellsScalar

/-- What `Spells` a value starts with no blank and no closing bracket. -/
theorem Spells.eq_cons (h : Spells bs v) :
    ∃ b w, bs = b :: w ∧ isBlank b = false ∧ b ≠ octet ']' := by
  cases h with
  | scalar h =>
    obtain ⟨b, w, hw, hb, -, hne, -⟩ := h.eq_cons
    exact ⟨b, w, hw, hb, hne⟩
  | emptyList | list | emptyObject | object => exact ⟨_, _, rfl, by decide⟩

/-- `SpellsScalar` is of no list and no object. -/
theorem SpellsScalar.ne_parts (h : SpellsScalar bs v) :
    (∀ vs, v ≠ .list vs) ∧ ∀ ms, v ≠ .object ms := by
  cases h with
  | number n => unfold Number.value; split <;> exact ⟨nofun, nofun⟩
  | null | yes | no | text => exact ⟨nofun, nofun⟩

/-- `Spells` of neither a list nor an object is `SpellsScalar`. -/
theorem Spells.scalar_of_ne (h : Spells bs v) (hlist : ∀ vs, v ≠ .list vs)
    (hobject : ∀ ms, v ≠ .object ms) : SpellsScalar bs v := by
  cases h with
  | scalar h => exact h
  | emptyList | list => exact absurd rfl (hlist _)
  | emptyObject | object => exact absurd rfl (hobject _)

/-- How an object is spelled, by `Spells`. -/
theorem Spells.object_cases {got : List (String × JsonValue)} (h : Spells bs (.object got)) :
    (got = [] ∧ ∃ blanks, Blank blanks ∧ bs = octet '\x7b' :: (blanks ++ [octet '\x7d'])) ∨
      ∃ (m : Member) (ms : List Member), got = (m :: ms).map Member.what ∧
        (∀ y ∈ m :: ms, Text y.name.octets y.name.what) ∧
        (∀ y ∈ m :: ms, Spells y.value.octets y.value.what) ∧
        bs = octet '\x7b' :: (m.spelled ++ (more (ms.map Member.spelled) ++ [octet '\x7d'])) := by
  generalize hv : JsonValue.object got = v at h
  cases h with
  -- A scalar is no object.
  | scalar h => exact absurd hv.symm (h.ne_parts.2 got)
  | emptyList | list => cases hv
  | emptyObject h =>
    cases hv
    exact .inl ⟨rfl, _, h, rfl⟩
  | object hname h =>
    cases hv
    exact .inr ⟨_, _, rfl, hname, h, rfl⟩

/-! ## Lists -/

variable {α : Type}

/-- `next` goes on behind a comma. -/
theorem next_comma (closing : UInt8) (h : Blank bs) (s : Bytes) :
    next closing (bs ++ octet ',' :: s) = .ok (.another s) := by
  have hskip : skipBlanks (octet ',' :: s) = octet ',' :: s := rfl
  simp only [next, skipBlanks_append h, hskip, if_true]

/-- `next` ends a list behind its bracket. -/
theorem next_bracket (h : Blank bs) (s : Bytes) :
    next (octet ']') (bs ++ octet ']' :: s) = .ok (.done s) := by
  rw [next, skipBlanks_append h]
  rfl

/-- `next` ends an object behind its brace. -/
theorem next_brace (h : Blank bs) (s : Bytes) :
    next (octet '\x7d') (bs ++ octet '\x7d' :: s) = .ok (.done s) := by
  rw [next, skipBlanks_append h]
  rfl

/-- `elementsFrom` reads the elements of a list one by one. -/
theorem elementsFrom_read {item : JsonReader α} {x : Spaced α} {xs : List (Spaced α)}
    (h : ∀ y ∈ x :: xs, item.Reads y.octets y.what) (done : List α) {before : Bytes}
    (hbefore : Blank before) (s : Bytes) :
    elementsFrom item done (before ++
        (x.octets ++ (x.after ++ (more (xs.map Spaced.spelled) ++ octet ']' :: s)))) =
      .ok (done.reverse ++ (x :: xs).map Spaced.what, s) := by
  induction xs generalizing x done before with
  | nil =>
    -- Behind the last element stands the bracket.
    have hv := h x List.mem_cons_self before (x.after ++ octet ']' :: s) hbefore
      (x.blank.2.stops (stops_bracket s))
    show elementsFrom item done (before ++ (x.octets ++ (x.after ++ octet ']' :: s))) = _
    rw [elementsFrom_last hv (next_bracket x.blank.2 s)]
    simp
  | cons y ys ih =>
    -- Behind this one stands a comma, and then the next with the blanks in front of it.
    have hv := h x List.mem_cons_self before _ hbefore
      (stops_more x.blank.2 ((y :: ys).map Spaced.spelled) (stops_bracket s))
    have hw : more ((y :: ys).map Spaced.spelled) ++ octet ']' :: s = octet ',' :: (y.before ++
        (y.octets ++ (y.after ++ (more (ys.map Spaced.spelled) ++ octet ']' :: s)))) := by
      simp [more, Spaced.spelled]
    have hnext := next_comma (octet ']') x.blank.2 (y.before ++
      (y.octets ++ (y.after ++ (more (ys.map Spaced.spelled) ++ octet ']' :: s))))
    rw [hw] at hv ⊢
    rw [elementsFrom_another hv hnext,
      ih (fun z hz => h z (List.mem_cons_of_mem x hz)) _ y.blank.1]
    simp

/-- `elements` reads a list behind its bracket. -/
theorem elements_read {item : JsonReader α} {x : Spaced α} {xs : List (Spaced α)}
    (h : ∀ y ∈ x :: xs, item.Reads y.octets y.what)
    (hstart : ∃ b w, x.octets = b :: w ∧ isBlank b = false ∧ b ≠ octet ']') (s : Bytes) :
    (elements item).read (x.spelled ++ (more (xs.map Spaced.spelled) ++ octet ']' :: s)) =
      .ok ((x :: xs).map Spaced.what, s) := by
  obtain ⟨b, w, hw, hb, hne⟩ := hstart
  -- The first octet is no bracket, so there are elements.
  have hfrom := elementsFrom_read h [] blank_nil s
  rw [List.nil_append, hw] at hfrom
  show readElements item _ = _
  rw [readElements, Spaced.skipBlanks_spelled hw hb]
  simp only [if_neg hne]
  exact hfrom

/-! ## Objects -/

/-- `name` reads the text that a member is called, quotes and escapes included. -/
theorem Text.name_read {bs : Bytes} {t : String} (h : Text bs t) {before : Bytes}
    (hbefore : Blank before) (s : Bytes) : name.read (before ++ (bs ++ s)) = .ok (t, s) := by
  obtain ⟨inside, rfl, hread, -⟩ := h.read s
  show readBehind (octet '\"') _ _ = _
  -- The quote is no blank, so it is found behind the blanks.
  rw [readBehind, skipBlanks_append hbefore]
  exact hread

/-- `memberValue` reads the value of a member behind its colon. -/
theorem memberValue_read {x : JsonReader α} {octets : Bytes} {a : α} (h : x.Reads octets a)
    {before after : Bytes} (hafter : Blank after) (hbefore : Blank before) (hs : Stops s) :
    (memberValue x).read (after ++ octet ':' :: (before ++ (octets ++ s))) = .ok (a, s) := by
  have hread := h before s hbefore hs
  show readBehind (octet ':') x _ = _
  rw [readBehind, skipBlanks_append hafter]
  exact hread

/-- What members in order make of what there was, each read by the reader that its name calls
for. -/
inductive Collects (member : α → String → JsonReader α) : α → List Member → α → Prop
  | nil (a : α) : Collects member a [] a
  | cons {a b c : α} {m : Member} {ms : List Member} (hname : Text m.name.octets m.name.what)
    (h : ∀ s, Stops s → (member a m.name.what).read
      (m.name.after ++ octet ':' :: (m.value.before ++ (m.value.octets ++ s))) = .ok (b, s))
    (hs : Collects member b ms c) : Collects member a (m :: ms) c

namespace Collects

variable {member : α → String → JsonReader α} {a c : α} {m : Member} {ms : List Member}

/-- `membersFrom` reads the members of an object one by one. -/
theorem membersFrom_read (h : Collects member a (m :: ms) c) {before : Bytes}
    (hbefore : Blank before) (s : Bytes) :
    membersFrom member a (before ++ (m.name.octets ++ (m.name.after ++ octet ':' ::
        (m.value.before ++ (m.value.octets ++ (m.value.after ++
          (more (ms.map Member.spelled) ++ octet '\x7d' :: s))))))) = .ok (c, s) := by
  induction ms generalizing a m before with
  | nil =>
    cases h with
    | cons hname h hs =>
      cases hs
      have hstops := m.value.blank.2.stops (stops_brace s)
      -- Behind the last member stands the brace.
      exact membersFrom_last (hname.name_read hbefore _) (h _ hstops)
        (next_brace m.value.blank.2 s)
  | cons n ns ih =>
    cases h with
    | cons hname h hs =>
      have hstops := stops_more m.value.blank.2 ((n :: ns).map Member.spelled) (stops_brace s)
      -- Behind this one stands a comma, and then the next member with its blanks.
      have hw : more ((n :: ns).map Member.spelled) ++ octet '\x7d' :: s = octet ',' ::
          (n.name.before ++ (n.name.octets ++ (n.name.after ++ octet ':' :: (n.value.before ++
            (n.value.octets ++ (n.value.after ++
              (more (ns.map Member.spelled) ++ octet '\x7d' :: s))))))) := by
        simp [more, Member.spelled, Spaced.spelled]
      rw [hw] at hstops ⊢
      exact (membersFrom_another (hname.name_read hbefore _) (h _ hstops)
        (next_comma _ m.value.blank.2 _)).trans (ih hs n.name.blank.1)

/-- `members` reads an object behind its brace, member by member. -/
theorem members_read (h : Collects member a (m :: ms) c) (s : Bytes) :
    (members member a).read (m.spelled ++ (more (ms.map Member.spelled) ++ octet '\x7d' :: s)) =
      .ok (c, s) := by
  have hfrom := h.membersFrom_read blank_nil s
  have hname : Text m.name.octets m.name.what := by
    cases h with
    | cons hname h hs => exact hname
  obtain ⟨inside, hinside, -, -⟩ := hname.read []
  have hne : octet '\"' ≠ octet '\x7d' := by decide
  show readMembers member a _ = _
  rw [readMembers]
  simp only [Member.spelled, Spaced.spelled, List.append_assoc, List.cons_append]
  rw [skipBlanks_append m.name.blank.1]
  -- The quote of the first name is no brace, so there are members.
  rw [List.nil_append, hinside] at hfrom
  rw [hinside, List.cons_append, skipBlanks_cons rfl]
  simp only [if_neg hne]
  exact hfrom

end Collects

/-- `Collects` for members that `entry` reads all alike. -/
theorem collects_entry {x : JsonReader α} {ms : List Member} {got : List (String × α)}
    (hname : ∀ m ∈ ms, Text m.name.octets m.name.what)
    (h : List.Forall₂ (fun m a => m.name.what = a.1 ∧ x.Reads m.value.octets a.2) ms got)
    (done : List (String × α)) : Collects (entry x) done ms (got.reverse ++ done) := by
  induction h generalizing done with
  | nil => exact .nil done
  | @cons m a ms got hm hms ih =>
    obtain ⟨hkey, hvalue⟩ := hm
    have hread (s : Bytes) (hs : Stops s) := memberValue_read
      (hvalue.map fun v => (m.name.what, v) :: done) m.name.blank.2 m.value.blank.1 hs
    have hmore := ih (fun m' hm' => hname m' (List.mem_cons_of_mem m hm')) (a :: done)
    -- The member read last comes first until the object ends.
    rw [List.reverse_cons, List.append_assoc]
    refine .cons (hname m List.mem_cons_self) hread ?_
    rw [hkey]
    exact hmore

/-- `entries` reads an object whose members are all read alike, in order. -/
theorem entries_read {x : JsonReader α} {m : Member} {ms : List Member} {got : List (String × α)}
    (hname : ∀ y ∈ m :: ms, Text y.name.octets y.name.what)
    (h : List.Forall₂ (fun m a => m.name.what = a.1 ∧ x.Reads m.value.octets a.2) (m :: ms) got)
    (s : Bytes) :
    (entries x).read (m.spelled ++ (more (ms.map Member.spelled) ++ octet '\x7d' :: s)) =
      .ok (got, s) := by
  have hread := map_read ((collects_entry hname h []).members_read s) List.reverse
  rw [List.append_nil, List.reverse_reverse] at hread
  exact hread

/-- `container` reads an object behind its brace, where a list may stand as well. -/
theorem container_read_object (list object : JsonReader α) (h : Blank bs) (r : Bytes) :
    (container list object).read (bs ++ octet '\x7b' :: r) = object.read r := by
  show readContainer list object _ = _
  rw [readContainer, skipBlanks_append h]
  rfl

/-! ## Values -/

/-- Behind a bracket, `value` reads elements with one level less. -/
theorem value_read_list (levels : Nat) (h : Blank bs) (r : Bytes) :
    (value (levels + 1)).read (bs ++ octet '[' :: r) =
      ((elements (value levels)).map .list).read r := by
  show readValue (some (value levels)) _ = _
  rw [readValue, skipBlanks_append h]
  rfl

/-- Behind a brace, `value` reads members with one level less. -/
theorem value_read_object (levels : Nat) (h : Blank bs) (r : Bytes) :
    (value (levels + 1)).read (bs ++ octet '\x7b' :: r) =
      ((entries (value levels)).map .object).read r := by
  show readValue (some (value levels)) _ = _
  rw [readValue, skipBlanks_append h]
  rfl

/-- `elements` reads a list with nothing in it. -/
theorem elements_read_empty (item : JsonReader α) (h : Blank bs) (s : Bytes) :
    (elements item).read (bs ++ octet ']' :: s) = .ok ([], s) := by
  show readElements item _ = _
  rw [readElements, skipBlanks_append h]
  rfl

/-- `members` reads an object with nothing in it. -/
theorem members_read_empty (member : α → String → JsonReader α) (a : α) (h : Blank bs) (s : Bytes) :
    (members member a).read (bs ++ octet '\x7d' :: s) = .ok (a, s) := by
  show readMembers member a _ = _
  rw [readMembers, skipBlanks_append h]
  rfl

/-- `value` reads what `Spells` a value, if that can be `Held`. -/
theorem Spells.reads (h : Spells bs v) {levels : Nat} (hheld : Held levels v) :
    (value levels).Reads bs v := by
  -- By induction over the spelling: parts are read by a reader of one level less.
  induction h generalizing levels with
  | scalar h => exact h.reads_value hheld
  | emptyList hblank =>
    cases hheld with
    | @list levels _ _ =>
      intro before s hbefore _
      -- Nothing but blanks stands between the brackets.
      have hread := elements_read_empty (value levels) hblank s
      rw [List.cons_append, value_read_list levels hbefore, List.append_assoc]
      exact map_read hread JsonValue.list
  | @list x xs h ih =>
    cases hheld with
    | @list levels _ hheld =>
      intro before s hbefore _
      -- A list that is held has elements that are held, one level further in.
      have hparts (y : Spaced JsonValue) (hy : y ∈ x :: xs) :
          (value levels).Reads y.octets y.what :=
        ih y hy (hheld _ (List.mem_map_of_mem hy))
      have hread := elements_read hparts (h x List.mem_cons_self).eq_cons s
      rw [List.cons_append, value_read_list levels hbefore, List.append_assoc, List.append_assoc]
      exact map_read hread JsonValue.list
  | emptyObject hblank =>
    cases hheld with
    | @object levels _ _ =>
      intro before s hbefore _
      -- Nothing but blanks stands between the braces.
      have hread := members_read_empty (entry (value levels)) [] hblank s
      rw [List.cons_append, value_read_object levels hbefore, List.append_assoc]
      exact map_read (map_read hread List.reverse) JsonValue.object
  | @object m ms hname h ih =>
    cases hheld with
    | @object levels _ hheld =>
      intro before s hbefore _
      have hparts (y : Member) (hy : y ∈ m :: ms) :
          (value levels).Reads y.value.octets y.value.what :=
        ih y hy (hheld _ (List.mem_map_of_mem hy))
      -- All members are read by the reader of one level less, and called what they are called.
      have hall : List.Forall₂
          (fun m a => m.name.what = a.1 ∧ (value levels).Reads m.value.octets a.2)
          (m :: ms) ((m :: ms).map Member.what) := by
        refine List.forall₂_map_right_iff.2 (List.forall₂_same.2 ?_)
        exact fun y hy => ⟨rfl, hparts y hy⟩
      have hread := entries_read hname hall s
      rw [List.cons_append, value_read_object levels hbefore, List.append_assoc, List.append_assoc]
      exact map_read hread JsonValue.object

end JsonGrammar

end Storefront
