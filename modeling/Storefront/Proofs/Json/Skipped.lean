import Storefront.Json.Skip
import Storefront.Proofs.Json.Spelled

/-! # Documents passed over

A value that nobody asks for is passed over however it is spelled.  It is held to nothing: no nesting
is too deep for it and no number too large, since what is around a value is kept in a list and of a
number only the form is looked at.

* `skip_parts`       the parts of a list or object are passed over one by one
* `Spells.skipped`   a value is passed over
-/

namespace Storefront

open JsonScan JsonGrammar

/-! ## Steps -/

namespace JsonSkip

variable {around outer : List Around} {a : Around} {b c : UInt8} {s r rest w : Bytes}

/-- `value` passes over a value without parts at once. -/
theorem value_scalar (hs : skipBlanks s = b :: rest) (hl : b ≠ octet '[') (ho : b ≠ octet '\x7b')
    (hv : scalar (b :: rest) = .ok r) : value around s = after around r := by
  rw [value]
  grind

/-- An empty list is left for `after` to close. -/
theorem value_emptyList (hs : skipBlanks s = octet '[' :: rest)
    (hc : skipBlanks rest = octet ']' :: w) : value around s = after (.list :: around) rest := by
  rw [value]
  grind

/-- `value` of a list goes on with its first element. -/
theorem value_list (hs : skipBlanks s = octet '[' :: rest) (hc : skipBlanks rest = c :: w)
    (hne : c ≠ octet ']') : value around s = value (.list :: around) rest := by
  rw [value]
  grind

/-- An empty object is left for `after` to close. -/
theorem value_emptyObject (hs : skipBlanks s = octet '\x7b' :: rest)
    (hc : skipBlanks rest = octet '\x7d' :: w) :
    value around s = after (.object :: around) rest := by
  rw [value]
  grind

/-- `value` of an object goes on with the value behind its first name. -/
theorem value_object (hs : skipBlanks s = octet '\x7b' :: rest) (hc : skipBlanks rest = c :: w)
    (hne : c ≠ octet '\x7d') (hn : name rest = .ok r) :
    value around s = value (.object :: around) r := by
  rw [value]
  grind

/-- `after` an element and a comma comes another `value`. -/
theorem after_element (hs : skipBlanks s = octet ',' :: rest) :
    after (.list :: outer) s = value (.list :: outer) rest := by
  rw [after]
  grind

/-- `after` a member and a comma comes a name, and then its `value`. -/
theorem after_member (hs : skipBlanks s = octet ',' :: rest) (hn : name rest = .ok r) :
    after (.object :: outer) s = value (.object :: outer) r := by
  rw [after]
  grind

/-- `after` the closing bracket or brace the list or object has ended. -/
theorem after_closing (hs : skipBlanks s = a.closing :: rest) :
    after (a :: outer) s = after outer rest := by
  have hne : a.closing ≠ octet ',' := by cases a <;> decide
  rw [after]
  grind

end JsonSkip

namespace JsonGrammar

open JsonSkip (Around)

variable {bs s : Bytes} {v : JsonValue}

/-- `name` passes over the name of a member with its colon. -/
theorem Spaced.skip_name {x : Spaced String} (h : Text x.octets x.what) (s : Bytes) :
    JsonSkip.name (x.spelled ++ octet ':' :: s) = .ok s := by
  obtain ⟨inside, hx, -, os, hread⟩ := h.read (x.after ++ octet ':' :: s)
  have hcolon : skipBlanks (octet ':' :: s) = octet ':' :: s := skipBlanks_cons rfl s
  -- The quote in front is no blank.
  rw [JsonSkip.name, Spaced.skipBlanks_spelled hx rfl]
  simp only [if_true, JsonSkip.text, hread, Except.map, skipBlanks_append x.blank.2, hcolon]

/-- `scalar` passes over a value without parts, however large a number it is. -/
theorem SpellsScalar.skip_scalar (h : SpellsScalar bs v) (hs : Stops s) :
    JsonSkip.scalar (bs ++ s) = .ok s := by
  cases h with
  | null | yes | no => rfl
  | number n =>
    -- Only the form of a number is looked at, so none is too large.
    have hread := n.numeral_read hs
    obtain ⟨b, w, hw, hb⟩ := n.octets_eq_cons
    rw [hw] at hread ⊢
    rw [List.cons_append] at hread ⊢
    obtain rfl | ⟨d, hd, rfl⟩ := hb
    · simp only [JsonSkip.scalar, hread]
      rfl
    · interval_cases d <;> simp only [JsonSkip.scalar, hread] <;> rfl
  | text h =>
    obtain ⟨inside, rfl, -, os, hread⟩ := h.read s
    show (octets false (inside ++ s)).map _ = _
    rw [hread]
    rfl

/-- `value` passes over the parts of a list or object one by one.  What leads to the next is a
comma, and in an object a name and a colon. -/
theorem skip_parts (a : Around) (around : List Around) (x : Spaced JsonValue)
    (xs : List (Bytes × Spaced JsonValue))
    (hvalue : ∀ y ∈ x :: xs.map Prod.snd, ∀ {before s : Bytes}, Blank before → Stops s →
      JsonSkip.value (a :: around) (before ++ (y.octets ++ s)) = JsonSkip.after (a :: around) s)
    (hlead : ∀ y ∈ xs, ∀ {bs : Bytes} (r : Bytes), Blank bs →
      JsonSkip.after (a :: around) (bs ++ octet ',' :: (y.1 ++ r)) =
        JsonSkip.value (a :: around) r) (s : Bytes) :
    JsonSkip.value (a :: around)
        (x.spelled ++ (more (xs.map fun y => y.1 ++ y.2.spelled) ++ a.closing :: s)) =
      JsonSkip.after around s := by
  induction xs generalizing x with
  | nil =>
    -- Behind the last value stands the bracket or brace.
    have hclosing : Stops (a.closing :: s) := by
      cases a
      · exact stops_bracket s
      · exact stops_brace s
    have hblank : isBlank a.closing = false := by cases a <;> rfl
    have hv := hvalue x List.mem_cons_self x.blank.1 (x.blank.2.stops hclosing)
    show JsonSkip.value _ ((x.before ++ (x.octets ++ x.after)) ++ a.closing :: s) = _
    rw [List.append_assoc, List.append_assoc, hv]
    exact JsonSkip.after_closing (skipBlanks_append_cons x.blank.2 hblank s)
  | cons y ys ih =>
    have hv := hvalue x List.mem_cons_self (s := x.after ++ octet ',' :: (y.1 ++ (y.2.spelled ++
      (more (ys.map fun y => y.1 ++ y.2.spelled) ++ a.closing :: s)))) x.blank.1
      (x.blank.2.stops (stops_comma _))
    -- Behind this value stands a comma, and what leads to the next one.
    have hw : x.spelled ++
        (more ((y :: ys).map fun y => y.1 ++ y.2.spelled) ++ a.closing :: s) =
        x.before ++ (x.octets ++ (x.after ++ octet ',' :: (y.1 ++ (y.2.spelled ++
          (more (ys.map fun y => y.1 ++ y.2.spelled) ++ a.closing :: s))))) := by
      simp [more, Spaced.spelled]
    rw [hw, hv, hlead y List.mem_cons_self _ x.blank.2]
    exact ih _ (fun z hz => hvalue z (List.mem_cons_of_mem x hz))
      fun z hz => hlead z (List.mem_cons_of_mem y hz)

/-- `value` passes over a value however it is spelled. -/
theorem Spells.skipped (h : Spells bs v) (around : List Around) {before : Bytes}
    (hbefore : Blank before) (hs : Stops s) :
    JsonSkip.value around (before ++ (bs ++ s)) = JsonSkip.after around s := by
  -- By induction over the spelling; what is around a value is general, since parts are one level
  -- further in.
  induction h generalizing around before s with
  | scalar h =>
    obtain ⟨b, w, hw, hb, hl, -, ho⟩ := h.eq_cons
    have hskip := h.skip_scalar hs
    rw [hw] at hskip ⊢
    exact JsonSkip.value_scalar (skipBlanks_append_cons hbefore hb _) hl ho hskip
  | @emptyList bs hblank =>
    have hend (s : Bytes) := skipBlanks_append_cons hblank (b := octet ']') rfl s
    rw [List.cons_append, List.append_assoc, List.singleton_append,
      JsonSkip.value_emptyList (skipBlanks_append_cons hbefore rfl _) (hend s)]
    exact JsonSkip.after_closing (hend s)
  | @list x xs h ih =>
    obtain ⟨b, w, hw, hb, hne⟩ := (h x List.mem_cons_self).eq_cons
    have hparts := skip_parts .list around x (xs.map fun y => ([], y))
      (fun y hy => ih y (by simpa [Function.comp_def] using hy) (.list :: around))
      (fun y hy bs r hbs => by
        -- Nothing but the comma leads to an element.
        obtain ⟨z, -, rfl⟩ := List.mem_map.1 hy
        exact JsonSkip.after_element (skipBlanks_append_cons hbs rfl r)) s
    rw [List.map_map] at hparts
    rw [List.cons_append, List.append_assoc, List.append_assoc, List.singleton_append,
      JsonSkip.value_list (skipBlanks_append_cons hbefore rfl _)
        (Spaced.skipBlanks_spelled hw hb _) hne]
    exact hparts
  | @emptyObject bs hblank =>
    have hend (s : Bytes) := skipBlanks_append_cons hblank (b := octet '\x7d') rfl s
    rw [List.cons_append, List.append_assoc, List.singleton_append,
      JsonSkip.value_emptyObject (skipBlanks_append_cons hbefore rfl _) (hend s)]
    exact JsonSkip.after_closing (hend s)
  | @object m ms hname h ih =>
    have hm := hname m List.mem_cons_self
    have hparts := skip_parts .object around m.value
      (ms.map fun n => (n.name.spelled ++ [octet ':'], n.value))
      (fun y hy => by
        obtain ⟨n, hn, rfl⟩ : ∃ n ∈ m :: ms, n.value = y := by
          simpa [Function.comp_def, eq_comm] using hy
        exact ih n hn (.object :: around))
      (fun y hy bs r hbs => by
        obtain ⟨n, hn, rfl⟩ := List.mem_map.1 hy
        -- A name and its colon lead to the value of a member.
        have hskip := Spaced.skip_name (hname n (List.mem_cons_of_mem m hn)) r
        refine JsonSkip.after_member (skipBlanks_append_cons hbs rfl _) ?_
        rwa [List.append_assoc]) s
    have hspelled : ((fun y : Bytes × Spaced JsonValue => y.1 ++ y.2.spelled) ∘
        fun n : Member => (n.name.spelled ++ [octet ':'], n.value)) = Member.spelled := by
      funext n
      simp [Member.spelled]
    rw [List.map_map, hspelled] at hparts
    -- The quote of the first name is no brace, so there are members.
    obtain ⟨inside, hinside, -⟩ := hm.read []
    rw [List.cons_append, List.append_assoc, List.append_assoc, List.singleton_append,
      Member.spelled, List.append_assoc, List.cons_append,
      JsonSkip.value_object (skipBlanks_append_cons hbefore rfl _)
        (Spaced.skipBlanks_spelled hinside rfl _) (by decide) (Spaced.skip_name hm _)]
    exact hparts

/-- `skipped` reads nothing of a value, and stops behind it. -/
theorem Spells.reads_skipped (h : Spells bs v) : JsonReader.skipped.Reads bs () := by
  intro before s hbefore hs
  have hskip := h.skipped [] hbefore hs
  have hafter : JsonSkip.after [] s = .ok s := by rw [JsonSkip.after]
  show (JsonSkip.value [] (before ++ (bs ++ s))).map _ = _
  rw [hskip, hafter]
  rfl

end JsonGrammar

end Storefront
