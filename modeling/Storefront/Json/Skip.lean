import Storefront.Json.Reader

/-! # Skipping JSON

A member that nobody asks for is skipped.  It has to be JSON, but it may be nested to any depth, its
numbers may be of any size and its texts need not be UTF-8.
-/

namespace Storefront

open JsonScan

namespace JsonSkip

/-- What is open around the place that a skip has come to. -/
inductive Around where
  | list
  | object
  deriving DecidableEq, Repr

/-- The octet that ends a list or an object. -/
def Around.closing : Around → UInt8
  | list => octet ']'
  | object => octet '\x7d'

/-- Skips the octets of a text, behind its opening quote. -/
def text (s : Bytes) : Except JsonFault Bytes := (octets false s).map (·.2)

/-- Skips the name of a member and its colon. -/
def name (s : Bytes) : Except JsonFault Bytes :=
  match skipBlanks s with
  | [] => .error .incomplete
  | b :: rest =>
    if b = octet '\"' then
      match text rest with
      | .error e => .error e
      | .ok r =>
        match skipBlanks r with
        | [] => .error .incomplete
        | c :: rest => if c = octet ':' then .ok rest else .error .malformed
    else .error .malformed

/-- Skips a value that is no list and no object.  A number that ends too early counts as malformed,
since it is over when the octets are. -/
def scalar : Bytes → Except JsonFault Bytes
  | [] => .error .incomplete
  | b :: rest =>
    match Char.ofNat b.toNat with
    | 'n' => word (JsonValue.ascii ['u', 'l', 'l']) rest
    | 't' => word (JsonValue.ascii ['r', 'u', 'e']) rest
    | 'f' => word (JsonValue.ascii ['a', 'l', 's', 'e']) rest
    | '\"' => text rest
    | _ =>
      match numeral (b :: rest) with
      | .ok (_, r) => .ok r
      | .error _ => .error .malformed

theorem text_shorter {s r : Bytes} (h : text s = .ok r) : r.length < s.length := by
  unfold text at h
  cases ho : octets false s with
  | error e => simp [ho, Except.map] at h
  | ok x =>
    simp only [ho, Except.map, Except.ok.injEq] at h
    exact h ▸ octets_shorter ho

theorem name_shorter {s r : Bytes} (h : name s = .ok r) : r.length < s.length := by
  unfold name at h
  split at h
  · simp at h
  · rename_i hb
    split at h
    · split at h
      · simp at h
      · rename_i ht
        split at h
        · simp at h
        · rename_i hc
          have := lt_of_skipBlanks_eq_cons hb
          have := text_shorter ht
          have := lt_of_skipBlanks_eq_cons hc
          split at h <;> simp at h
          subst h
          omega
    · simp at h

theorem scalar_shorter {s r : Bytes} (h : scalar s = .ok r) : r.length < s.length := by
  cases s with
  | nil => simp [scalar] at h
  | cons b rest =>
    rw [scalar] at h
    split at h
    · have := word_shorter h; simp; omega
    · have := word_shorter h; simp; omega
    · have := word_shorter h; simp; omega
    · have := text_shorter h; simp; omega
    · split at h <;> simp at h
      rename_i hn
      exact h ▸ numeral_shorter hn

mutual

/-- Skips a value and all that is open around it, innermost first. -/
def value (around : List Around) (s : Bytes) : Except JsonFault Bytes :=
  match _hs : skipBlanks s with
  | [] => .error .incomplete
  | b :: rest =>
    if b = octet '[' then
      match skipBlanks rest with
      | [] => .error .incomplete
      -- An empty list has no first element; its bracket is left for what follows it.
      | c :: _ =>
        if c = octet ']' then after (.list :: around) rest else value (.list :: around) rest
    else if b = octet '\x7b' then
      match skipBlanks rest with
      | [] => .error .incomplete
      | c :: _ =>
        if c = octet '\x7d' then after (.object :: around) rest
        else
          match _hn : name rest with
          | .error e => .error e
          | .ok r => value (.object :: around) r
    else
      match _hv : scalar (b :: rest) with
      | .error e => .error e
      | .ok r => after around r
termination_by s.length
decreasing_by
  all_goals have hs := lt_of_skipBlanks_eq_cons _hs
  · exact hs
  · exact hs
  · exact hs
  · exact Nat.lt_trans (name_shorter _hn) hs
  · exact Nat.lt_of_lt_of_le (scalar_shorter _hv) hs

/-- Skips what follows a value: the rest of what is open around it. -/
def after (around : List Around) (s : Bytes) : Except JsonFault Bytes :=
  match around with
  | [] => .ok s
  | a :: outer =>
    match _hs : skipBlanks s with
    | [] => .error .incomplete
    | b :: rest =>
      if b = octet ',' then
        match a with
        | .list => value (.list :: outer) rest
        | .object =>
          match _hn : name rest with
          | .error e => .error e
          | .ok r => value (.object :: outer) r
      else if b = a.closing then after outer rest
      else .error .malformed
termination_by s.length
decreasing_by
  all_goals have hs := lt_of_skipBlanks_eq_cons _hs
  · exact hs
  · exact Nat.lt_trans (name_shorter _hn) hs
  · exact hs

end

mutual

theorem value_shorter {around : List Around} {s r : Bytes} (h : value around s = .ok r) :
    r.length < s.length := by
  rw [value] at h
  split at h
  · simp at h
  · rename_i hb
    have hs := lt_of_skipBlanks_eq_cons hb
    split at h
    · split at h
      · simp at h
      · split at h
        · exact Nat.lt_of_le_of_lt (after_shorter h) hs
        · exact Nat.lt_trans (value_shorter h) hs
    · split at h
      · split at h
        · simp at h
        · split at h
          · exact Nat.lt_of_le_of_lt (after_shorter h) hs
          · split at h
            · simp at h
            · rename_i hn
              have hn := name_shorter hn
              exact Nat.lt_trans (value_shorter h) (Nat.lt_trans hn hs)
      · split at h
        · simp at h
        · rename_i hv
          have hv := Nat.lt_of_lt_of_le (scalar_shorter hv) hs
          exact Nat.lt_of_le_of_lt (after_shorter h) hv
termination_by s.length

theorem after_shorter {around : List Around} {s r : Bytes} (h : after around s = .ok r) :
    r.length ≤ s.length := by
  rw [after.eq_def] at h
  split at h
  · cases h
    exact Nat.le_refl _
  · split at h
    · simp at h
    · rename_i hb
      have hs := lt_of_skipBlanks_eq_cons hb
      split at h
      · split at h
        · exact Nat.le_of_lt (Nat.lt_trans (value_shorter h) hs)
        · split at h
          · simp at h
          · rename_i hn
            have hn := Nat.lt_trans (name_shorter hn) hs
            exact Nat.le_of_lt (Nat.lt_trans (value_shorter h) hn)
      · split at h
        · exact Nat.le_of_lt (Nat.lt_of_le_of_lt (after_shorter h) hs)
        · simp at h
termination_by s.length

end

end JsonSkip

/-- Reads past a value. -/
def JsonReader.skipped : JsonReader Unit where
  read s := (JsonSkip.value [] s).map ((), ·)
  shorter {s a r} h := by
    cases hv : JsonSkip.value [] s with
    | error e => simp [hv, Except.map] at h
    | ok r' =>
      simp only [hv, Except.map, Except.ok.injEq, Prod.mk.injEq] at h
      exact h.2 ▸ JsonSkip.value_shorter hv

end Storefront
