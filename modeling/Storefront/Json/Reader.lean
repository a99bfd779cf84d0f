import Storefront.Json.Scan

/-! # Reading JSON

A reader takes something off the front of octets and leaves fewer of them, so that lists and objects
can be read by repeating readers.  Values may stand inside each other only so deep.
-/

namespace Storefront

open JsonScan

/-- Reads something off the front of octets. -/
structure JsonReader (α : Type) where
  read : Bytes → Except JsonFault (α × Bytes)
  /-- A read takes an octet at least. -/
  shorter : ∀ {s : Bytes} {a : α} {r : Bytes}, read s = .ok (a, r) → r.length < s.length

namespace JsonReader

variable {α β : Type}

/-- Refuses whatever stands there. -/
def fail (e : JsonFault) : JsonReader α := ⟨fun _ => .error e, by simp⟩

/-- Makes something of what is read. -/
def map (f : α → β) (x : JsonReader α) : JsonReader β where
  read s :=
    match x.read s with
    | .error e => .error e
    | .ok (a, r) => .ok (f a, r)
  shorter {s b r} h := by
    split at h
    · simp at h
    · rename_i hx
      simp only [Except.ok.injEq, Prod.mk.injEq] at h
      exact h.2 ▸ x.shorter hx

/-- Reads a value that is no list and no object.  A list or object is a mismatch. -/
def scalarAt : Bytes → Except JsonFault (JsonValue × Bytes)
  | [] => .error .incomplete
  | b :: rest =>
    match Char.ofNat b.toNat with
    | 'n' => (word (JsonValue.ascii ['u', 'l', 'l']) rest).map (.null, ·)
    | 't' => (word (JsonValue.ascii ['r', 'u', 'e']) rest).map (.flag true, ·)
    | 'f' => (word (JsonValue.ascii ['a', 'l', 's', 'e']) rest).map (.flag false, ·)
    | '\"' => (JsonScan.text rest).map fun (t, r) => (.text t, r)
    -- What is inside does not matter any more: a list or object is no scalar.
    | '[' | '\x7b' => .error .mismatched
    | '-' => number (b :: rest)
    | _ => if (digit? b).isSome then number (b :: rest) else .error .malformed

theorem scalarAt_shorter {s r : Bytes} {v : JsonValue} (h : scalarAt s = .ok (v, r)) :
    r.length < s.length := by
  have ofWord : ∀ {es : Bytes} {rest : Bytes} {w : JsonValue},
      (word es rest).map (w, ·) = .ok (v, r) → r.length < rest.length + 1 := by
    intro es rest w hw
    cases hr : word es rest with
    | error e => simp [hr, Except.map] at hw
    | ok r' =>
      have := word_shorter hr
      simp only [hr, Except.map, Except.ok.injEq, Prod.mk.injEq] at hw
      rw [← hw.2]
      omega
  cases s with
  | nil => simp [scalarAt] at h
  | cons b rest =>
    rw [scalarAt] at h
    split at h
    · exact ofWord h
    · exact ofWord h
    · exact ofWord h
    · cases ht : JsonScan.text rest with
      | error e => simp [ht, Except.map] at h
      | ok x =>
        have := text_shorter ht
        simp only [ht, Except.map, Except.ok.injEq, Prod.mk.injEq] at h
        rw [← h.2, List.length_cons]
        omega
    · simp at h
    · simp at h
    · exact number_shorter h
    · split at h
      · exact number_shorter h
      · simp at h

/-- Reads a scalar that `f` makes something of. -/
def scalar (f : JsonValue → Option α) : JsonReader α where
  read s :=
    match scalarAt (skipBlanks s) with
    | .error e => .error e
    | .ok (v, r) =>
      match f v with
      | some a => .ok (a, r)
      | none => .error .mismatched
  shorter {s a r} h := by
    split at h
    · simp at h
    · rename_i hv
      have := scalarAt_shorter hv
      have := length_skipBlanks_le s
      split at h <;> simp at h
      rw [← h.2]
      omega

/-- Reads a text. -/
def text : JsonReader String :=
  scalar fun
    | .text t => some t
    | _ => none

/-- Reads a natural number below a limit. -/
def natural (limit : Nat) : JsonReader Nat :=
  scalar fun
    | .natural n => if n < limit then some n else none
    | _ => none

/-- Reads what stands behind a given octet. -/
def readBehind (b : UInt8) (x : JsonReader α) (s : Bytes) : Except JsonFault (α × Bytes) :=
  match skipBlanks s with
  | [] => .error .incomplete
  | c :: rest => if c = b then x.read rest else .error .malformed

theorem readBehind_shorter {b : UInt8} {x : JsonReader α} {s r : Bytes} {a : α}
    (h : readBehind b x s = .ok (a, r)) : r.length < s.length := by
  unfold readBehind at h
  split at h
  · simp at h
  · rename_i hc
    split at h
    · exact Nat.lt_trans (x.shorter h) (lt_of_skipBlanks_eq_cons hc)
    · simp at h

/-- A reader of what stands behind a given octet. -/
def behind (b : UInt8) (x : JsonReader α) : JsonReader α := ⟨readBehind b x, readBehind_shorter⟩

/-- What stands behind an element or member. -/
inductive Next where
  | another (rest : Bytes)
  | done (rest : Bytes)

/-- Looks for a comma or the given end. -/
def next (closing : UInt8) (s : Bytes) : Except JsonFault Next :=
  match skipBlanks s with
  | [] => .error .incomplete
  | c :: rest =>
    if c = octet ',' then .ok (.another rest)
    else if c = closing then .ok (.done rest)
    else .error .malformed

theorem next_another {closing : UInt8} {s r : Bytes} (h : next closing s = .ok (.another r)) :
    r.length < s.length := by
  unfold next at h
  split at h
  · simp at h
  · rename_i hc
    (repeat' split at h) <;> simp at h
    exact h ▸ lt_of_skipBlanks_eq_cons hc

theorem next_done {closing : UInt8} {s r : Bytes} (h : next closing s = .ok (.done r)) :
    r.length < s.length := by
  unfold next at h
  split at h
  · simp at h
  · rename_i hc
    (repeat' split at h) <;> simp at h
    exact h ▸ lt_of_skipBlanks_eq_cons hc

/-! ## Lists -/

/-- The elements from the next one on; `done` are those before it, last one first. -/
def elementsFrom (item : JsonReader α) (done : List α) (s : Bytes) :
    Except JsonFault (List α × Bytes) :=
  match _hv : item.read s with
  | .error e => .error e
  | .ok (v, r) =>
    match _hn : next (octet ']') r with
    | .error e => .error e
    | .ok (.another r) => elementsFrom item (v :: done) r
    | .ok (.done r) => .ok ((v :: done).reverse, r)
termination_by s.length
decreasing_by
  have := item.shorter _hv
  have := next_another _hn
  omega

theorem elementsFrom_shorter {item : JsonReader α} {done vs : List α} {s r : Bytes}
    (h : elementsFrom item done s = .ok (vs, r)) : r.length < s.length := by
  fun_induction elementsFrom item done s with
  | case1 => simp at h
  | case2 => simp at h
  | case3 _ _ _ _ hv _ hn ih =>
    have := item.shorter hv
    have := next_another hn
    have := ih h
    omega
  | case4 _ _ _ _ hv _ hn =>
    have := item.shorter hv
    have := next_done hn
    simp at h
    rw [← h.2]
    omega

/-- Reads the elements of a list, behind its bracket. -/
def readElements (item : JsonReader α) (s : Bytes) : Except JsonFault (List α × Bytes) :=
  match skipBlanks s with
  | [] => .error .incomplete
  | b :: rest => if b = octet ']' then .ok ([], rest) else elementsFrom item [] (b :: rest)

theorem readElements_shorter {item : JsonReader α} {vs : List α} {s r : Bytes}
    (h : readElements item s = .ok (vs, r)) : r.length < s.length := by
  unfold readElements at h
  split at h
  · simp at h
  · rename_i hc
    have hs := lt_of_skipBlanks_eq_cons hc
    split at h
    · simp only [Except.ok.injEq, Prod.mk.injEq] at h
      exact h.2 ▸ hs
    · exact Nat.lt_of_lt_of_le (elementsFrom_shorter h) hs

/-- The elements of a list, behind its bracket. -/
def elements (item : JsonReader α) : JsonReader (List α) :=
  ⟨readElements item, readElements_shorter⟩

/-! ## Objects -/

/-- The name of a member. -/
def name : JsonReader String := behind (octet '\"') ⟨JsonScan.text, text_shorter⟩

/-- What stands behind the name of a member. -/
def memberValue (x : JsonReader α) : JsonReader α := behind (octet ':') x

/-- The members from the next one on, each of which `member` adds to what there is, given its
name. -/
def membersFrom (member : α → String → JsonReader α) (a : α) (s : Bytes) :
    Except JsonFault (α × Bytes) :=
  match _hk : name.read s with
  | .error e => .error e
  | .ok (key, r) =>
    match _hv : (member a key).read r with
    | .error e => .error e
    | .ok (a, r) =>
      match _hn : next (octet '\x7d') r with
      | .error e => .error e
      | .ok (.another r) => membersFrom member a r
      | .ok (.done r) => .ok (a, r)
termination_by s.length
decreasing_by
  have := name.shorter _hk
  have := (member _ _).shorter _hv
  have := next_another _hn
  omega

theorem membersFrom_shorter {member : α → String → JsonReader α} {a b : α} {s r : Bytes}
    (h : membersFrom member a s = .ok (b, r)) : r.length < s.length := by
  fun_induction membersFrom member a s with
  | case1 => simp at h
  | case2 => simp at h
  | case3 => simp at h
  | case4 _ _ _ _ hk _ _ hv _ hn ih =>
    have := name.shorter hk
    have := (member _ _).shorter hv
    have := next_another hn
    have := ih h
    omega
  | case5 _ _ _ _ hk _ _ hv _ hn =>
    have := name.shorter hk
    have := (member _ _).shorter hv
    have := next_done hn
    simp at h
    rw [← h.2]
    omega

/-- Reads the members of an object, behind its brace. -/
def readMembers (member : α → String → JsonReader α) (start : α) (s : Bytes) :
    Except JsonFault (α × Bytes) :=
  match skipBlanks s with
  | [] => .error .incomplete
  | b :: rest =>
    if b = octet '\x7d' then .ok (start, rest) else membersFrom member start (b :: rest)

theorem readMembers_shorter {member : α → String → JsonReader α} {start a : α} {s r : Bytes}
    (h : readMembers member start s = .ok (a, r)) : r.length < s.length := by
  unfold readMembers at h
  split at h
  · simp at h
  · rename_i hc
    have hs := lt_of_skipBlanks_eq_cons hc
    split at h
    · simp only [Except.ok.injEq, Prod.mk.injEq] at h
      exact h.2 ▸ hs
    · exact Nat.lt_of_lt_of_le (membersFrom_shorter h) hs

/-- The members of an object, behind its brace. -/
def members (member : α → String → JsonReader α) (start : α) : JsonReader α :=
  ⟨readMembers member start, readMembers_shorter⟩

/-- Reads a list by one reader, an object by another, and refuses scalars. -/
def readContainer (list object : JsonReader α) (s : Bytes) : Except JsonFault (α × Bytes) :=
  match skipBlanks s with
  | [] => .error .incomplete
  | b :: rest =>
    if b = octet '[' then list.read rest
    else if b = octet '\x7b' then object.read rest
    else
      -- A scalar is read to its end, as a fault in it counts for more than a mismatch.
      match scalarAt (b :: rest) with
      | .error e => .error e
      | .ok _ => .error .mismatched

theorem readContainer_shorter {list object : JsonReader α} {s r : Bytes} {a : α}
    (h : readContainer list object s = .ok (a, r)) : r.length < s.length := by
  unfold readContainer at h
  split at h
  · simp at h
  · rename_i hc
    have hs := lt_of_skipBlanks_eq_cons hc
    split at h
    · exact Nat.lt_trans (list.shorter h) hs
    · split at h
      · exact Nat.lt_trans (object.shorter h) hs
      · split at h <;> simp at h

/-- A list read by one reader or an object read by another. -/
def container (list object : JsonReader α) : JsonReader α :=
  ⟨readContainer list object, readContainer_shorter⟩

/-- Members of an object, all of them read alike.  The one read last comes first. -/
def entry (x : JsonReader α) (done : List (String × α)) (key : String) :
    JsonReader (List (String × α)) :=
  memberValue (x.map fun v => (key, v) :: done)

/-- An object whose members are all read alike, in order. -/
def entries (x : JsonReader α) : JsonReader (List (String × α)) :=
  (members (entry x) []).map List.reverse

/-! ## Values -/

/-- Reads a value whose parts, if it has any, are read by `part`.  Without that, a list or object is
nested too deep. -/
def readValue (part : Option (JsonReader JsonValue)) (s : Bytes) :
    Except JsonFault (JsonValue × Bytes) :=
  match skipBlanks s with
  | [] => .error .incomplete
  | b :: rest =>
    if b = octet '[' then
      match part with
      | none => .error .malformed
      | some part => ((elements part).map .list).read rest
    else if b = octet '\x7b' then
      match part with
      | none => .error .malformed
      | some part => ((entries part).map .object).read rest
    else scalarAt (b :: rest)

theorem readValue_shorter {part : Option (JsonReader JsonValue)} {s r : Bytes} {v : JsonValue}
    (h : readValue part s = .ok (v, r)) : r.length < s.length := by
  unfold readValue at h
  split at h
  · simp at h
  · rename_i hc
    have hs := lt_of_skipBlanks_eq_cons hc
    split at h
    · split at h
      · simp at h
      · exact Nat.lt_trans (JsonReader.shorter _ h) hs
    · split at h
      · split at h
        · simp at h
        · exact Nat.lt_trans (JsonReader.shorter _ h) hs
      · exact Nat.lt_of_lt_of_le (scalarAt_shorter h) hs

/-- A value whose parts, if it has any, are read by `part`. -/
def valueOf (part : Option (JsonReader JsonValue)) : JsonReader JsonValue :=
  ⟨readValue part, readValue_shorter⟩

/-- Reads a value that is nested in itself at most so deep. -/
def value : (levels : Nat) → JsonReader JsonValue
  | 0 => valueOf none
  | levels + 1 => valueOf (some (value levels))

end JsonReader

end Storefront
