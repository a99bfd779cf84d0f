import Storefront.Wire.Cursor

/-! # Fields of a body

A body is a run of fields with pairwise distinct tags.  `index` finds them all without looking into
their values, so that a reader can take the fields it knows in its own order and leave the others
alone.  Lengths and declared sizes are held against the bound of their field as soon as they have
been read, before the value itself.
-/

namespace Storefront

/-- A field found in a body, its value not yet read. -/
structure RawField where
  tag : Nat
  type : WireType
  /-- The octets of the value; a `len` value comes without its length. -/
  body : Bytes
  deriving DecidableEq, Repr

namespace RawField

/-- A cursor at the start of the value. -/
def cursor (field : RawField) : Cursor := Cursor.start field.body

/-- Refuses a field whose wire type is not the expected one. -/
def expect (field : RawField) (expected : WireType) : Except WireError Unit :=
  if field.type = expected then .ok ()
  else .error (.wireTypeMismatch field.tag expected field.type)

/-- Reads the value of a field whose key has been read. -/
def readBody (max : Option Nat) (tag : Nat) (type : WireType) : Read Bytes :=
  match type with
  | .len => Cursor.lenPrefixed max tag
  | .varint => Cursor.skip .varint
  | .stream => fun c =>
    match Cursor.streamStart c with
    | .error e _ => .error e c
    -- The announced size is looked at first and then read once more with the rest.
    | .ok declared _ =>
      match declared.elim (.ok ()) (checkBound tag · max) with
      | .error e => .error e c
      | .ok () => Cursor.skip .stream c

/-- Reads one field.  `bound` gives the most octets a tag may carry. -/
def read (bound : Nat → Option Nat) : Read RawField := do
  let (tag, type) ← Cursor.key
  let body ← readBody (bound tag) tag type
  pure ⟨tag, type, body⟩

end RawField

namespace Cursor

theorem bind_ok {α β : Type} {x : Read α} {f : α → Read β} {b : β} {c c' : Cursor}
    (h : (x >>= f) c = .ok b c') : ∃ a c₁, x c = .ok a c₁ ∧ f a c₁ = .ok b c' := by
  simp only [bind, EStateM.bind] at h
  split at h
  · rename_i a c₁ hx
    exact ⟨a, c₁, hx, h⟩
  · simp at h

theorem check_ok {r : Except WireError Unit} {c c' : Cursor} (h : check r c = .ok () c') :
    r = .ok () ∧ c' = c := by
  cases r with
  | ok u => simp_all [check]
  | error e => simp [check] at h

theorem key_ok {c c' : Cursor} {k : Nat × WireType} (h : key c = .ok k c') :
    c'.rest.length < c.rest.length := by
  unfold key at h
  obtain ⟨n, c₁, hv, hk⟩ := bind_ok h
  cases ht : WireType.ofBits? (n % 8) with
  | none =>
    simp only [ht] at hk
    cases hk
  | some type =>
    by_cases hm : maxTag < n / 8
    · simp only [ht, hm, if_true] at hk
      cases hk
    · simp only [ht, hm, if_false, pure, EStateM.pure, EStateM.Result.ok.injEq] at hk
      exact hk.2 ▸ (varint_ok hv).1

theorem lenPrefixed_ok {c c' : Cursor} {max : Option Nat} {tag : Nat} {bs : Bytes}
    (h : lenPrefixed max tag c = .ok bs c') : c'.rest.length < c.rest.length := by
  unfold lenPrefixed at h
  obtain ⟨n, c₁, hv, h₁⟩ := bind_ok h
  obtain ⟨_, c₂, hk, ht⟩ := bind_ok h₁
  have hc := (check_ok hk).2
  have hl := congrArg List.length (take_ok ht).1
  have hn := (varint_ok hv).1
  subst hc
  simp only [List.length_append] at hl
  omega

theorem skipChunks_ok {c c' : Cursor} (h : skipChunks c = .ok () c') :
    c'.rest.length < c.rest.length := by
  fun_induction skipChunks c with
  | case1 => simp at h
  | case2 c c₁ hc =>
    simp only [EStateM.Result.ok.injEq, true_and] at h
    exact h ▸ (chunk_ok hc).1
  | case3 c bs c₁ hc ih => exact Nat.lt_trans (ih h) (chunk_ok hc).1

theorem streamStart_ok {c c' : Cursor} {d : Option Nat} (h : streamStart c = .ok d c') :
    c'.rest.length < c.rest.length := by
  unfold streamStart at h
  obtain ⟨n, c₁, hv, h⟩ := bind_ok h
  simp only [pure, EStateM.pure, EStateM.Result.ok.injEq] at h
  exact h.2 ▸ (varint_ok hv).1

theorem skipValue_ok {type : WireType} {c c' : Cursor} (h : skipValue type c = .ok () c') :
    c'.rest.length < c.rest.length := by
  cases type with
  | varint =>
    simp only [skipValue] at h
    split at h
    · rename_i hv
      simp only [EStateM.Result.ok.injEq, true_and] at h
      exact h ▸ (varint_ok hv).1
    · simp at h
  | len =>
    simp only [skipValue] at h
    split at h
    · rename_i hv
      simp only [EStateM.Result.ok.injEq, true_and] at h
      exact h ▸ lenPrefixed_ok hv
    · simp at h
  | stream =>
    simp only [skipValue] at h
    split at h
    · simp at h
    · rename_i hs
      split at h
      · rename_i hk
        simp only [EStateM.Result.ok.injEq, true_and] at h
        exact h ▸ Nat.lt_trans (skipChunks_ok hk) (streamStart_ok hs)
      · simp at h

theorem skip_ok {type : WireType} {c c' : Cursor} {bs : Bytes} (h : skip type c = .ok bs c') :
    c'.rest.length < c.rest.length := by
  unfold skip at h
  split at h
  · rename_i hs
    simp only [EStateM.Result.ok.injEq] at h
    exact h.2 ▸ skipValue_ok hs
  · simp at h

end Cursor

theorem RawField.readBody_ok {max : Option Nat} {tag : Nat} {type : WireType} {c c' : Cursor}
    {bs : Bytes} (h : readBody max tag type c = .ok bs c') : c'.rest.length < c.rest.length := by
  cases type with
  | varint => exact Cursor.skip_ok h
  | len => exact Cursor.lenPrefixed_ok h
  | stream =>
    simp only [readBody] at h
    split at h
    · simp at h
    · split at h
      · simp at h
      · exact Cursor.skip_ok h

/-- A field that has been read lies behind the cursor. -/
theorem RawField.read_ok {bound : Nat → Option Nat} {c c' : Cursor} {f : RawField}
    (h : read bound c = .ok f c') : c'.rest.length < c.rest.length := by
  unfold read at h
  obtain ⟨k, c₁, hk, h⟩ := Cursor.bind_ok h
  obtain ⟨bs, c₂, hb, h⟩ := Cursor.bind_ok h
  simp only [pure, EStateM.pure, EStateM.Result.ok.injEq] at h
  exact h.2 ▸ Nat.lt_trans (readBody_ok hb) (Cursor.key_ok hk)

/-- The fields of a body in the order in which they stand there. -/
abbrev FieldIndex := List RawField

namespace FieldIndex

/-- The field with a given tag. -/
def find? (fields : FieldIndex) (tag : Nat) : Option RawField := List.find? (·.tag == tag) fields

/-- The fields other than the one with a given tag. -/
def without (fields : FieldIndex) (tag : Nat) : FieldIndex := fields.filter (·.tag != tag)

/-- The fields in ascending order of their tags. -/
def inTagOrder (fields : FieldIndex) : FieldIndex := fields.mergeSort (·.tag ≤ ·.tag)

/-- Finds the fields ahead of a cursor; those behind it have the tags `seen`. -/
def readAll (bound : Nat → Option Nat) (seen : List Nat) (c : Cursor) :
    Except WireError FieldIndex :=
  if c.atEnd then .ok []
  else
    match _h : RawField.read bound c with
    | .error e _ => .error e
    -- A repeated field is read in full before it is refused, so a fault in it comes first.
    | .ok field c' =>
      if seen.contains field.tag then .error (.duplicateTag field.tag)
      else
        match readAll bound (field.tag :: seen) c' with
        | .ok fields => .ok (field :: fields)
        | .error e => .error e
termination_by c.rest.length
decreasing_by exact RawField.read_ok _h

/-- Finds the fields of a body.  `bound` gives the most octets a tag may carry. -/
def ofBody (bound : Nat → Option Nat) (body : Bytes) : Except WireError FieldIndex :=
  readAll bound [] (Cursor.start body)

end FieldIndex

end Storefront
