import Storefront.Wire.Index

/-! # What octets are refused for

Reading octets that are at hand fails for what they are, and never the way in which a stream
underneath can fail.

* `Cursor.minds_bind`        one read after the other
* `FieldIndex.ofBody_error`  finding the fields of a body
-/

namespace Storefront

/-- True for failures that lie in octets, and not in the stream underneath. -/
def WireError.ofOctets : WireError → Bool
  | io _ => false
  | _ => true

/-- `checkBound` fails with `boundExceeded`, for a size that stands in the octets. -/
theorem checkBound_error {tag size : Nat} {max : Option Nat} {e : WireError}
    (h : checkBound tag size max = .error e) : e.ofOctets = true := by
  unfold checkBound at h
  split at h
  · split at h
    · cases h
      rfl
    · cases h
  · cases h

namespace Cursor

variable {α β : Type}

/-- A read that fails, if it does, for the octets that it comes to. -/
def Minds (x : Read α) : Prop := ∀ ⦃c c' : Cursor⦄ ⦃e : WireError⦄, x c = .error e c' →
  e.ofOctets = true

theorem minds_pure (a : α) : Minds (pure a : Read α) := nofun

theorem minds_throw {e : WireError} (he : e.ofOctets = true) : Minds (throw e : Read α) := by
  intro c c' e' h
  cases h
  exact he

/-- `Minds` of two reads is `Minds` of one after the other. -/
theorem minds_bind {x : Read α} {f : α → Read β} (hx : Minds x) (hf : ∀ a, Minds (f a)) :
    Minds (x >>= f) := by
  intro c c' e h
  simp only [bind, EStateM.bind] at h
  split at h
  · -- The first read has succeeded.
    exact hf _ h
  · rename_i hfail
    cases h
    exact hx hfail

/-- `varint` fails for octets that are missing, or that make too large a number. -/
theorem minds_varint : Minds varint := by
  intro c c' e h
  unfold varint at h
  split at h <;> cases h <;> rfl

/-- `take` fails for octets that are missing. -/
theorem minds_take (n : Nat) : Minds (take n) := by
  intro c c' e h
  unfold take at h
  split at h <;> cases h
  rfl

/-- `check` fails for what is checked. -/
theorem minds_check {r : Except WireError Unit} (hr : ∀ e, r = .error e → e.ofOctets = true) :
    Minds (check r) := by
  intro c c' e h
  cases r with
  | ok u => cases h
  | error e' =>
    cases h
    exact hr e rfl

/-- `lenPrefixed` fails for its length, its bound or its octets. -/
theorem minds_lenPrefixed (max : Option Nat) (tag : Nat) : Minds (lenPrefixed max tag) :=
  minds_bind minds_varint fun _ => minds_bind (minds_check fun _ => checkBound_error) fun _ =>
    minds_take _

/-- `key` fails for its number, its type or its tag. -/
theorem minds_key : Minds key := by
  refine minds_bind minds_varint fun n => ?_
  -- The type is looked at before the tag.
  split
  · exact minds_throw rfl
  · split
    · exact minds_throw rfl
    · exact minds_pure _

/-- `streamStart` fails for its number. -/
theorem minds_streamStart : Minds streamStart :=
  minds_bind minds_varint fun _ => minds_pure _

/-- `chunk` fails for its length or its octets. -/
theorem minds_chunk : Minds chunk := by
  refine minds_bind minds_varint fun n => ?_
  split
  · exact minds_pure none
  · exact minds_bind (minds_take n) fun bs => minds_pure (some bs)

/-- `skipChunks` fails where a chunk does. -/
theorem minds_skipChunks : Minds skipChunks := by
  intro c c' e h
  -- By induction on the chunks: one of them is broken, or one behind it is.
  fun_induction skipChunks c with
  | case1 c e' c₁ hchunk =>
    cases h
    exact minds_chunk hchunk
  | case2 => cases h
  | case3 c bs c₁ hchunk ih => exact ih h

/-- `skipValue` fails for the value of any wire type. -/
theorem minds_skipValue (type : WireType) : Minds (skipValue type) := by
  intro c c' e h
  cases type with
  | varint =>
    simp only [skipValue] at h
    split at h
    · cases h
    · rename_i hfail
      cases h
      exact minds_varint hfail
  | len =>
    simp only [skipValue] at h
    split at h
    · cases h
    · rename_i hfail
      cases h
      exact minds_lenPrefixed none 0 hfail
  | stream =>
    simp only [skipValue] at h
    split at h
    · rename_i hfail
      cases h
      exact minds_streamStart hfail
    · split at h
      · cases h
      · rename_i hfail
        cases h
        exact minds_skipChunks hfail

/-- `skip` fails where `skipValue` does. -/
theorem minds_skip (type : WireType) : Minds (skip type) := by
  intro c c' e h
  unfold skip at h
  split at h
  · cases h
  · rename_i hfail
    cases h
    exact minds_skipValue type hfail

end Cursor

namespace RawField

variable {c c' : Cursor} {e : WireError}

/-- `expect` fails for the wire type that stands in the octets. -/
theorem expect_error {field : RawField} {expected : WireType}
    (h : field.expect expected = .error e) : e.ofOctets = true := by
  unfold expect at h
  split at h <;> cases h
  rfl

/-- `readBody` fails for the value or for its bound. -/
theorem minds_readBody (max : Option Nat) (tag : Nat) (type : WireType) :
    Cursor.Minds (readBody max tag type) := by
  intro c c' e h
  cases type with
  | varint => exact Cursor.minds_skip .varint h
  | len => exact Cursor.minds_lenPrefixed max tag h
  | stream =>
    simp only [readBody] at h
    split at h
    · rename_i hfail
      cases h
      exact Cursor.minds_streamStart hfail
    · rename_i declared _ _
      split at h
      · rename_i hbound
        cases h
        -- A size that is not declared is held against no bound.
        cases declared with
        | none => cases hbound
        | some declared => exact checkBound_error hbound
      · exact Cursor.minds_skip .stream h

/-- `read` fails for the key or for what stands behind it. -/
theorem minds_read (bound : Nat → Option Nat) : Cursor.Minds (read bound) :=
  Cursor.minds_bind Cursor.minds_key fun _ =>
    Cursor.minds_bind (minds_readBody _ _ _) fun _ => Cursor.minds_pure _

end RawField

namespace FieldIndex

/-- `readAll` fails for a field that is broken, or that comes twice. -/
theorem readAll_error {bound : Nat → Option Nat} {seen : List Nat} {c : Cursor} {e : WireError}
    (h : readAll bound seen c = .error e) : e.ofOctets = true := by
  -- By induction on the fields, of which the first that is refused decides.
  fun_induction readAll bound seen c with
  | case1 => cases h
  | case2 seen c hmore e' c₁ hread =>
    cases h
    exact RawField.minds_read bound hread
  | case3 =>
    cases h
    rfl
  | case4 => cases h
  | case5 seen c hmore field c₁ hread hnew e' hrest ih =>
    cases h
    exact ih hrest

/-- `ofBody` fails for the octets of the body alone. -/
theorem ofBody_error {bound : Nat → Option Nat} {body : Bytes} {e : WireError}
    (h : ofBody bound body = .error e) : e.ofOctets = true := readAll_error h

end FieldIndex

end Storefront
