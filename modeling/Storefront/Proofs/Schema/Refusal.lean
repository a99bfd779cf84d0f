import Storefront.Proofs.Wire.Refusal
import Storefront.Schema.Body

/-! # What a body is refused for

Reading a record fails for what stands in its body, or because a hook finds a structural version that
it does not know.  Nothing that is read has a say in which record it is read as, or in how its octets
have been had.

* `Layout.decode_error`         reading fields fails only so
* `decodeMessage_error`         and so does reading a message
-/

namespace Storefront

/-- True for failures that come from the contents of a body, and not from where it was sent. -/
def SchemaError.ofContents : SchemaError → Bool
  | wire error => error.ofOctets
  | structuralVersion .. => true
  | _ => false

/-- A hook that refuses a record for its contents only. -/
def Hook.Minds (hook : Hook) : Prop :=
  ∀ fields ctx e, hook fields ctx = .error e → e.ofContents = true

mutual

/-- True when all hooks in a type mind the contents of their records only. -/
def ValueType.Minds : ValueType → Prop
  | .list element => element.Minds
  | .pair first second => first.Minds ∧ second.Minds
  | .record _ layout hook => layout.Minds ∧ ∀ h, hook = some h → Hook.Minds h
  | _ => True

/-- True when all hooks in the fields of a layout mind the contents of their records only. -/
def Layout.Minds : Layout → Prop
  | .nil => True
  | .field _ type _ rest => type.Minds ∧ rest.Minds
  | .group _ _ body rest => body.Minds ∧ rest.Minds

end

namespace StreamField

variable {m : FieldMeta} {field : StreamField} {received : Nat} {done : List Bytes} {c : Cursor}
  {e : WireError}

/-- `collect` fails for a chunk, or for a bound that is exceeded. -/
theorem collect_error (h : (collect m received done c).2 = .error e) : e.ofOctets = true := by
  -- By induction on the chunks: the first that fails decides.
  fun_induction collect m received done c with
  | case1 received done c e' c₁ hchunk =>
    cases h
    exact Cursor.minds_chunk hchunk
  | case2 => cases h
  | case3 received done c bs c₁ hchunk e' hbound =>
    cases h
    exact checkBound_error hbound
  | case4 received done c bs c₁ hchunk hsize total e' hbound =>
    cases h
    exact checkBound_error hbound
  | case5 received done c bs c₁ hchunk hsize total hbound ih => exact ih h

/-- `verdict` fails for sizes that differ. -/
theorem verdict_error {tag : Nat} {declared : Option Nat}
    (h : verdict tag declared received = .error e) : e.ofOctets = true := by
  unfold verdict at h
  split at h
  · split at h
    · cases h
      rfl
    · split at h <;> cases h
      rfl
  · cases h

/-- `receive` fails for its octets, however many chunks have been taken by then. -/
theorem receive_error (h : (field.receive m c).result = .error e) : e.ofOctets = true := by
  unfold receive at h
  split at h
  · rename_i hfail
    cases h
    exact Cursor.minds_streamStart hfail
  · rename_i declared c₁ _
    dsimp only at h
    split at h
    · rename_i hbound
      cases h
      cases declared with
      | none => cases hbound
      | some declared => exact checkBound_error hbound
    · -- Chunks that were collected before one that fails make no difference to the error.
      cases hending : (collect m 0 [] c₁).2 with
      | error e' =>
        simp only [hending, Except.error.injEq] at h
        subst h
        exact collect_error hending
      | ok c' =>
        simp only [hending] at h
        -- All chunks are there, and their sizes are compared.
        exact verdict_error h

end StreamField

section

variable {about : FieldMeta} {old : Value} {c : Cursor} {e : SchemaError}

/-- `all` fails for one of its elements. -/
theorem Decoded.all_error {α : Type} {f : Cursor → Decoded α} {count : Nat} {done : List α}
    (h : (Decoded.all f count done c).result = .error e) : ∃ c', (f c').result = .error e := by
  induction count generalizing done c with
  | zero => cases h
  | succ count ih =>
    rw [Decoded.all] at h
    cases hx : (f c).result with
    | error e' =>
      rw [hx] at h
      -- The first element fails, and the list with it.
      exact ⟨c, hx.trans h⟩
    | ok u =>
      rw [hx] at h
      exact ih h

/-- `decodeNumber` fails for its octets, or for what they do not stand for. -/
theorem decodeNumber_error {f : Nat → Except Defect Value}
    (h : (decodeNumber about f old c).result = .error e) : e.ofContents = true := by
  unfold decodeNumber at h
  split at h
  · rename_i hfail
    cases h
    exact Cursor.minds_varint hfail
  · split at h
    · cases h
    · cases h
      rfl

/-- `decodeOctets` fails for the bound, or for what the octets do not spell. -/
theorem decodeOctets_error {f : Bytes → Except Defect Value}
    (h : (decodeOctets about f old c).result = .error e) : e.ofContents = true := by
  unfold decodeOctets at h
  split at h
  · rename_i hbound
    cases h
    exact checkBound_error hbound
  · dsimp only at h
    split at h
    · cases h
    · cases h
      rfl

/-- `decodeEnclosed` fails for the length, or as the body does by itself. -/
theorem decodeEnclosed_error {type : WireType} {body : Cursor → Decoded Value}
    (hbody : ∀ c, (body c).result = .error e → e.ofContents = true)
    (h : (decodeEnclosed about type body old c).result = .error e) : e.ofContents = true := by
  unfold decodeEnclosed at h
  split at h
  · split at h
    · rename_i hfail
      cases h
      exact Cursor.minds_lenPrefixed _ _ hfail
    · exact hbody _ h
  · exact hbody c h

end

mutual

/-- `decodeBody` fails for its contents.  Each type asks the types it is made of. -/
theorem ValueType.decodeBody_error : (type : ValueType) → type.Minds → (about : FieldMeta) →
    (ctx : Context) → (old : Value) → (c : Cursor) → (e : SchemaError) →
    (type.decodeBody about ctx old c).result = .error e → e.ofContents = true
  | .unsigned _, _, about, ctx, old, c, e, h => decodeNumber_error h
  | .status, _, about, ctx, old, c, e, h => decodeNumber_error h
  | .choice _, _, about, ctx, old, c, e, h => decodeNumber_error h
  | .options, _, about, ctx, old, c, e, h => decodeNumber_error h
  | .signed, _, about, ctx, old, c, e, h => decodeNumber_error h
  | .flag, _, about, ctx, old, c, e, h => decodeNumber_error h
  | .text, _, about, ctx, old, c, e, h => decodeOctets_error h
  | .secret, _, about, ctx, old, c, e, h => decodeOctets_error h
  | .blob, _, about, ctx, old, c, e, h => decodeOctets_error h
  | .stream, _, about, ctx, old, c, e, h => by
    unfold ValueType.decodeBody at h
    dsimp only at h
    cases hx : (StreamField.receive about _ c).result with
    | ok u => rw [hx] at h; cases h
    | error w =>
      rw [hx] at h
      cases h
      exact StreamField.receive_error hx
  | .list element, hminds, about, ctx, old, c, e, h => by
    rw [ValueType.decodeBody] at h
    split at h
    · rename_i hfail
      cases h
      exact Cursor.minds_varint hfail
    · split at h
      · rename_i hbound
        cases h
        exact checkBound_error hbound
      · split at h
        · -- The count is in order, so an element has failed.
          obtain ⟨c', hc⟩ := Decoded.all_error h
          exact decodeEnclosed_error
            (fun c => element.decodeBody_error hminds _ ctx _ c e) hc
        · cases h
          rfl
  | .pair a b, hminds, about, ctx, old, c, e, h => by
    unfold ValueType.decodeBody at h
    dsimp only at h
    split at h
    · rename_i e' hfirst
      cases h
      exact decodeEnclosed_error (fun c => a.decodeBody_error hminds.1 _ ctx _ c e) hfirst
    · exact decodeEnclosed_error (fun c => b.decodeBody_error hminds.2 _ ctx _ c e) h
  | .record name layout hook, hminds, about, ctx, old, c, e, h => by
    rw [ValueType.decodeBody] at h
    dsimp only at h
    split at h
    · rename_i hindex
      cases h
      exact FieldIndex.ofBody_error hindex
    · split at h
      · rename_i e' hfields
        cases h
        exact layout.decode_error hminds.1 ctx _ 0 _ e hfields
      · split at h
        · cases h
        · rename_i hook
          split at h
          · rename_i e' hhook
            cases h
            -- The fields have been read, and the hook has refused them.
            exact hminds.2 hook rfl _ _ _ hhook
          · cases h

/-- `decode` fails for the contents of its fields, one after the other. -/
theorem Layout.decode_error : (layout : Layout) → layout.Minds → (ctx : Context) →
    (index : FieldIndex) → (slot : Nat) → (fields : List Value) → (e : SchemaError) →
    (layout.decode ctx index slot fields).2 = .error e → e.ofContents = true
  | .nil, _, ctx, index, slot, fields, e, h => by
    rw [Layout.decode] at h
    cases h
  | .field about type initial rest, hminds, ctx, index, slot, fields, e, h => by
    rw [Layout.decode] at h
    split at h
    · -- The field is absent, so one behind it has failed.
      exact rest.decode_error hminds.2 ctx index _ _ e h
    · split at h
      · rename_i hexpect
        cases h
        exact RawField.expect_error hexpect
      · dsimp only at h
        split at h
        · rename_i e' hvalue
          cases h
          exact type.decodeBody_error hminds.1 about ctx _ _ e hvalue
        · exact rest.decode_error hminds.2 ctx index _ _ e h
  | .group name guard body rest, hminds, ctx, index, slot, fields, e, h => by
    rw [Layout.decode] at h
    split at h
    · dsimp only at h
      split at h
      · rename_i e' hbody
        cases h
        exact body.decode_error hminds.1 ctx index slot fields e hbody
      · exact rest.decode_error hminds.2 ctx index _ _ e h
    · exact rest.decode_error hminds.2 ctx index _ _ e h

end

namespace RecordType

variable {r : RecordType} {ctx : Context} {fields : List Value} {e : SchemaError}

/-- `decodeIndexed` fails for one of its fields, or for its hook. -/
theorem decodeIndexed_error {index : FieldIndex} (hminds : r.layout.Minds)
    (hhook : ∀ h, r.hook = some h → h.Minds)
    (h : (r.decodeIndexed ctx index fields).2 = .error e) : e.ofContents = true := by
  unfold decodeIndexed at h
  dsimp only at h
  split at h
  · rename_i hook hr hook'
    split at h
    · cases h
    · rename_i e' he
      cases h
      exact hhook _ ‹_› _ _ _ he
  · exact r.layout.decode_error hminds ctx index 0 fields e h

/-- `index` fails for the octets of the body. -/
theorem index_error {body : Bytes} (h : r.index body = .error e) : e.ofContents = true := by
  unfold index at h
  cases hindex : FieldIndex.ofBody r.layout.byteBound body with
  | error w =>
    rw [hindex] at h
    cases h
    exact FieldIndex.ofBody_error hindex
  | ok index =>
    rw [hindex] at h
    cases h

/-- `checkFormatVersion` fails for the wire type, or for the number. -/
theorem checkFormatVersion_error {index : FieldIndex} {e : WireError}
    (h : checkFormatVersion index = .error e) : e.ofOctets = true := by
  unfold checkFormatVersion at h
  split at h
  · cases h
  · split at h
    · rename_i hexpect
      cases h
      exact RawField.expect_error hexpect
    · split at h
      · cases h
      · rename_i hfail
        cases h
        exact Cursor.minds_varint hfail

/-- `decodeMessage` never fails for anything but the contents of the body. -/
theorem decodeMessage_error {body : Bytes} (hminds : r.layout.Minds)
    (hhook : ∀ h, r.hook = some h → h.Minds)
    (h : (r.decodeMessage ctx body fields).2 = .error e) : e.ofContents = true := by
  unfold decodeMessage at h
  split at h
  · rename_i hindex
    cases h
    -- In order: the index, the format version, the fields and the hook.
    exact index_error hindex
  · split at h
    · rename_i hversion
      cases h
      exact checkFormatVersion_error hversion
    · exact decodeIndexed_error hminds hhook h

end RecordType

end Storefront
