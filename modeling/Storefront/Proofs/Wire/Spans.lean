import Storefront.Proofs.Wire.Written

/-! # Octets that are one value

A read that succeeds looks at nothing behind what it takes, so it does the same wherever these
octets stand and whatever follows them (`Extends`).

* `extends_bind`             one read after the other
* `lenPrefixed_of_measures`  octets behind their length, however that is written
-/

namespace Storefront

namespace Cursor

variable {α β : Type}

/-- A read that, when it succeeds, takes the same octets for the same value wherever they stand. -/
def Extends (x : Read α) : Prop :=
  ∀ {q q' : Nat} {octets left : Bytes} {a : α}, x ⟨q, octets⟩ = .ok a ⟨q', left⟩ →
    ∀ p rest, ∃ p', x ⟨p, octets ++ rest⟩ = .ok a ⟨p', left ++ rest⟩

/-- `pure` looks at nothing. -/
theorem extends_pure (a : α) : Extends (pure a : Read α) := by
  intro q q' octets left b h p rest
  simp only [pure, EStateM.pure, EStateM.Result.ok.injEq, Cursor.mk.injEq] at h
  obtain ⟨rfl, -, rfl⟩ := h
  exact ⟨p, rfl⟩

/-- `Extends` of two reads is `Extends` of one after the other. -/
theorem extends_bind {x : Read α} {f : α → Read β} (hx : Extends x) (hf : ∀ a, Extends (f a)) :
    Extends (x >>= f) := by
  intro q q' octets left b h p rest
  obtain ⟨a, ⟨q₁, left₁⟩, ha, hb⟩ := bind_ok h
  -- The first read takes its octets with more behind them, and the second goes on from there.
  obtain ⟨p₁, hx'⟩ := hx ha p rest
  obtain ⟨p₂, hf'⟩ := hf a hb p₁ rest
  exact ⟨p₂, by rw [bind_of_ok hx', hf']⟩

/-- `varint` looks at nothing behind its number. -/
theorem extends_varint : Extends varint := by
  intro q q' octets left n h p rest
  obtain ⟨m, rfl, hpass⟩ := Grammar.number_of_read h
  -- The octets are those of the number, and what was left.
  obtain rfl : m.octets ++ left = octets := hpass.rest
  exact ⟨_, by rw [List.append_assoc, Grammar.takes_number m p (left ++ rest)]⟩

/-- `take` looks at nothing behind its octets. -/
theorem extends_take (n : Nat) : Extends (take n) := by
  intro q q' octets left bs h p rest
  obtain ⟨hsplit, hlength, -⟩ := take_ok h
  obtain rfl : bs ++ left = octets := hsplit
  subst hlength
  exact ⟨p + bs.length, by rw [List.append_assoc, take_append]⟩

/-- `check` looks at no octets. -/
theorem extends_check (r : Except WireError Unit) : Extends (check r) := by
  cases r with
  | error e => exact fun h => by simp [check] at h
  | ok u => exact extends_pure ()

/-- `lenPrefixed` looks at nothing behind the octets that it counts. -/
theorem extends_lenPrefixed (max : Option Nat) (tag : Nat) : Extends (lenPrefixed max tag) :=
  extends_bind extends_varint fun _ => extends_bind (extends_check _) fun _ => extends_take _

/-- `streamStart` looks at nothing behind its number. -/
theorem extends_streamStart : Extends streamStart :=
  extends_bind extends_varint fun _ => extends_pure _

/-- `chunk` looks at nothing behind its octets. -/
theorem extends_chunk : Extends chunk := by
  refine extends_bind extends_varint fun n => ?_
  split
  · exact extends_pure none
  · exact extends_bind (extends_take n) fun bs => extends_pure (some bs)

/-- `skipValue` looks at nothing behind the value. -/
theorem extends_skipValue (type : WireType) : Extends (skipValue type) := by
  intro q q' octets left u h p rest
  -- What is passed over is a value of the grammar, which is passed over anywhere.
  obtain ⟨v, rfl, hpass⟩ := Grammar.value_of_skip h
  obtain rfl : v.spelled ++ left = octets := hpass.rest
  exact ⟨_, by rw [List.append_assoc, Grammar.takes_skipValue v p (left ++ rest)]⟩

end Cursor

/-- Octets that are a number and nothing more.  It need not be written as short as it could be. -/
def Varint.Measures (octets : Bytes) (n : Nat) : Prop :=
  ∃ p, Cursor.varint (Cursor.start octets) = .ok n ⟨p, []⟩

/-- Octets that are one value of a wire type and nothing more. -/
def WireType.Spans (type : WireType) (octets : Bytes) : Prop :=
  ∃ p, Cursor.skipValue type (Cursor.start octets) = .ok () ⟨p, []⟩

namespace Cursor

variable {octets size body : Bytes} {n : Nat}

/-- `varint` reads what `Measures` a number wherever it stands. -/
theorem varint_of_measures (h : Varint.Measures octets n) (p : Nat) (rest : Bytes) :
    ∃ p', varint ⟨p, octets ++ rest⟩ = .ok n ⟨p', rest⟩ := by
  obtain ⟨q, hq⟩ := h
  exact extends_varint hq p rest

/-- `lenPrefixed` reads a length however written, and the octets it counts. -/
theorem lenPrefixed_of_measures (h : Varint.Measures size body.length) (tag p : Nat)
    (rest : Bytes) :
    ∃ p', lenPrefixed none tag ⟨p, size ++ (body ++ rest)⟩ = .ok body ⟨p', rest⟩ := by
  obtain ⟨p₁, hn⟩ := varint_of_measures h p (body ++ rest)
  refine ⟨p₁ + body.length, ?_⟩
  unfold lenPrefixed
  rw [bind_of_ok hn, bind_of_ok (check_of_ok (checkBound_none tag _) _), take_append]

/-- What `Measures` a number has an octet at least. -/
theorem ne_nil_of_measures (h : Varint.Measures octets n) : octets ≠ [] := by
  obtain ⟨q, hq⟩ := h
  have := (varint_ok hq).1
  exact List.length_pos_iff.1 (Nat.lt_of_le_of_lt (Nat.zero_le _) this)

/-- What `Spans` has an octet at least. -/
theorem ne_nil_of_spans {type : WireType} (h : type.Spans octets) : octets ≠ [] := by
  obtain ⟨q, hq⟩ := h
  have := skipValue_ok hq
  exact List.length_pos_iff.1 (Nat.lt_of_le_of_lt (Nat.zero_le _) this)

end Cursor

end Storefront
