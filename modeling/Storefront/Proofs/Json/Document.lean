import Storefront.Proofs.Json.Scalar
import Storefront.Proofs.Json.Spelled

/-! # Documents as they are written

What is written of a value spells it, without blanks.  So it is read back like anything that is
spelled, provided that it is nested no deeper than the reader goes.

* `Spells.object_write`   an object is spelled when its members are
* `Readable.spells`       a value is spelled as it is written
* `Readable.held`         a value that is nested no deeper can be held
-/

namespace Storefront

open JsonScan JsonValue

namespace JsonGrammar

/-! ## Parts without blanks -/

/-- A part with no blanks around it. -/
def Spaced.tight {α : Type} (octets : Bytes) (what : α) : Spaced α :=
  ⟨[], octets, [], what, blank_nil, blank_nil⟩

@[simp] theorem Spaced.octets_tight {α : Type} (octets : Bytes) (what : α) :
    (tight octets what).octets = octets := rfl

@[simp] theorem Spaced.what_tight {α : Type} (octets : Bytes) (what : α) :
    (tight octets what).what = what := rfl

@[simp] theorem Spaced.spelled_tight {α : Type} (octets : Bytes) (what : α) :
    (tight octets what).spelled = octets := by
  simp [spelled, tight]

/-- A member as it is written, with the given octets for its value. -/
def Member.tight (key : String) (octets : Bytes) (v : JsonValue) : Member :=
  ⟨.tight (writeText key) key, .tight octets v⟩

/-! ## Lists and objects -/

/-- `writeItems` puts a comma in front of each element, and the bracket behind the last. -/
theorem writeItems_eq (vs : List JsonValue) :
    writeItems vs = more (vs.map write) ++ [octet ']'] := by
  induction vs with
  | nil => rfl
  | cons v vs ih => simp [writeItems, ih, more, ascii]

/-- `writeMembers` does so with the members of an object. -/
theorem writeMembers_eq (ms : List (String × JsonValue)) :
    writeMembers ms =
      more (ms.map fun m => (Member.tight m.1 m.2.write m.2).spelled) ++ [octet '\x7d'] := by
  induction ms with
  | nil => rfl
  | cons m ms ih => simp [writeMembers, ih, more, ascii, Member.tight, Member.spelled]

/-- `write` of a list spells it when `write` of its elements does. -/
theorem Spells.list_write {vs : List JsonValue} (h : ∀ v ∈ vs, Spells v.write v) :
    Spells (JsonValue.list vs).write (.list vs) := by
  cases vs with
  | nil => exact .emptyList blank_nil
  | cons v vs =>
    -- Each element is a part without blanks.
    have hparts : ∀ y ∈ (v :: vs).map fun v => Spaced.tight v.write v, Spells y.octets y.what :=
      List.forall_mem_map.2 h
    have hlist := Spells.list hparts
    simpa [JsonValue.write, writeItems_eq, ascii, Function.comp_def] using hlist

/-- `write` of an object spells it when `write` of the values of its members does. -/
theorem Spells.object_write {ms : List (String × JsonValue)} (h : ∀ m ∈ ms, Spells m.2.write m.2) :
    Spells (JsonValue.object ms).write (.object ms) := by
  cases ms with
  | nil => exact .emptyObject blank_nil
  | cons m ms =>
    have hname : ∀ y ∈ (m :: ms).map fun m => Member.tight m.1 m.2.write m.2,
        Text y.name.octets y.name.what := List.forall_mem_map.2 fun m _ => .written m.1
    have hvalue : ∀ y ∈ (m :: ms).map fun m => Member.tight m.1 m.2.write m.2,
        Spells y.value.octets y.value.what := List.forall_mem_map.2 h
    have hobject := Spells.object hname hvalue
    simpa [JsonValue.write, writeMembers_eq, ascii, Member.what, Member.tight, Member.spelled,
      Function.comp_def] using hobject

end JsonGrammar

namespace JsonReader

open JsonGrammar

/-! ## Values that are read back -/

/-- The values without parts that are read back. -/
inductive Scalar : JsonValue → Prop
  | null : Scalar .null
  | flag (b : Bool) : Scalar (.flag b)
  | natural {n : Nat} (h : n < 0x10000000000000000) : Scalar (.natural n)
  | text (t : String) : Scalar (.text t)

/-- `write` spells each of these. -/
theorem Scalar.spells {v : JsonValue} (h : Scalar v) : Spells v.write v := by
  cases h with
  | null => exact .scalar .null
  | flag b => cases b <;> first | exact .scalar .no | exact .scalar .yes
  | @natural n h =>
    -- A number is written in decimal digits without a sign, a fraction or an exponent.
    rw [JsonValue.write, ← Number.octets_decimal, ← Number.value_decimal h]
    exact .scalar (.number _)
  | text t => exact .scalar (.text (.written t))

/-- The values that are read back from so many levels: their lists and objects stand inside each
other no deeper. -/
inductive Readable : (levels : Nat) → JsonValue → Prop
  | scalar {levels : Nat} {v : JsonValue} (h : Scalar v) : Readable levels v
  | list {levels : Nat} {vs : List JsonValue} (h : ∀ v ∈ vs, Readable levels v) :
    Readable (levels + 1) (.list vs)
  | object {levels : Nat} {ms : List (String × JsonValue)} (h : ∀ m ∈ ms, Readable levels m.2) :
    Readable (levels + 1) (.object ms)

namespace Readable

variable {levels : Nat} {v : JsonValue}

/-- `write` of a `Readable` value spells it. -/
theorem spells (h : Readable levels v) : Spells v.write v := by
  -- On how the value is made up: each list and object goes one level down.
  induction h with
  | scalar h => exact h.spells
  | list h ih => exact .list_write ih
  | object h ih => exact .object_write ih

/-- A value that is `Readable` within some levels can be `Held` within as many. -/
theorem held (h : Readable levels v) : Held levels v := by
  induction h with
  | scalar h =>
    cases h with
    | null => exact .null
    | flag b => exact .flag b
    | natural h => exact .natural _
    | text t => exact .text t
  | list h ih => exact .list ih
  | object h ih => exact .object ih

end Readable

end JsonReader

end Storefront
