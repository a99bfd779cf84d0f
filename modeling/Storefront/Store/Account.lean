import Storefront.Schema.Type

/-! # Accounts and listings

The states of an account, and which applications a listing covers.
-/

namespace Storefront

/-- The states of an account. -/
inductive AccountState where
  | invalid
  | inactive
  | validate
  | active
  | activeLocked
  | validateLocked
  deriving DecidableEq, Repr

namespace AccountState

/-- All states in order of their numbers. -/
def all : List AccountState := [invalid, inactive, validate, active, activeLocked, validateLocked]

/-- The number of a state. -/
def code : AccountState → Nat
  | invalid => 0
  | inactive => 1
  | validate => 2
  | active => 3
  | activeLocked => 4
  | validateLocked => 5

/-- The state with a given number. -/
def ofCode? (n : Nat) : Option AccountState := all.find? (·.code == n)

/-- The name of a state in listings. -/
def name : AccountState → String
  | invalid => "invalid"
  | inactive => "inactive"
  | validate => "validate"
  | active => "active"
  | activeLocked => "active_locked"
  | validateLocked => "validate_locked"

/-- The name of a state in dumps. -/
def label : AccountState → String
  | invalid => "Invalid"
  | inactive => "Inactive"
  | validate => "Validate"
  | active => "Active"
  | activeLocked => "ActiveLocked"
  | validateLocked => "ValidateLocked"

/-- True for the states in which the account cannot be used for now. -/
def isLocked : AccountState → Bool
  | activeLocked | validateLocked => true
  | _ => false

@[simp] theorem ofCode?_code (s : AccountState) : ofCode? s.code = some s := by cases s <;> rfl

/-- The states as an enumeration of a field. -/
def enumeration : Enumeration := ⟨"AccountState", all.map fun s => (s.code, s.label)⟩

end AccountState

/-- Which applications a listing covers. -/
inductive AppChoice where
  | owned
  | acquired
  | all
  deriving DecidableEq, Repr

namespace AppChoice

/-- The number of a choice: the character that stands for it. -/
def code : AppChoice → Nat
  | owned => 'o'.toNat
  | acquired => 'a'.toNat
  | all => 'A'.toNat

/-- The name of a choice in dumps. -/
def label : AppChoice → String
  | owned => "Owned"
  | acquired => "Acquired"
  | all => "All"

/-- The choice with a given number. -/
def ofCode? (n : Nat) : Option AppChoice := [owned, acquired, all].find? (·.code == n)

@[simp] theorem ofCode?_code (c : AppChoice) : ofCode? c.code = some c := by cases c <;> rfl

/-- The choices as an enumeration of a field. -/
def enumeration : Enumeration :=
  ⟨"AppChoice", [owned, acquired, all].map fun c => (c.code, c.label)⟩

end AppChoice

end Storefront
