import Storefront.Schema.Stream

/-! # Values

A value of a field.  Which kind a field holds is laid down by its type (`ValueType`); a record holds
its fields in the order in which its layout declares them, those of groups in their place.
-/

namespace Storefront

/-- A value of a field. -/
inductive Value where
  /-- An unsigned number, a result code, a member of an enumeration or a set of options. -/
  | number (n : Nat)
  | signed (i : Int)
  | flag (b : Bool)
  /-- A text or a secret. -/
  | text (s : String)
  | blob (bs : Bytes)
  | stream (field : StreamField)
  | list (items : List Value)
  | pair (first second : Value)
  | record (fields : List Value)

namespace Value

instance : Inhabited Value := ⟨.number 0⟩

/-- The number a value holds; zero for a value that holds none. -/
def toNumber : Value → Nat
  | number n => n
  | _ => 0

/-- The fields a value holds; none for a value that is no record. -/
def fields : Value → List Value
  | record fields => fields
  | _ => []

/-- The text a value holds; empty for a value that holds none. -/
def toText : Value → String
  | text s => s
  | _ => ""

/-- The elements a value holds; none for a value that is no collection. -/
def items : Value → List Value
  | list items => items
  | _ => []

@[simp] theorem toNumber_number (n : Nat) : (number n).toNumber = n := rfl
@[simp] theorem fields_record (fs : List Value) : (record fs).fields = fs := rfl
@[simp] theorem toText_text (s : String) : (text s).toText = s := rfl
@[simp] theorem items_list (vs : List Value) : (list vs).items = vs := rfl

mutual

/-- True when two values are the same; streams are when they have received the same. -/
def same : Value → Value → Bool
  | number a, number b => a == b
  | signed a, signed b => a == b
  | flag a, flag b => a == b
  | text a, text b => a == b
  | blob a, blob b => a == b
  | stream a, stream b => a.same b
  | list as, list bs => sameAll as bs
  | pair a₁ a₂, pair b₁ b₂ => same a₁ b₁ && same a₂ b₂
  | record as, record bs => sameAll as bs
  | _, _ => false

/-- True when two lists hold the same values in the same places. -/
def sameAll : List Value → List Value → Bool
  | [], [] => true
  | a :: as, b :: bs => same a b && sameAll as bs
  | _, _ => false

end

end Value

end Storefront
