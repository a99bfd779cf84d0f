/-! # Configuration flags and file ranges

The flags of an installable variant of a build, each a bit with a name, and the range of a file that
one fetch serves.
-/

namespace Storefront

namespace ConfigurationFlags

/-- The names of the flags in order of their bits. -/
def names : List String := ["HiddenDirectory"]

/-- The bit of the flag with a given name, in upper or lower case; zero if there is none. -/
def bit (name : String) : Nat :=
  match names.findIdx? (·.toLower == name.toLower) with
  | some index => 1 <<< index
  | none => 0

/-- The bits of all named flags. -/
def ofNames (names : List String) : Nat := names.foldl (fun flags name => flags ||| bit name) 0

/-- The names of the flags that are set. -/
def toNames (flags : Nat) : List String :=
  (names.zipIdx.filter fun (_, index) => flags.testBit index).map (·.1)

/-- True when the variant is to be installed into a hidden directory. -/
def hasHiddenDirectory (flags : Nat) : Bool := flags.testBit 0

end ConfigurationFlags

/-- A range of a file. -/
structure FileRange where
  offset : Nat
  size : Nat
  deriving DecidableEq, Repr

namespace FileRange

/-- Where a range ends.  No range reaches beyond the largest offset. -/
def stop (r : FileRange) : Nat := Nat.min (r.offset + r.size) 0xFFFFFFFFFFFFFFFF

end FileRange

end Storefront
