import Storefront.Schema.Type

/-! # Fetch options

The parts of a build's configuration that a client can ask for, as a set in one word.
-/

namespace Storefront

/-- A part of a configuration. -/
inductive FetchOption where
  | name
  | directory
  | flags
  | oses
  | mounts
  | exes
  | shortcuts
  | image
  | media
  deriving DecidableEq, Repr

namespace FetchOption

/-- All parts in order of their bits. -/
def all : List FetchOption :=
  [name, directory, flags, oses, mounts, exes, shortcuts, image, media]

/-- The number of a part's bit. -/
def index : FetchOption → Nat
  | name => 0
  | directory => 1
  | flags => 2
  | oses => 3
  | mounts => 4
  | exes => 5
  | shortcuts => 6
  | image => 7
  | media => 8

/-- What a part is called. -/
def text : FetchOption → String
  | name => "name"
  | directory => "directory"
  | flags => "flags"
  | oses => "oses"
  | mounts => "mounts"
  | exes => "exes"
  | shortcuts => "shortcuts"
  | image => "image"
  | media => "media"

/-- The part that is called so, in upper or lower case. -/
def ofText? (s : String) : Option FetchOption := all.find? (·.text.toLower == s.toLower)

end FetchOption

/-- A set of parts.  Bits that stand for no part are kept as they are. -/
structure FetchOptions where
  bits : Nat
  deriving DecidableEq, Repr

namespace FetchOptions

/-- No part. -/
def empty : FetchOptions := ⟨0⟩

/-- Every part. -/
def all : FetchOptions := ⟨optionsMask⟩

/-- True when a part is in the set. -/
def has (s : FetchOptions) (o : FetchOption) : Bool := s.bits.testBit o.index

/-- The set with a part added. -/
def set (s : FetchOptions) (o : FetchOption) : FetchOptions := ⟨s.bits ||| (1 <<< o.index)⟩

/-- The set without a part. -/
def reset (s : FetchOptions) (o : FetchOption) : FetchOptions :=
  if s.has o then ⟨s.bits - (1 <<< o.index)⟩ else s

/-- True when no bit is set. -/
def isEmpty (s : FetchOptions) : Bool := s.bits == 0

/-- The parts in the set, in order. -/
def toList (s : FetchOptions) : List FetchOption := FetchOption.all.filter s.has

/-- The set of the given parts. -/
def ofList (os : List FetchOption) : FetchOptions := os.foldl set empty

@[simp] theorem has_empty (o : FetchOption) : empty.has o = false := by simp [has, empty]

@[simp] theorem has_set_self (s : FetchOptions) (o : FetchOption) : (s.set o).has o = true := by
  simp [has, set]

end FetchOptions

end Storefront
