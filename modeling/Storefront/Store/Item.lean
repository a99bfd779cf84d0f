import Storefront.Schema.Type

/-! # Application items

The builds and media of an application.  An item has a release state, a kind and flags, packed into
one word: the state in its lowest eight bits, the kind in the next four, the flags in the 52 above
them.

* `unpack_pack`, `pack_unpack`  the parts of a word can be read back, and make up the word
-/

namespace Storefront

/-- The release states of an item. -/
inductive AppItemState where
  | invalid
  | trash
  | privateAlpha
  | reviewRequest
  | reviewStarted
  | reviewAccepted
  | reviewRejected
  | publicAlpha
  | publicBeta
  | publicRelease
  deriving DecidableEq, Repr

namespace AppItemState

/-- All states in order of their numbers. -/
def all : List AppItemState :=
  [invalid, trash, privateAlpha, reviewRequest, reviewStarted, reviewAccepted, reviewRejected,
    publicAlpha, publicBeta, publicRelease]

/-- The number of a state. -/
def code : AppItemState → UInt8
  | invalid => 0
  | trash => 1
  | privateAlpha => 2
  | reviewRequest => 3
  | reviewStarted => 4
  | reviewAccepted => 5
  | reviewRejected => 6
  | publicAlpha => 7
  | publicBeta => 8
  | publicRelease => 9

/-- The state with a given number. -/
def ofCode? (n : UInt8) : Option AppItemState := all.find? (·.code == n)

/-- The name of a state in listings. -/
def name : AppItemState → String
  | invalid => "none"
  | trash => "trash"
  | privateAlpha => "private_alpha"
  | reviewRequest => "review_request"
  | reviewStarted => "review_started"
  | reviewAccepted => "review_accepted"
  | reviewRejected => "review_rejected"
  | publicAlpha => "public_alpha"
  | publicBeta => "public_beta"
  | publicRelease => "public_release"

/-- The name of a state in dumps. -/
def label : AppItemState → String
  | invalid => "Invalid"
  | trash => "Trash"
  | privateAlpha => "PrivateAlpha"
  | reviewRequest => "ReviewRequest"
  | reviewStarted => "ReviewStarted"
  | reviewAccepted => "ReviewAccepted"
  | reviewRejected => "ReviewRejected"
  | publicAlpha => "PublicAlpha"
  | publicBeta => "PublicBeta"
  | publicRelease => "PublicRelease"

/-- The state with a given name. -/
def ofName? (name : String) : Option AppItemState := all.find? (·.name == name)

/-- True for the states in which everybody sees the item. -/
def isPublic : AppItemState → Bool
  | publicAlpha | publicBeta | publicRelease => true
  | _ => false

/-- True for the states whose names are no free names of items and are not public. -/
def isReserved : AppItemState → Bool
  | invalid | trash | privateAlpha => true
  | _ => false

@[simp] theorem ofCode?_code (s : AppItemState) : ofCode? s.code = some s := by cases s <;> rfl

@[simp] theorem ofName?_name (s : AppItemState) : ofName? s.name = some s := by
  cases s <;> decide

/-- The states as an enumeration of a field. -/
def enumeration : Enumeration := ⟨"AppItemState", all.map fun s => (s.code.toNat, s.label)⟩

end AppItemState

/-- True for the names of the public release states. -/
def isDefaultPublicName (name : String) : Bool :=
  (AppItemState.ofName? name).any AppItemState.isPublic

/-- True for the names that cannot be given to an item freely. -/
def isDefaultName (name : String) : Bool :=
  isDefaultPublicName name || (AppItemState.ofName? name).any AppItemState.isReserved

/-- The flags of an item, each with a bit of its own. -/
inductive AppItemFlag where
  | reviewAccepted
  | reviewRejected
  deriving DecidableEq, Repr

namespace AppItemFlag

/-- The name of a flag. -/
def name : AppItemFlag → String
  | reviewAccepted => "ReviewAccepted"
  | reviewRejected => "ReviewRejected"

/-- The bit of a flag. -/
def bit : AppItemFlag → UInt64
  | reviewAccepted => 1
  | reviewRejected => 2

/-- The flag with a given name, in upper or lower case. -/
def ofName? (name : String) : Option AppItemFlag :=
  [reviewAccepted, reviewRejected].find? (·.name.toLower == name.toLower)

end AppItemFlag

/-- What an item is. -/
inductive AppItemKind where
  | build
  | media
  deriving DecidableEq, Repr

namespace AppItemKind

/-- The number of a kind. -/
def code : AppItemKind → UInt8
  | build => 0
  | media => 1

/-- The name of a kind in dumps. -/
def label : AppItemKind → String
  | build => "Build"
  | media => "Media"

/-- The kind with a given number. -/
def ofCode? (n : UInt8) : Option AppItemKind := [build, media].find? (·.code == n)

@[simp] theorem ofCode?_code (k : AppItemKind) : ofCode? k.code = some k := by cases k <;> rfl

end AppItemKind

/-- An item of an application: its name, and its state, kind and flags in one word. -/
structure AppItemEntry where
  name : String
  word : UInt64
  deriving DecidableEq, Repr

namespace AppItemEntry

/-- Packs a state, a kind and flags.  Bits that do not fit their part are dropped. -/
def pack (state kind : UInt8) (flags : UInt64) : UInt64 :=
  (state.toNat + kind.toNat % 0x10 * 0x100 + flags.toNat % 0x10000000000000 * 0x1000).toUInt64

/-- The state, kind and flags of a word. -/
def unpack (word : UInt64) : UInt8 × UInt8 × UInt64 :=
  (word.toNat.toUInt8, (word.toNat / 0x100 % 0x10).toUInt8, (word.toNat / 0x1000).toUInt64)

theorem unpack_pack (state kind : UInt8) (flags : UInt64) :
    unpack (pack state kind flags) =
      (state, (kind.toNat % 0x10).toUInt8, (flags.toNat % 0x10000000000000).toUInt64) := by
  have hs := state.toNat_lt
  -- The three parts do not overlap, so the word does not wrap.
  have hw : (pack state kind flags).toNat =
      state.toNat + kind.toNat % 0x10 * 0x100 + flags.toNat % 0x10000000000000 * 0x1000 := by
    simp only [pack, Nat.toUInt64_eq, UInt64.toNat_ofNat']
    omega
  simp only [unpack, hw, Prod.mk.injEq]
  refine ⟨?_, ?_, ?_⟩
  · apply UInt8.toNat_inj.1; simp only [Nat.toUInt8_eq, UInt8.toNat_ofNat']; omega
  · apply UInt8.toNat_inj.1; simp only [Nat.toUInt8_eq, UInt8.toNat_ofNat']; omega
  · apply UInt64.toNat_inj.1; simp only [Nat.toUInt64_eq, UInt64.toNat_ofNat']; omega

theorem pack_unpack (word : UInt64) :
    pack (unpack word).1 (unpack word).2.1 (unpack word).2.2 = word := by
  have hw := word.toNat_lt
  apply UInt64.toNat_inj.1
  simp only [pack, unpack, Nat.toUInt64_eq, UInt64.toNat_ofNat', Nat.toUInt8_eq,
    UInt8.toNat_ofNat']
  omega

/-- The number of the item's state. -/
def rawState (e : AppItemEntry) : UInt8 := (unpack e.word).1

/-- The number of the item's kind. -/
def rawKind (e : AppItemEntry) : UInt8 := (unpack e.word).2.1

/-- The item's flags. -/
def flags (e : AppItemEntry) : UInt64 := (unpack e.word).2.2

/-- The item's state, if this build knows it. -/
def state? (e : AppItemEntry) : Option AppItemState := AppItemState.ofCode? e.rawState

/-- The item's kind, if this build knows it. -/
def kind? (e : AppItemEntry) : Option AppItemKind := AppItemKind.ofCode? e.rawKind

/-- The item in another state. -/
def setState (e : AppItemEntry) (state : AppItemState) : AppItemEntry :=
  { e with word := pack state.code e.rawKind e.flags }

/-- The item as another kind. -/
def setKind (e : AppItemEntry) (kind : AppItemKind) : AppItemEntry :=
  { e with word := pack e.rawState kind.code e.flags }

/-- The item with other flags. -/
def setFlags (e : AppItemEntry) (flags : UInt64) : AppItemEntry :=
  { e with word := pack e.rawState e.rawKind flags }

/-- The item with a flag added. -/
def setFlag (e : AppItemEntry) (flag : AppItemFlag) : AppItemEntry :=
  e.setFlags (e.flags ||| flag.bit)

/-- The item without a flag. -/
def resetFlag (e : AppItemEntry) (flag : AppItemFlag) : AppItemEntry :=
  e.setFlags (e.flags &&& ~~~flag.bit)

/-- True when the item has a flag. -/
def isFlagSet (e : AppItemEntry) (flag : AppItemFlag) : Bool := e.flags &&& flag.bit != 0

/-- A build without flags. -/
def new (name : String) (state : AppItemState) : AppItemEntry :=
  setState ⟨name, 0⟩ state

/-- The item as a value: a record of its name and its word. -/
def toFields (e : AppItemEntry) : List Value := [.text e.name, .number e.word.toNat]

/-- The item that the fields of a record describe. -/
def ofFields (fields : List Value) : AppItemEntry :=
  ⟨(fields[0]?.getD default).toText, (fields[1]?.getD default).toNumber.toUInt64⟩

@[simp] theorem ofFields_toFields (e : AppItemEntry) : ofFields e.toFields = e := by
  cases e; simp [ofFields, toFields]

end AppItemEntry

end Storefront
