/-! # Version records

Each protocol family has a version record: the revision of the record itself and one counter for
every gated feature.  Two peers agree on a feature when their counters for it agree.  A record of a
newer revision than this build knows is cleared, so that every feature in it reads as unsupported.

Records are compared component by component (`VersionRecord.compare`); two records of which each is
ahead somewhere cannot be compared.
-/

namespace Storefront

/-- The protocol families, each with a version record of its own. -/
inductive Family where
  /-- Replies to session setup, login and generic responses. -/
  | core
  /-- Account management before login. -/
  | auth
  /-- The store itself. -/
  | main
  deriving DecidableEq, Repr

namespace Family

/-- All families in order of their numbers. -/
def all : List Family := [core, auth, main]

/-- The name of a family. -/
def name : Family → String
  | core => "core"
  | auth => "auth"
  | main => "main"

/-- The number of a family in message keys. -/
def id : Family → UInt8
  | core => 0
  | auth => 1
  | main => 2

/-- The gated features of a family in the order of their counters. -/
def features : Family → List String
  | core => ["auth_request", "auth_response", "init_response", "response"]
  | auth => ["init_request"]
  | main => ["init_request"]

end Family

/-- The version record of a family. -/
structure VersionRecord (family : Family) where
  /-- The revision of the record. -/
  version : UInt32
  /-- One counter for every gated feature. -/
  counters : List UInt32
  length_counters : counters.length = family.features.length
  deriving DecidableEq, Repr

namespace VersionRecord

variable {family : Family}

/-- The counter that marks a feature as absent or not understood. -/
def unsupported : UInt32 := 4294967295

/-- The newest revision this build understands. -/
def localMax : UInt32 := 1

/-- The record this build advertises: the newest revision, every feature in its first form. -/
def ofLocal (family : Family) : VersionRecord family :=
  ⟨localMax, List.replicate family.features.length 1, by simp⟩

/-- A record with the given version and the first counters; missing counters are unsupported. -/
def ofCounters (family : Family) (version : UInt32) (counters : List UInt32) :
    VersionRecord family :=
  ⟨version,
    (counters ++ List.replicate family.features.length unsupported).take family.features.length,
    by simp⟩

/-- The components of a record: its revision and then its counters. -/
def components (r : VersionRecord family) : List UInt32 := r.version :: r.counters

/-- The features of a record with their counters. -/
def namedCounters (r : VersionRecord family) : List (String × UInt32) :=
  family.features.zip r.counters

/-- The counter of a feature, given by name. -/
def counter? (r : VersionRecord family) (feature : String) : Option UInt32 :=
  r.namedCounters.lookup feature

/-- The record with every feature marked unsupported. -/
def clear (r : VersionRecord family) : VersionRecord family :=
  ⟨r.version, r.counters.map fun _ => unsupported, by simp [r.length_counters]⟩

/-- True when no feature of the record is supported. -/
def isCleared (r : VersionRecord family) : Bool := r.counters.all (· == unsupported)

/-- True when the record can be negotiated with: this build understands its revision and at least
one feature is supported. -/
def isSupported (r : VersionRecord family) : Bool := r.version ≤ localMax && !r.isCleared

/-- How two runs of components compare, given how those before them did. -/
def compareFrom : Ordering → List UInt32 → List UInt32 → Option Ordering
  | order, a :: as, b :: bs =>
    match Ord.compare a.toNat b.toNat with
    | .eq => compareFrom order as bs
    -- Ahead here and behind there is neither before nor after.
    | here =>
      if order = .eq ∨ order = here then compareFrom here as bs else none
  | order, _, _ => some order

/-- How two records compare component by component; `none` when each is ahead somewhere. -/
def compare (a b : VersionRecord family) : Option Ordering :=
  compareFrom .eq a.components b.components

/-- True when no component of `a` is above that of `b`: what was introduced at `a` may be exchanged
with `b`. -/
def isSatisfiedBy (a b : VersionRecord family) : Bool :=
  match compare a b with
  | some .lt | some .eq => true
  | _ => false

@[simp] theorem components_clear (r : VersionRecord family) :
    r.clear.components = r.version :: r.counters.map fun _ => unsupported := rfl

@[simp] theorem isCleared_clear (r : VersionRecord family) : r.clear.isCleared = true := by
  simp [isCleared, clear]

@[simp] theorem isSupported_clear (r : VersionRecord family) : r.clear.isSupported = false := by
  simp [isSupported]

end VersionRecord

end Storefront
