import Storefront.Version.Record

/-! # Negotiated versions

The context of a connection holds the version record agreed upon for each family, as far as there is
one.  What a message carries on the wire depends on it.

* `negotiated_set_self`, `negotiated_set_of_ne`  what installing a record changes
-/

namespace Storefront

/-- The version records negotiated on one connection. -/
structure Context where
  core : Option (VersionRecord .core)
  auth : Option (VersionRecord .auth)
  main : Option (VersionRecord .main)
  /-- Asks for skipped fields to be logged more loudly; it has no effect on any value. -/
  logUnknownTags : Bool
  deriving DecidableEq, Repr

namespace Context

/-- A context in which nothing has been negotiated. -/
def empty : Context := ⟨none, none, none, false⟩

/-- The record negotiated for a family, if there is one. -/
def negotiated (ctx : Context) : (family : Family) → Option (VersionRecord family)
  | .core => ctx.core
  | .auth => ctx.auth
  | .main => ctx.main

/-- Installs the record of a family in place of any earlier one. -/
def set (ctx : Context) : {family : Family} → VersionRecord family → Context
  | .core, r => { ctx with core := some r }
  | .auth, r => { ctx with auth := some r }
  | .main, r => { ctx with main := some r }

/-- The record negotiated for a family, or the one this build advertises. -/
def negotiatedOrLocal (ctx : Context) (family : Family) : VersionRecord family :=
  (ctx.negotiated family).getD (VersionRecord.ofLocal family)

/-- True when a record has been negotiated for a family. -/
def has (ctx : Context) (family : Family) : Bool := (ctx.negotiated family).isSome

/-- The names of the families with a negotiated record, sorted. -/
def familyNames (ctx : Context) : List String :=
  ([Family.auth, .core, .main].filter ctx.has).map Family.name

/-- The context in which every family negotiated the records of this build. -/
def ofLocal : Context :=
  ⟨some (.ofLocal .core), some (.ofLocal .auth), some (.ofLocal .main), false⟩

@[simp] theorem negotiated_empty (family : Family) : empty.negotiated family = none := by
  cases family <;> rfl

@[simp] theorem negotiated_set_self (ctx : Context) {family : Family}
    (r : VersionRecord family) : (ctx.set r).negotiated family = some r := by
  cases family <;> rfl

theorem negotiated_set_of_ne (ctx : Context) {family other : Family}
    (r : VersionRecord family) (h : other ≠ family) :
    (ctx.set r).negotiated other = ctx.negotiated other := by
  cases family <;> cases other <;> first | rfl | exact absurd rfl h

end Context

end Storefront
