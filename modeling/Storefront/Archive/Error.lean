import Storefront.Json.Scan

/-! # Failures of archives -/

namespace Storefront

/-- Why an archive cannot be loaded. -/
inductive ArchiveError where
  /-- The document cannot be read, or its record has another shape. -/
  | json (fault : JsonFault)
  /-- The archive holds another kind of record. -/
  | kind (expected found : String)
  /-- A structural version differs; one that is not listed counts as zero. -/
  | structuralVersion (record : String) (expected found : Nat)
  deriving DecidableEq, Repr

namespace ArchiveError

/-- The wording of a failure.  Faults of documents have none. -/
def message? : ArchiveError → Option String
  | json _ => none
  | kind expected found => some s!"archive holds a {found}, expected a {expected}"
  | structuralVersion record expected found =>
    some s!"{record}: archived structural version {found}, this build reads {expected}"

/-- A short name for what went wrong, the same for all failures of one kind. -/
def label : ArchiveError → String
  | json .incomplete => "Json/Eof"
  | json .malformed => "Json/Syntax"
  | json .mismatched => "Json/Data"
  | kind .. => "Kind"
  | structuralVersion .. => "StructuralVersion"

end ArchiveError

end Storefront
