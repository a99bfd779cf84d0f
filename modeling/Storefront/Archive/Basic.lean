import Storefront.Archive.Envelope
import Storefront.Archive.Error
import Storefront.Archive.Value
import Storefront.Store.Record

/-! # Archives

Records are kept as JSON documents together with their structural versions.  Archives are read by
the build that wrote them: a version that differs means that the archive is damaged, and it is
reported before the record is looked into.
-/

namespace Storefront

/-- Writes the fields of a record as an archive. -/
def DomainRecord.store (r : DomainRecord) (fields : List Value) : Bytes :=
  JsonValue.write (.object
    [("kind", .text r.name),
      ("versions", .object (r.versions.map fun (name, version) => (name, .natural version))),
      ("value", r.type.toJson (.record fields))])

namespace ArchiveEnvelope

/-- The structural version of a record that an archive lists.  Of several the last one counts. -/
def version? (e : ArchiveEnvelope) (record : String) : Option Nat :=
  e.versions.reverse.lookup record

/-- The first of the expected versions that an archive does not have. -/
def differing (e : ArchiveEnvelope) : List (String × Nat) → Option ArchiveError
  | [] => none
  | (record, version) :: rest =>
    -- No version is zero, so a version that is not listed differs.
    let found := (e.version? record).getD 0
    if found = version then e.differing rest
    else some (.structuralVersion record version found)

/-- The name that is first in the alphabet. -/
def firstName : List String → Option String
  | [] => none
  | name :: names =>
    match firstName names with
    | some other => some (if other < name then other else name)
    | none => some name

/-- The first in the alphabet of the records that are listed but not expected. -/
def surplus (e : ArchiveEnvelope) (expected : List (String × Nat)) : Option ArchiveError :=
  let names := (e.versions.map (·.1)).filter fun name => (expected.lookup name).isNone
  (firstName names).map fun name => .structuralVersion name 0 ((e.version? name).getD 0)

/-- Refuses an archive of another kind, and then one that does not list exactly the structural
versions of the record. -/
def check (r : DomainRecord) (e : ArchiveEnvelope) : Except ArchiveError Unit :=
  if e.kind ≠ r.name then .error (.kind r.name e.kind)
  else
    match (e.differing r.versions).or (e.surplus r.versions) with
    | some error => .error error
    | none => .ok ()

/-- The fields of the record in an archive that has been checked. -/
def fields (r : DomainRecord) (e : ArchiveEnvelope) : Except ArchiveError (List Value) :=
  match r.type.ofJson? e.value with
  | some v => .ok v.fields
  | none => .error (.json .mismatched)

end ArchiveEnvelope

/-- Reads the fields of a record from an archive. -/
def DomainRecord.load (r : DomainRecord) (archive : Bytes) : Except ArchiveError (List Value) := do
  let envelope ← (ArchiveEnvelope.ofBytes archive).mapError .json
  envelope.check r
  envelope.fields r

end Storefront
