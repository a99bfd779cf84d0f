import Storefront.Json.Skip

/-! # Archive envelopes

An archive is a JSON document of three members: the kind of record it holds, the structural versions
of that record and of those within it, and the record.  The members may come in any order, or
without names as a list of three in this order.  The versions may be missing; members of other names
are passed over.

The envelope is read without looking into the record, so that a record of another layout is refused
for its versions and not for its shape.
-/

namespace Storefront

/-- An archive of which the record has not been looked into. -/
structure ArchiveEnvelope where
  kind : String
  /-- The structural versions in the order in which they stand. -/
  versions : List (String × Nat)
  value : JsonValue

namespace ArchiveEnvelope

/-- How deep a document may be nested. -/
def maxLevels : Nat := 127

/-- The members that have been read. -/
structure Draft where
  kind : Option String := none
  versions : Option (List (String × Nat)) := none
  value : Option JsonValue := none

/-- Reads the kind of a record. -/
def kindReader : JsonReader String := .text

/-- Reads structural versions. -/
def versionsReader : JsonReader (List (String × Nat)) :=
  .container (.fail .mismatched) (.entries (.natural 0x100000000))

/-- Reads the record without looking into it. -/
def valueReader : JsonReader JsonValue := .value (maxLevels - 1)

/-- Reads a member that must not have been there before. -/
def once {α : Type} (before : Option α) (x : JsonReader α) (put : α → Draft) : JsonReader Draft :=
  match before with
  | some _ => .fail .mismatched
  | none => .memberValue (x.map put)

/-- Reads the member of a given name. -/
def member (d : Draft) (name : String) : JsonReader Draft :=
  match name with
  | "kind" => once d.kind kindReader fun kind => { d with kind := some kind }
  | "versions" =>
    once d.versions versionsReader fun versions => { d with versions := some versions }
  | "value" => once d.value valueReader fun value => { d with value := some value }
  | _ => .memberValue (JsonReader.skipped.map fun () => d)

/-- The envelope whose members have been read.  Only the versions may be missing. -/
def ofDraft (d : Draft) : Except JsonFault ArchiveEnvelope :=
  match d.kind, d.value with
  | some kind, some value => .ok ⟨kind, d.versions.getD [], value⟩
  | _, _ => .error .mismatched

/-- Reads a list of the three members, behind its bracket.  Any of them being absent is a mismatch,
an element more is not JSON of this form. -/
def ofList (s : Bytes) : Except JsonFault (ArchiveEnvelope × Bytes) := do
  let more (s : Bytes) : Except JsonFault Bytes := do
    match ← JsonReader.next (JsonScan.octet ']') s with
    | .another r => pure r
    | .done _ => .error .mismatched
  -- An empty list lacks its first member, whatever stands behind it.
  if (JsonScan.skipBlanks s).head? = some (JsonScan.octet ']') then .error .mismatched
  let (kind, s) ← kindReader.read s
  let (versions, s) ← versionsReader.read (← more s)
  let (value, s) ← valueReader.read (← more s)
  match ← JsonReader.next (JsonScan.octet ']') s with
  | .another _ => .error .malformed
  | .done r => pure (⟨kind, versions, value⟩, r)

/-- Reads an envelope.  Nothing but blanks may follow it. -/
def ofBytes (bs : Bytes) : Except JsonFault ArchiveEnvelope := do
  let (envelope, rest) ←
    match JsonScan.skipBlanks bs with
    | [] => .error .incomplete
    | b :: s =>
      if b = JsonScan.octet '[' then ofList s
      else do
        -- Whatever is neither a list nor an object is no envelope at all.
        let object := JsonReader.members member {}
        let (draft, rest) ← (JsonReader.container (.fail .malformed) object).read (b :: s)
        pure (← ofDraft draft, rest)
  if JsonScan.skipBlanks rest = [] then pure envelope else .error .malformed

end ArchiveEnvelope

end Storefront
