import Storefront.Schema.Builder

/-! # Version records as values

A version record is a record of its revision and, as long as that is the revision this build knows,
its counters.  A record of a newer revision is cleared once it has been read, whatever was read; of
an older one only the revision is read, and the counters stay as they were.

* `ofFields_toFields`  a version record can be had back from its fields
-/

namespace Storefront

namespace VersionRecord

variable {family : Family}

/-- The fields of a version record. -/
def toFields (r : VersionRecord family) : List Value :=
  r.components.map fun c => .number c.toNat

/-- A version record as the value of a field. -/
def toValue (r : VersionRecord family) : Value := .record r.toFields

/-- The version record that the fields of a record describe. -/
def ofFields (fields : List Value) : VersionRecord family :=
  let components := fields.map fun v => v.toNumber.toUInt32
  .ofCounters family (components.headD unsupported) components.tail

/-- The version record that a value describes. -/
def ofValue (v : Value) : VersionRecord family := ofFields v.fields

@[simp] theorem ofFields_toFields (r : VersionRecord family) : ofFields r.toFields = r := by
  cases r with
  | mk version counters h =>
    -- A counter comes back from the number it was written as.
    have hc : (counters.map fun c => c.toNat.toUInt32) = counters := by simp
    simp [ofFields, toFields, components, ofCounters, Function.comp_def, h]

@[simp] theorem ofValue_toValue (r : VersionRecord family) : ofValue r.toValue = r :=
  ofFields_toFields r

/-- Clears the counters of a record that is newer than this build. -/
def clamp : Hook := fun fields _ =>
  match fields with
  | [] => .ok []
  | version :: counters =>
    if localMax.toNat < version.toNumber then
      .ok (version :: counters.map fun _ => .number unsupported.toNat)
    else .ok fields

/-- True when a record has the revision whose counters are written. -/
def countersPresent : Guard := fun fields _ => Layout.number fields 0 == localMax.toNat

/-- The fields of version records.  The counters are numbered from 3. -/
def layout (family : Family) : Layout :=
  .build [
    .starting 1 "version" (.unsigned .u32) (.number localMax.toNat),
    .grouped "features" countersPresent
      (family.features.mapIdx fun i name =>
        .starting (i + 3) name (.unsigned .u32) (.number 1))]

/-- The type of version records. -/
def recordType (family : Family) : RecordType := ⟨"Version", layout family, some clamp⟩

@[simp] theorem initials_layout (family : Family) :
    (layout family).initials = (ofLocal family).toFields := by
  cases family <;> rfl

end VersionRecord

end Storefront
