import Storefront.Proofs.Schema.Scalar
import Storefront.Schema.Body
import Storefront.Version.Layout

/-! # Version records as they are read

A record that is read into another one takes over the revision first.  What becomes of the counters
is up to that revision: of a newer record none is trusted, of an older one none is there, and only
of a record of this build's own revision they are read.

* `Gives`, `GivesAll`         what a body says under tags of 32 bits
* `decodeIndexed_of_newer`, `decodeIndexed_of_older`, `decodeIndexed_of_local`
* `exists_of_decodeIndexed`   what has been read is a version record again
-/

namespace Storefront

/-- Numbers of 32 bits as values. -/
def Value.numbers (cs : List UInt32) : List Value := cs.map fun c => .number c.toNat

namespace FieldIndex

variable {index : FieldIndex}

/-- What a body says under a tag of 32 bits where `old` has been before: a number, or nothing. -/
def Gives (index : FieldIndex) (tag : Nat) (old new : UInt32) : Prop :=
  match index.find? tag with
  | none => new = old
  | some raw => raw.type = .varint ∧ ∃ c, Cursor.varint raw.cursor = .ok new.toNat c

/-- What a body says under a run of tags. -/
def GivesAll (index : FieldIndex) : (tag : Nat) → (olds news : List UInt32) → Prop
  | _, [], [] => True
  | tag, old :: olds, new :: news => index.Gives tag old new ∧ index.GivesAll (tag + 1) olds news
  | _, _, _ => False

/-- `GivesAll` speaks of as many numbers as there were. -/
theorem GivesAll.length_eq {tag : Nat} {olds news : List UInt32}
    (h : index.GivesAll tag olds news) : news.length = olds.length := by
  induction olds generalizing tag news with
  | nil =>
    cases news with
    | nil => rfl
    | cons new news => cases h
  | cons old olds ih =>
    cases news with
    | nil => cases h
    | cons new news => rw [List.length_cons, List.length_cons, ih h.2]

/-- A body `Gives` one thing only. -/
theorem Gives.unique {tag : Nat} {old new new' : UInt32} (h : index.Gives tag old new)
    (h' : index.Gives tag old new') : new = new' := by
  unfold Gives at h h'
  cases hfind : index.find? tag with
  | none =>
    rw [hfind] at h h'
    rw [h, h']
  | some raw =>
    rw [hfind] at h h'
    -- The same octets are read as one number.
    obtain ⟨-, c, hc⟩ := h
    obtain ⟨-, c', hc'⟩ := h'
    rw [hc, EStateM.Result.ok.injEq] at hc'
    exact UInt32.toNat_inj.1 hc'.1

end FieldIndex

/-! ## Numbers of 32 bits -/

namespace Layout

variable {about : FieldMeta} {initial : Value} {rest : Layout} {ctx : Context} {index : FieldIndex}
variable {slot : Nat} {fields : List Value} {old new : UInt32}

/-- `set` of a field to what it holds changes nothing. -/
theorem set_of_getElem? {v : Value} (h : fields[slot]? = some v) : fields.set slot v = fields := by
  obtain ⟨hlt, hget⟩ := List.getElem?_eq_some_iff.1 h
  rw [← hget, List.set_getElem_self]

/-- `decode` of a field goes on with what the body `Gives` in place of what has been there. -/
theorem decode_of_gives (hold : fields[slot]? = some (.number old.toNat))
    (h : index.Gives about.tag old new) :
    (field about (.unsigned .u32) initial rest).decode ctx index slot fields =
      rest.decode ctx index (slot + 1) (fields.set slot (.number new.toNat)) := by
  unfold FieldIndex.Gives at h
  cases hfind : index.find? about.tag with
  | none =>
    rw [hfind] at h
    subst h
    -- The tag is absent, and the old number stays.
    rw [set_of_getElem? hold]
    simp only [decode, hfind]
  | some raw =>
    rw [hfind] at h
    obtain ⟨htype, c, hread⟩ := h
    have hexpect : raw.expect .varint = .ok () := if_pos htype
    have hfit : Width.u32.admits new.toNat = true := decide_eq_true new.toNat_lt
    -- The number has 32 bits, so its width admits it.
    have hbody : (ValueType.unsigned .u32).decodeBody about ctx (.number old.toNat) raw.cursor =
        ⟨.number new.toNat, c, .ok ()⟩ := by
      simp only [ValueType.decodeBody, decodeNumber, hread, decodeUnsigned, hfit, if_true]
    simp only [decode, hfind, ValueType.wireType, hexpect, hold, Option.getD_some, hbody]

/-- `decode` of a field succeeds only where the body `Gives` a number of 32 bits, or none. -/
theorem gives_of_decode (hold : fields[slot]? = some (.number old.toNat))
    (h : ((field about (.unsigned .u32) initial rest).decode ctx index slot fields).2 = .ok ()) :
    ∃ new, index.Gives about.tag old new := by
  unfold FieldIndex.Gives
  cases hfind : index.find? about.tag with
  | none => exact ⟨old, rfl⟩
  | some raw =>
    by_cases htype : raw.type = .varint
    · have hexpect : raw.expect .varint = .ok () := if_pos htype
      simp only [decode, hfind, ValueType.wireType, hexpect, hold, Option.getD_some,
        ValueType.decodeBody] at h
      cases hread : Cursor.varint raw.cursor with
      | error e c => simp [decodeNumber, hread] at h
      | ok n c =>
        by_cases hfit : Width.u32.admits n = true
        · -- Its width has admitted the number, so it is one of 32 bits.
          have hlt : n < 2 ^ 32 := of_decide_eq_true hfit
          refine ⟨n.toUInt32, htype, c, ?_⟩
          rw [hread, Nat.toUInt32_eq, UInt32.toNat_ofNat_of_lt' hlt]
        · simp [decodeNumber, hread, decodeUnsigned, hfit] at h
    · -- Any other wire type would have been refused.
      have hexpect : raw.expect .varint = .error (.wireTypeMismatch raw.tag .varint raw.type) :=
        if_neg htype
      simp [decode, hfind, ValueType.wireType, hexpect] at h

/-- Fields of 32 bits under successive tags. -/
def counters (names : List String) (tag : Nat) : Layout :=
  .build (names.mapIdx fun i name => .starting (i + tag) name (.unsigned .u32) (.number 1))

/-- `counters` with the first one under the first tag, and the others behind it. -/
theorem counters_cons (name : String) (names : List String) (tag : Nat) :
    counters (name :: names) tag =
      field (.plain tag name) (.unsigned .u32) (.number 1) (counters names (tag + 1)) := by
  have hshift : ∀ i, i + 1 + tag = i + (tag + 1) := fun i => by omega
  simp [counters, build, starting, List.mapIdx_cons, hshift]

/-- A run of numbers is read behind those that have been read (`done`). -/
theorem decode_counters {names : List String} {tag : Nat} (done : List UInt32)
    {olds news : List UInt32}
    (hlength : olds.length = names.length) (h : index.GivesAll tag olds news) :
    (counters names tag).decode ctx index done.length (Value.numbers (done ++ olds)) =
      (Value.numbers (done ++ news), .ok ()) := by
  induction names generalizing tag done olds news with
  | nil =>
    obtain rfl : olds = [] := List.eq_nil_of_length_eq_zero hlength
    obtain rfl : news = [] := List.eq_nil_of_length_eq_zero h.length_eq
    rfl
  | cons name names ih =>
    cases olds with
    | nil => cases hlength
    | cons old olds =>
      cases news with
      | nil => cases h
      | cons new news =>
        have hold : (Value.numbers (done ++ old :: olds))[done.length]? =
            some (.number old.toNat) := by
          simp [Value.numbers]
        -- The number goes into the place behind those that are done.
        have hset : (Value.numbers (done ++ old :: olds)).set done.length (.number new.toNat) =
            Value.numbers ((done ++ [new]) ++ olds) := by
          simp [Value.numbers, List.set_append_right]
        have hnext := ih (done ++ [new]) (Nat.succ.inj hlength) h.2
        rw [List.length_append, List.length_singleton] at hnext
        rw [counters_cons, decode_of_gives hold h.1, hset, hnext, List.append_assoc]
        rfl

/-- `decode` of a run of fields succeeds only where the body `GivesAll` of them. -/
theorem givesAll_of_decode {names : List String} {tag : Nat} (done : List UInt32)
    {olds : List UInt32}
    (hlength : olds.length = names.length)
    (h : ((counters names tag).decode ctx index done.length (Value.numbers (done ++ olds))).2 =
      .ok ()) : ∃ news, index.GivesAll tag olds news := by
  induction names generalizing tag done olds with
  | nil =>
    obtain rfl : olds = [] := List.eq_nil_of_length_eq_zero hlength
    exact ⟨[], trivial⟩
  | cons name names ih =>
    cases olds with
    | nil => cases hlength
    | cons old olds =>
      have hold : (Value.numbers (done ++ old :: olds))[done.length]? =
          some (.number old.toNat) := by
        simp [Value.numbers]
      rw [counters_cons] at h
      -- The first number has been read, and then the others behind it.
      obtain ⟨new, hnew⟩ := gives_of_decode hold h
      have hset : (Value.numbers (done ++ old :: olds)).set done.length (.number new.toNat) =
          Value.numbers ((done ++ [new]) ++ olds) := by
        simp [Value.numbers, List.set_append_right]
      rw [decode_of_gives hold hnew, hset] at h
      obtain ⟨news, hnews⟩ := ih (done ++ [new]) (Nat.succ.inj hlength) (by
        rw [List.length_append, List.length_singleton]
        exact h)
      exact ⟨new :: news, hnew, hnews⟩

end Layout

/-! ## Records -/

namespace VersionRecord

open Layout

variable {family : Family} {ctx : Context} {index : FieldIndex} {r : VersionRecord family}
variable {v : UInt32}

/-- `toFields` are the revision and the counters. -/
theorem toFields_eq (r : VersionRecord family) :
    r.toFields = Value.numbers (r.version :: r.counters) := rfl

/-- `layout` of a version record: the revision under 1, and counters from 3 on when these
are present. -/
theorem layout_eq (family : Family) :
    layout family = field (.plain 1 "version") (.unsigned .u32) (.number localMax.toNat)
      (group "features" countersPresent (Layout.counters family.features 3) .nil) := rfl

/-- The record with another revision. -/
def withVersion (r : VersionRecord family) (v : UInt32) : VersionRecord family :=
  { r with version := v }

/-- The record with other counters. -/
def withCounters (r : VersionRecord family) (cs : List UInt32)
    (h : cs.length = r.counters.length) : VersionRecord family :=
  ⟨r.version, cs, h.trans r.length_counters⟩

/-- `countersPresent` is true of this build's revision. -/
theorem countersPresent_iff {cs : List UInt32} :
    countersPresent (Value.numbers (v :: cs)) ctx = true ↔ v = localMax := by
  have hnumber : number (Value.numbers (v :: cs)) 0 = v.toNat := rfl
  simp only [countersPresent, hnumber, beq_iff_eq, UInt32.toNat_inj]

/-- `decode` reads the revision first, whatever else there is. -/
theorem decode_layout (hv : index.Gives 1 r.version v) :
    (layout family).decode ctx index 0 r.toFields =
      (group "features" countersPresent (Layout.counters family.features 3) .nil).decode ctx index 1
        (r.withVersion v).toFields := by
  have hold : r.toFields[0]? = some (.number r.version.toNat) := rfl
  rw [layout_eq, decode_of_gives hold hv]
  rfl

/-- `decode` of another revision passes over the counters. -/
theorem decode_layout_of_ne (hv : index.Gives 1 r.version v) (hne : v ≠ localMax) :
    (layout family).decode ctx index 0 r.toFields = ((r.withVersion v).toFields, .ok ()) := by
  have hguard : countersPresent (r.withVersion v).toFields ctx = false := by
    rw [Bool.eq_false_iff, ne_eq, toFields_eq, countersPresent_iff]
    exact hne
  rw [decode_layout hv]
  simp only [Layout.decode, hguard, Bool.false_eq_true, if_false]

theorem clamp_of_le (h : r.version ≤ localMax) : clamp r.toFields ctx = .ok r.toFields := by
  have hle : ¬ localMax.toNat < r.version.toNat := Nat.not_lt.2 (UInt32.le_iff_toNat_le.1 h)
  simp only [toFields_eq, Value.numbers, List.map_cons, clamp, Value.toNumber_number, hle, if_false]

theorem clamp_of_lt (h : localMax < r.version) : clamp r.toFields ctx = .ok r.clear.toFields := by
  have hlt : localMax.toNat < r.version.toNat := UInt32.lt_iff_toNat_lt.1 h
  simp only [toFields_eq, Value.numbers, List.map_cons, clamp, Value.toNumber_number, hlt, if_true,
    clear, List.map_map, Function.comp_def]

/-- `decodeIndexed` of a version record is `decode` of its fields, and then `clamp`. -/
theorem decodeIndexed_eq (ctx : Context) (index : FieldIndex) (fields : List Value) :
    (recordType family).decodeIndexed ctx index fields =
      match (layout family).decode ctx index 0 fields with
      | (fields, .ok ()) =>
        match clamp fields ctx with
        | .ok fields => (fields, .ok ())
        | .error e => (fields, .error e)
      | (fields, .error e) => (fields, .error e) := by
  have hlayout : (recordType family).layout = layout family := rfl
  have hhook : (recordType family).hook = some clamp := rfl
  simp only [RecordType.decodeIndexed, hlayout, hhook]
  generalize (layout family).decode ctx index 0 fields = x
  rcases x with ⟨fields, _ | _⟩ <;> rfl

/-- `decodeIndexed` of a newer record takes over the revision, and clears every counter, whatever
the body says about these. -/
theorem decodeIndexed_of_newer (hv : index.Gives 1 r.version v) (h : localMax < v) :
    (recordType family).decodeIndexed ctx index r.toFields =
      ((r.withVersion v).clear.toFields, .ok ()) := by
  have hne : v ≠ localMax := (UInt32.ne_of_lt h).symm
  rw [decodeIndexed_eq, decode_layout_of_ne hv hne]
  simp only [clamp_of_lt (r := r.withVersion v) h]

/-- `decodeIndexed` of an older record takes over the revision, and the counters stay as
they were. -/
theorem decodeIndexed_of_older (hv : index.Gives 1 r.version v) (h : v < localMax) :
    (recordType family).decodeIndexed ctx index r.toFields =
      ((r.withVersion v).toFields, .ok ()) := by
  rw [decodeIndexed_eq, decode_layout_of_ne hv (UInt32.ne_of_lt h)]
  simp only [clamp_of_le (r := r.withVersion v) (UInt32.le_of_lt h)]

/-- `decode` of revision `localMax` reads the counters as well. -/
theorem decode_layout_of_local (hv : index.Gives 1 r.version v) (h : v = localMax) :
    (layout family).decode ctx index 0 r.toFields =
      (Layout.counters family.features 3).decode ctx index 1 (r.withVersion v).toFields := by
  have hguard : countersPresent (r.withVersion v).toFields ctx = true := countersPresent_iff.2 h
  rw [decode_layout hv]
  simp only [Layout.decode, hguard, if_true]
  generalize (Layout.counters family.features 3).decode ctx index 1 (r.withVersion v).toFields = x
  rcases x with ⟨fields, _ | _⟩ <;> rfl

/-- `decodeIndexed` of revision `localMax` takes over everything as it stands. -/
theorem decodeIndexed_of_local (hv : index.Gives 1 r.version v) (h : v = localMax)
    {cs : List UInt32} (hcs : index.GivesAll 3 r.counters cs) :
    (recordType family).decodeIndexed ctx index r.toFields =
      (((r.withVersion v).withCounters cs hcs.length_eq).toFields, .ok ()) := by
  -- The revision is done, and the counters are read behind it.
  have hread : (Layout.counters family.features 3).decode ctx index 1 (r.withVersion v).toFields =
      (((r.withVersion v).withCounters cs hcs.length_eq).toFields, .ok ()) :=
    Layout.decode_counters [v] r.length_counters hcs
  have hle : v ≤ localMax := UInt32.le_of_eq h
  rw [decodeIndexed_eq, decode_layout_of_local hv h, hread]
  simp only [clamp_of_le (r := (r.withVersion v).withCounters cs hcs.length_eq) hle]

/-- `decodeIndexed` succeeds only where the body `Gives` a revision. -/
theorem gives_of_decodeIndexed
    (h : ((recordType family).decodeIndexed ctx index r.toFields).2 = .ok ()) :
    ∃ v, index.Gives 1 r.version v := by
  have hold : r.toFields[0]? = some (.number r.version.toNat) := rfl
  -- The hook comes after the fields, so these have been read.
  have hdecode : ((layout family).decode ctx index 0 r.toFields).2 = .ok () := by
    rw [decodeIndexed_eq] at h
    split at h
    · rename_i hdecode
      rw [hdecode]
    · cases h
  exact Layout.gives_of_decode hold hdecode

/-- `decodeIndexed` of revision `localMax` succeeds only where the body `GivesAll` counters, if any,
as numbers of 32 bits. -/
theorem givesAll_of_decodeIndexed (hv : index.Gives 1 r.version v) (hlocal : v = localMax)
    (h : ((recordType family).decodeIndexed ctx index r.toFields).2 = .ok ()) :
    ∃ cs, index.GivesAll 3 r.counters cs := by
  rw [decodeIndexed_eq, decode_layout_of_local hv hlocal] at h
  have hdecode : ((Layout.counters family.features 3).decode ctx index 1
      (r.withVersion v).toFields).2 = .ok () := by
    split at h
    · rename_i hdecode
      rw [hdecode]
    · cases h
  exact Layout.givesAll_of_decode [v] r.length_counters hdecode

end VersionRecord

end Storefront
