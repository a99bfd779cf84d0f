import Storefront.Proofs.Version.Decode
import Storefront.Proofs.Wire.Written

/-! # Normal forms of version records

What is left of a record once it has been written and read by a peer of this build: a record of
another revision does not carry its counters across.

* `norm`              the record that a reader comes to
* `encode_eq`         what is written of a record
* `decode_encode`     what has been written is read as the normal form
-/

namespace Storefront

namespace FieldIndex

/-- Numbers under successive tags. -/
def numbered (tag : Nat) : List UInt32 → FieldIndex
  | [] => []
  | c :: cs => ⟨tag, .varint, Varint.encode c.toNat⟩ :: numbered (tag + 1) cs

variable {tag : Nat} {cs : List UInt32}

/-- `numbered` fields stand under successive tags. -/
theorem tags_numbered (tag : Nat) (cs : List UInt32) :
    (numbered tag cs).map (·.tag) = List.range' tag cs.length := by
  induction cs generalizing tag with
  | nil => rfl
  | cons c cs ih => rw [numbered, List.map_cons, ih, List.length_cons, List.range'_succ]

/-- A `numbered` field is `Framed`. -/
theorem framed_of_mem_numbered {raw : RawField} (h : raw ∈ numbered tag cs) (max : Option Nat) :
    raw.Framed max := by
  induction cs generalizing tag with
  | nil => cases h
  | cons c cs ih =>
    rcases List.mem_cons.1 h with rfl | h
    · -- A number of 32 bits is one of 64 bits.
      exact RawField.framed_varint max tag (Nat.lt_trans c.toNat_lt (by decide))
    · exact ih h

/-- A number that `find?` finds under a tag is what the body `Gives` there. -/
theorem gives_of_find? {index : FieldIndex} {old new : UInt32}
    (h : index.find? tag = some ⟨tag, .varint, Varint.encode new.toNat⟩) :
    index.Gives tag old new := by
  -- The octets are those that the number was written in.
  have hread := Cursor.varint_append (n := new.toNat)
    (Nat.lt_trans new.toNat_lt (by decide)) 0 []
  rw [List.append_nil] at hread
  unfold Gives
  rw [h]
  exact ⟨rfl, _, hread⟩

/-- A body `GivesAll` numbers that stand behind fields of lower tags. -/
theorem givesAll_numbered {front : FieldIndex} {olds : List UInt32}
    (hfront : ∀ raw ∈ front, raw.tag < tag) (hlength : olds.length = cs.length) :
    GivesAll (front ++ numbered tag cs) tag olds cs := by
  induction cs generalizing tag front olds with
  | nil =>
    obtain rfl : olds = [] := List.eq_nil_of_length_eq_zero hlength
    trivial
  | cons c cs ih =>
    cases olds with
    | nil => cases hlength
    | cons old olds =>
      have hpassed : List.find? (·.tag == tag) front = none := by
        rw [List.find?_eq_none]
        intro raw hraw
        simpa using Nat.ne_of_lt (hfront raw hraw)
      constructor
      · apply gives_of_find?
        rw [find?, List.find?_append, hpassed, numbered]
        simp
      · -- The number just found lies in front of those that are left.
        have hfront' : ∀ raw ∈ front ++ [⟨tag, .varint, Varint.encode c.toNat⟩],
            raw.tag < tag + 1 := by
          intro raw hraw
          rcases List.mem_append.1 hraw with hraw | hraw
          · exact Nat.lt_succ_of_lt (hfront raw hraw)
          · rw [List.mem_singleton.1 hraw]
            exact Nat.lt_succ_self tag
        have hnext := ih hfront' (Nat.succ.inj hlength)
        rwa [List.append_assoc] at hnext

end FieldIndex

namespace Layout

variable {ctx : Context} {shown fields : List Value} {slot tag : Nat} {initial : Value}
variable {rest : Layout} {name : String} {c : UInt32}

/-- `encode` of a field with a number of 32 bits puts it under its tag. -/
theorem encode_number (htag : tag ≤ maxTag) (hc : fields[slot]? = some (.number c.toNat)) :
    (field (.plain tag name) (.unsigned .u32) initial rest).encode ctx shown slot fields =
      (rest.encode ctx shown (slot + 1) fields).after
        (RawField.octets ⟨tag, .varint, Varint.encode c.toNat⟩) := by
  have hkey : Wire.key tag .varint = .ok (Varint.encode (tag * 8 + WireType.varint.bits)) :=
    if_neg (Nat.not_lt.2 htag)
  have hfit : Width.u32.admits c.toNat = true := decide_eq_true c.toNat_lt
  have hplain : (FieldMeta.plain tag name).tag = tag := rfl
  simp only [encode, hplain, ValueType.wireType, hkey, hc, ValueType.encodeBody, encodeNumber,
    hfit, if_true, Encoded.ok, Encoded.enclose, Encoded.after, Encoded.map, Encoded.andThen,
    set_of_getElem? hc,
    RawField.octets, RawField.valueOctets]

/-- `encode` of `counters` writes them one after the other. -/
theorem encode_counters {names : List String} (done : List UInt32) {cs : List UInt32}
    (hlength : cs.length = names.length) (htag : tag + names.length ≤ maxTag) :
    (counters names tag).encode ctx shown done.length (Value.numbers (done ++ cs)) =
      .ok ((FieldIndex.numbered tag cs).flatMap RawField.octets) (Value.numbers (done ++ cs)) := by
  induction names generalizing tag done cs with
  | nil =>
    obtain rfl : cs = [] := List.eq_nil_of_length_eq_zero hlength
    rfl
  | cons name names ih =>
    cases cs with
    | nil => cases hlength
    | cons c cs =>
      rw [List.length_cons] at htag
      have hc : (Value.numbers (done ++ c :: cs))[done.length]? = some (.number c.toNat) := by
        simp [Value.numbers]
      have hnext := @ih (tag + 1) (done ++ [c]) cs (Nat.succ.inj hlength) (by omega)
      rw [List.length_append, List.length_singleton, List.append_assoc] at hnext
      rw [counters_cons, encode_number (by omega) hc]
      -- The first number is written in front of the others.
      exact congrArg (Encoded.after _) hnext

end Layout

namespace VersionRecord

variable {family : Family} {ctx : Context} {r r₀ : VersionRecord family}

/-- The record that a reader of this build comes to: counters of a newer revision are cleared, and
those of an older one stay at what this build advertises. -/
def norm (r : VersionRecord family) : VersionRecord family :=
  if localMax < r.version then r.clear
  else if r.version < localMax then (ofLocal family).withVersion r.version
  else r

/-- `norm` of a newer record is `clear`. -/
theorem norm_of_newer (h : localMax < r.version) : r.norm = r.clear := if_pos h

/-- `norm` of an older record leaves the revision, beside the counters of this build. -/
theorem norm_of_older (h : r.version < localMax) :
    r.norm = (ofLocal family).withVersion r.version := by
  rw [norm, if_neg (UInt32.not_lt.2 (UInt32.le_of_lt h)), if_pos h]

/-- `norm` of revision `localMax` is the record. -/
theorem norm_of_local (h : r.version = localMax) : r.norm = r := by
  have hirrefl : ¬ localMax < localMax := UInt32.lt_irrefl localMax
  rw [norm, h, if_neg hirrefl, if_neg hirrefl]

/-- `clear` is idempotent. -/
theorem clear_clear (r : VersionRecord family) : r.clear.clear = r.clear := by
  simp [clear]

/-- `clear` leaves the revision only. -/
theorem clear_withVersion (r r₀ : VersionRecord family) :
    (r₀.withVersion r.version).clear = r.clear := by
  simp [clear, withVersion, r.length_counters, r₀.length_counters]

/-- A revision is above `localMax`, below it, or `localMax`. -/
theorem newer_or_older_or_local (v : UInt32) : localMax < v ∨ v < localMax ∨ v = localMax := by
  by_cases hlocal : v = localMax
  · exact .inr (.inr hlocal)
  · rcases UInt32.lt_or_lt_of_ne hlocal with h | h
    · exact .inr (.inl h)
    · exact .inl h

/-- `norm` is idempotent. -/
theorem norm_norm (r : VersionRecord family) : r.norm.norm = r.norm := by
  rcases newer_or_older_or_local r.version with h | h | h
  · rw [norm_of_newer h, norm_of_newer (r := r.clear) h, clear_clear]
  · rw [norm_of_older h]
    exact norm_of_older (r := (ofLocal family).withVersion r.version) h
  · rw [norm_of_local h, norm_of_local h]

/-! ## What is written -/

/-- The fields that are written of a record. -/
def written (r : VersionRecord family) : FieldIndex :=
  FieldIndex.numbered 1 [r.version] ++
    if r.version = localMax then FieldIndex.numbered 3 r.counters else []

theorem length_features (family : Family) : 3 + family.features.length ≤ maxTag := by
  cases family <;> decide

/-- `encode` of a record succeeds, with its revision, and its counters if that is `localMax`. -/
theorem encode_eq (ctx : Context) (r : VersionRecord family) :
    (recordType family).encode ctx r.toFields =
      .ok (r.written.flatMap RawField.octets) r.toFields := by
  have hversion : r.toFields[0]? = some (.number r.version.toNat) := rfl
  -- The counters stand behind the revision, in the record as in the layout.
  have hcounters : (Layout.counters family.features 3).encode ctx r.toFields 1 r.toFields =
      .ok ((FieldIndex.numbered 3 r.counters).flatMap RawField.octets) r.toFields :=
    Layout.encode_counters [r.version] r.length_counters (length_features family)
  show (layout family).encode ctx r.toFields 0 r.toFields = _
  rw [layout_eq, Layout.encode_number (by decide) hversion, Layout.encode, written,
    List.flatMap_append]
  by_cases hlocal : r.version = localMax
  · have hguard : countersPresent r.toFields ctx = true := countersPresent_iff.2 hlocal
    rw [if_pos hguard, if_pos hlocal, hcounters]
    simp [Layout.encode, Encoded.andThen, Encoded.ok, Encoded.after, FieldIndex.numbered]
  · have hguard : ¬ countersPresent r.toFields ctx = true :=
      fun hguard => hlocal (countersPresent_iff.1 hguard)
    rw [if_neg hguard, if_neg hlocal]
    simp [Layout.encode, Encoded.andThen, Encoded.ok, Encoded.after, FieldIndex.numbered]

/-- `ofBody` finds the `written` fields of a record. -/
theorem ofBody_written (bound : Nat → Option Nat) (r : VersionRecord family) :
    FieldIndex.ofBody bound (r.written.flatMap RawField.octets) = .ok r.written := by
  -- Its tags are 1 and, for this build's revision, those from 3 on.
  have htags : r.written.map (·.tag) =
      1 :: if r.version = localMax then List.range' 3 family.features.length else [] := by
    rw [written, List.map_append, FieldIndex.tags_numbered]
    by_cases hlocal : r.version = localMax
    · rw [if_pos hlocal, if_pos hlocal, FieldIndex.tags_numbered, r.length_counters]
      rfl
    · rw [if_neg hlocal, if_neg hlocal]
      rfl
  have htop := length_features family
  apply FieldIndex.ofBody_flatMap
  · intro raw hraw
    constructor
    · have htag : raw.tag ∈ r.written.map (·.tag) := List.mem_map_of_mem hraw
      rw [htags] at htag
      split at htag <;> simp [List.mem_range'_1] at htag <;> omega
    · rcases List.mem_append.1 hraw with hraw | hraw
      · exact FieldIndex.framed_of_mem_numbered hraw _
      · split at hraw
        · exact FieldIndex.framed_of_mem_numbered hraw _
        · cases hraw
  · rw [htags]
    split
    · simp [List.nodup_range', List.mem_range'_1]
    · simp

/-- `index` finds the `written` fields of a record. -/
theorem index_written (r : VersionRecord family) :
    (recordType family).index (r.written.flatMap RawField.octets) = .ok r.written := by
  rw [RecordType.index, ofBody_written]
  rfl

/-- `written` fields give the revision. -/
theorem gives_written (r r₀ : VersionRecord family) : r.written.Gives 1 r₀.version r.version :=
  FieldIndex.gives_of_find? rfl

/-- `written` fields of revision `localMax` give the counters. -/
theorem givesAll_written (h : r.version = localMax) : r.written.GivesAll 3 r₀.counters r.counters := by
  rw [written, if_pos h]
  -- Only the revision stands in front of the counters, under a lower tag.
  apply FieldIndex.givesAll_numbered
  · intro raw hraw
    rw [List.mem_singleton.1 hraw]
    exact (by decide : 1 < 3)
  · rw [r₀.length_counters, r.length_counters]

/-- `decode` reads what `encode` has written of a record into a new one as its `norm`. -/
theorem decode_encode (sender receiver : Context) (r : VersionRecord family) :
    (recordType family).decode receiver ((recordType family).encode sender r.toFields).bytes
        (recordType family).initials = (r.norm.toFields, .ok ()) := by
  have hinitials : (recordType family).initials = (ofLocal family).toFields :=
    initials_layout family
  have hindex := index_written r
  have hgives := gives_written r (ofLocal family)
  rw [encode_eq, hinitials, RecordType.decode]
  simp only [Encoded.ok, hindex]
  -- For each kind of revision, reading was settled above.
  rcases newer_or_older_or_local r.version with h | h | h
  · rw [decodeIndexed_of_newer hgives h, norm_of_newer h, clear_withVersion]
  · rw [decodeIndexed_of_older hgives h, norm_of_older h]
  · rw [decodeIndexed_of_local hgives h (givesAll_written h), norm_of_local h]
    rfl

end VersionRecord

end Storefront
