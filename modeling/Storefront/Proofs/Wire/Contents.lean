import Storefront.Proofs.Wire.Written

/-! # What a body is made of

A body is indexed just when it is fields with different tags, one after the other
(`FieldIndex.ofBody_eq_ok`).  There is one way to take it apart (`Grammar.fields_unique`), and what
it is taken apart into is what stands in the index.

* `fields_of_readAll`        all of what is indexed is fields
* `ofBody_eq_error_of_key`   behind fields, a tag above the largest is refused as such
* `ofBody_of_write`          what has been written field by field is what is found
* `body_indexed_exactly`     all of this for a reader without bounds
-/

namespace Storefront

open Grammar

/-! ## One way to take a body apart -/

/-- `octets` are those of one list of fields at most. -/
theorem Grammar.fields_unique {fields fields' : List Field}
    (h : fields.flatMap Field.octets = fields'.flatMap Field.octets) : fields = fields' := by
  induction fields generalizing fields' with
  | nil =>
    cases fields' with
    | nil => rfl
    | cons f' fs' =>
      rw [List.flatMap_nil, List.flatMap_cons] at h
      exact absurd (List.append_eq_nil_iff.1 h.symm).1 f'.octets_ne_nil
  | cons f fs ih =>
    cases fields' with
    | nil =>
      rw [List.flatMap_nil, List.flatMap_cons] at h
      exact absurd (List.append_eq_nil_iff.1 h).1 f.octets_ne_nil
    | cons f' fs' =>
      -- the first fields agree, and so do the octets behind them
      obtain ⟨rfl, hmore⟩ := Field.unique h
      rw [ih hmore]

namespace FieldIndex

variable {bound : Nat → Option Nat} {index : FieldIndex} {body : Bytes}

/-- `readAll` finds fields that keep to their bounds, and nothing besides. -/
theorem fields_of_readAll {seen : List Nat} {c : Cursor} (h : readAll bound seen c = .ok index) :
    ∃ fields : List Field, fields.map Field.raw = index ∧
      fields.flatMap Field.octets = c.rest ∧ ∀ f ∈ fields, f.value.Within (bound f.tag) := by
  -- Each field that is read moves the cursor over its octets.
  fun_induction readAll bound seen c generalizing index with
  | case1 seen c hend =>
    simp only [Except.ok.injEq] at h
    exact ⟨[], by simp [← h], by simpa [Cursor.atEnd] using hend.symm, by simp⟩
  | case2 | case3 | case5 => simp at h
  | case4 seen c hend raw c' hread hseen found hfound ih =>
    simp only [Except.ok.injEq] at h
    obtain ⟨f, rfl, hwithin, hpass⟩ := field_of_read hread
    obtain ⟨fields, rfl, hoctets, hall⟩ := ih hfound
    refine ⟨f :: fields, h, ?_, List.forall_mem_cons.2 ⟨hwithin, hall⟩⟩
    rw [List.flatMap_cons, hoctets, hpass.rest]

/-- `RawField.read` takes each field that keeps to its bound. -/
theorem takes_fields {fields : List Field} (h : ∀ f ∈ fields, f.value.Within (bound f.tag)) :
    ∀ f ∈ fields, Cursor.Takes (RawField.read bound) f.octets f.raw :=
  fun f hf => takes_field (h f hf)

/-- `ofBody` accepts a body just when it is fields with different tags, which keep to their bounds;
the index has their `raw` fields, in order. -/
theorem ofBody_eq_ok :
    ofBody bound body = .ok index ↔
      ∃ fields : List Field, (fields.map Field.tag).Nodup ∧ fields.flatMap Field.octets = body ∧
        (∀ f ∈ fields, f.value.Within (bound f.tag)) ∧ fields.map Field.raw = index := by
  constructor
  · intro h
    obtain ⟨fields, rfl, hoctets, hwithin⟩ := fields_of_readAll h
    -- A tag that has been seen before ends the indexing.
    have hnodup := (nodup_tags_of_readAll h).1
    rw [List.map_map] at hnodup
    exact ⟨fields, hnodup, hoctets, hwithin, rfl⟩
  · rintro ⟨fields, hnodup, rfl, hwithin, rfl⟩
    have hall := readAll_append (takes_fields hwithin) hnodup (fun _ _ => List.not_mem_nil) 0 []
    rwa [List.append_nil, readAll_end, Except.map, List.append_nil] at hall

/-- Behind fields with different tags, a key with a tag above `maxTag` fails `ofBody`. -/
theorem ofBody_eq_error_of_key {fields : List Field} {key : Number}
    (hnodup : (fields.map Field.tag).Nodup) (hwithin : ∀ f ∈ fields, f.value.Within (bound f.tag))
    (h : maxTag < key.value / 8) (rest : Bytes) :
    ofBody bound (fields.flatMap Field.octets ++ (key.octets ++ rest)) = .error key.refusal := by
  have hall := readAll_append (takes_fields hwithin) hnodup (fun _ _ => List.not_mem_nil) 0
    (key.octets ++ rest)
  have hmore : key.octets ++ rest ≠ [] := by simp [key.spelled.groups.ne_nil]
  rwa [readAll_of_error hmore (read_of_large_key h bound _ rest)] at hall

end FieldIndex

/-- Every value is `Within` no bound. -/
theorem Grammar.Value.within_none (v : Grammar.Value) : v.Within none := by
  cases v <;> simp [Value.Within]

/-! ## Writing fields -/

/-- What a field is written from. -/
inductive Content where
  | number (n : UInt64)
  | octets (bs : Bytes)
  | stream (declared : UInt64) (chunks : List Bytes)
  deriving DecidableEq, Repr

namespace Content

/-- The wire type that stands in the key. -/
def type : Content → WireType
  | number _ => .varint
  | octets _ => .len
  | stream .. => .stream

/-- The octets that a reader is to be handed. -/
def body : Content → Bytes
  | number n => Varint.encode n.toNat
  | octets bs => bs
  | stream declared chunks =>
    Wire.streamStart (some declared.toNat) ++ chunks.flatMap Wire.chunk ++ Wire.streamEnd

/-- What is written behind the key. -/
def written : Content → Bytes
  | octets bs => Wire.lenPrefixed bs
  | content => content.body

/-- Lengths are numbers of 64 bits, and no chunk is empty, as that would end the stream. -/
def Writable : Content → Prop
  | number _ => True
  | octets bs => bs.length < Varint.limit
  | stream _ chunks => ∀ c ∈ chunks, c ≠ [] ∧ c.length < Varint.limit

end Content

/-- A field to be written. -/
structure Entry where
  tag : Nat
  content : Content
  deriving DecidableEq, Repr

namespace Entry

/-- The field that a reader is to find. -/
def raw (e : Entry) : RawField := ⟨e.tag, e.content.type, e.content.body⟩

/-- Writes a field. -/
def write (e : Entry) : Except WireError Bytes := do
  let key ← Wire.key e.tag e.content.type
  pure (key ++ e.content.written)

/-- Writes fields one after the other. -/
def writeAll : List Entry → Except WireError Bytes
  | [] => .ok []
  | e :: es => do
    let octets ← e.write
    let more ← writeAll es
    pure (octets ++ more)

/-- `write` makes the octets of the raw field, unless the tag fits no key. -/
theorem write_eq (e : Entry) :
    e.write = if maxTag < e.tag then .error (.tagOutOfRange e.tag) else .ok e.raw.octets := by
  unfold write Wire.key
  split
  · rfl
  · cases e with | mk tag content => cases content <;> rfl

/-- What `writeAll` has written are the raw fields, all with tags that fit a key. -/
theorem of_writeAll_ok {entries : List Entry} {body : Bytes} (h : writeAll entries = .ok body) :
    (entries.map raw).flatMap RawField.octets = body ∧ ∀ e ∈ entries, e.tag ≤ maxTag := by
  induction entries generalizing body with
  | nil =>
    simp only [writeAll, Except.ok.injEq] at h
    exact ⟨h, by simp⟩
  | cons e es ih =>
    -- first the entry in front, which fails for its tag alone, then the others
    simp only [writeAll, write_eq] at h
    split at h
    · cases h
    · rename_i hfits
      cases hmore : writeAll es with
      | error e => simp [hmore, bind, Except.bind] at h
      | ok more =>
        obtain ⟨rfl, htags⟩ := ih hmore
        simp only [hmore, bind, Except.bind, pure, Except.pure, Except.ok.injEq] at h
        exact ⟨h, List.forall_mem_cons.2 ⟨Nat.not_lt.1 hfits, htags⟩⟩

/-- `writeAll` fails for nothing but a tag that fits no key. -/
theorem of_writeAll_error {entries : List Entry} {fault : WireError}
    (h : writeAll entries = .error fault) :
    ∃ e ∈ entries, maxTag < e.tag ∧ fault = .tagOutOfRange e.tag := by
  induction entries with
  | nil => simp [writeAll] at h
  | cons e es ih =>
    simp only [writeAll, write_eq] at h
    split at h
    · rename_i hlarge
      simp only [bind, Except.bind, Except.error.injEq] at h
      exact ⟨e, List.mem_cons_self, hlarge, h.symm⟩
    · cases hmore : writeAll es with
      | error e' =>
        simp only [hmore, bind, Except.bind, Except.error.injEq] at h
        -- The entry that cannot be written stands further behind.
        obtain ⟨e, he, hfault⟩ := ih (h ▸ hmore)
        exact ⟨e, List.mem_cons_of_mem _ he, hfault⟩
      | ok more => simp [hmore, bind, Except.bind, pure, Except.pure] at h

/-- What is written of a `Writable` entry is `Framed`. -/
theorem framed_raw {e : Entry} (h : e.content.Writable) : e.raw.Framed none := by
  obtain ⟨tag, content⟩ := e
  -- a number is framed by its groups, octets by their length, a stream by its last chunk
  cases content with
  | number n => exact RawField.framed_varint _ tag n.toNat_lt
  | octets bs => exact RawField.framed_len h rfl
  | stream declared chunks =>
    refine RawField.framed_stream (fun n hn => ?_) (fun _ _ => rfl) h
    exact Option.some.inj hn ▸ declared.toNat_lt

end Entry

/-- `ofBody` finds what `writeAll` has written. -/
theorem FieldIndex.ofBody_of_write {entries : List Entry} {body : Bytes}
    (hwritable : ∀ e ∈ entries, e.content.Writable) (hnodup : (entries.map Entry.tag).Nodup)
    (h : Entry.writeAll entries = .ok body) :
    ofBody (fun _ => none) body = .ok (entries.map Entry.raw) := by
  obtain ⟨rfl, htags⟩ := Entry.of_writeAll_ok h
  refine ofBody_flatMap (fun f hf => ?_) (by rwa [List.map_map])
  obtain ⟨e, he, rfl⟩ := List.mem_map.1 hf
  exact ⟨htags e he, Entry.framed_raw (hwritable e he)⟩

/-! ## Reading without bounds -/

/-- `FieldIndex.ofBody` accepts a body just when it is fields with different tags, one after the
other, and there is one way to take it apart into fields.  What is found are these fields, each
under its tag, with its wire type and value.  A key whose tag is above `maxTag` is refused, whatever
tags there are below, and what `Entry.writeAll` has written is found as it was written. -/
theorem body_indexed_exactly :
    (∀ body, (∃ index, FieldIndex.ofBody (fun _ => none) body = .ok index) ↔
      ∃ fields : List Field,
        (fields.map Field.tag).Nodup ∧ fields.flatMap Field.octets = body) ∧
    (∀ fields fields' : List Field,
      fields.flatMap Field.octets = fields'.flatMap Field.octets → fields = fields') ∧
    (∀ (fields : List Field) (index : FieldIndex),
      FieldIndex.ofBody (fun _ => none) (fields.flatMap Field.octets) = .ok index →
        index = fields.map Field.raw ∧
          ∀ tag raw, index.find? tag = some raw ↔ ∃ f ∈ fields, f.tag = tag ∧ f.raw = raw) ∧
    (∀ (fields : List Field) (key : Number) (rest : Bytes), (fields.map Field.tag).Nodup →
      maxTag < key.value / 8 →
        FieldIndex.ofBody (fun _ => none)
          (fields.flatMap Field.octets ++ (key.octets ++ rest)) = .error key.refusal) ∧
    ∀ entries : List Entry, (∀ e ∈ entries, e.content.Writable) → (entries.map Entry.tag).Nodup →
      match Entry.writeAll entries with
      | .ok body => FieldIndex.ofBody (fun _ => none) body = .ok (entries.map Entry.raw)
      | .error fault => ∃ e ∈ entries, maxTag < e.tag ∧ fault = .tagOutOfRange e.tag := by
  have hfree : ∀ f : Field, f.value.Within none := fun f => f.value.within_none
  refine ⟨fun body => ⟨?_, ?_⟩, fun _ _ => fields_unique, ?_, ?_, ?_⟩
  · rintro ⟨index, h⟩
    obtain ⟨fields, hnodup, hoctets, -⟩ := FieldIndex.ofBody_eq_ok.1 h
    exact ⟨fields, hnodup, hoctets⟩
  · rintro ⟨fields, hnodup, hoctets⟩
    exact ⟨_, FieldIndex.ofBody_eq_ok.2 ⟨fields, hnodup, hoctets, fun f _ => hfree f, rfl⟩⟩
  · intro fields index h
    obtain ⟨found, hnodup, hoctets, -, rfl⟩ := FieldIndex.ofBody_eq_ok.1 h
    -- The fields that were found are those that were given.
    obtain rfl := fields_unique hoctets
    have hnodup' : ((found.map Field.raw).map (·.tag)).Nodup := by rwa [List.map_map]
    refine ⟨rfl, fun tag raw => ?_⟩
    rw [FieldIndex.find?_eq_some_iff hnodup', List.mem_map]
    constructor
    · rintro ⟨⟨f, hf, rfl⟩, rfl⟩
      exact ⟨f, hf, rfl, rfl⟩
    · rintro ⟨f, hf, rfl, rfl⟩
      exact ⟨⟨f, hf, rfl⟩, rfl⟩
  · -- a key with a large tag
    exact fun fields key rest hnodup h =>
      FieldIndex.ofBody_eq_error_of_key hnodup (fun f _ => hfree f) h rest
  · intro entries hwritable hnodup
    -- written, or refused for a tag
    split
    · rename_i body h
      exact FieldIndex.ofBody_of_write hwritable hnodup h
    · rename_i fault h
      exact Entry.of_writeAll_error h

/-- A number under tag 1, of which the key is not as short as it could be, three octets under tag 2,
and two chunks under tag 3. -/
def severalFields : List Field :=
  [⟨⟨[0x88, 0x00], 8, by decide⟩, 1, .number ⟨[0x96, 0x01], 150, by decide⟩, by decide, rfl⟩,
    ⟨⟨[0x12], 18, by decide⟩, 2, .octets ⟨[0x03], 3, by decide⟩ [0x61, 0x62, 0x63] rfl, by decide,
      rfl⟩,
    ⟨⟨[0x1B], 27, by decide⟩, 3,
      .stream ⟨[0x05], 5, by decide⟩
        [⟨⟨[0x02], 2, by decide⟩, [1, 2], rfl, by decide⟩,
          ⟨⟨[0x03], 3, by decide⟩, [3, 4, 5], rfl, by decide⟩]
        ⟨[0x80, 0x00], 0, by decide⟩ rfl, by decide, rfl⟩]

/-- The same fields as they are written. -/
def severalEntries : List Entry :=
  [⟨1, .number 150⟩, ⟨2, .octets [0x61, 0x62, 0x63]⟩, ⟨3, .stream 5 [[1, 2], [3, 4, 5]]⟩]

/-- Tag 2²⁹ + 1, of which a 32-bit key would keep tag 1. -/
def largeKey : Number := ⟨[0x88, 0x80, 0x80, 0x80, 0x10], 0x100000008, by decide⟩

/-- `severalFields` are found as they are written, and `largeKey` behind them is refused. -/
theorem body_indexed_exactly_several :
    (∃ index, FieldIndex.ofBody (fun _ => none)
      [0x88, 0x00, 0x96, 0x01, 0x12, 0x03, 0x61, 0x62, 0x63,
        0x1B, 0x05, 0x02, 1, 2, 0x03, 3, 4, 5, 0x80, 0x00] = .ok index ∧
      index = [⟨1, .varint, [0x96, 0x01]⟩, ⟨2, .len, [0x61, 0x62, 0x63]⟩,
        ⟨3, .stream, [0x05, 0x02, 1, 2, 0x03, 3, 4, 5, 0x80, 0x00]⟩] ∧
      index.find? 2 = some ⟨2, .len, [0x61, 0x62, 0x63]⟩) ∧
    FieldIndex.ofBody (fun _ => none)
      ([0x88, 0x00, 0x96, 0x01, 0x12, 0x03, 0x61, 0x62, 0x63,
        0x1B, 0x05, 0x02, 1, 2, 0x03, 3, 4, 5, 0x80, 0x00] ++
          [0x88, 0x80, 0x80, 0x80, 0x10, 0x07]) = .error (.tagOutOfRange 0xFFFFFFFF) ∧
    ∃ body, Entry.writeAll severalEntries = .ok body ∧
      FieldIndex.ofBody (fun _ => none) body = .ok (severalEntries.map Entry.raw) := by
  obtain ⟨haccepts, hunique, hholds, hlarge, hwritten⟩ := body_indexed_exactly
  have hnodup : (severalFields.map Field.tag).Nodup := by decide
  refine ⟨?_, hlarge severalFields largeKey [0x07] hnodup (by decide), ?_⟩
  · obtain ⟨index, hindex⟩ := (haccepts (severalFields.flatMap Field.octets)).2
      ⟨severalFields, hnodup, rfl⟩
    obtain ⟨hmap, hfind⟩ := hholds severalFields index hindex
    exact ⟨index, hindex, hmap,
      (hfind _ _).2 ⟨severalFields.get ⟨1, by decide⟩, List.get_mem _ _, rfl, rfl⟩⟩
  · have hwritable : ∀ e ∈ severalEntries, e.content.Writable := by
      simp [severalEntries, Content.Writable, Varint.limit]
    have h := hwritten severalEntries hwritable (by decide)
    cases hwrite : Entry.writeAll severalEntries with
    | ok body => exact ⟨body, rfl, by simpa only [hwrite] using h⟩
    | error fault =>
      simp only [hwrite] at h
      obtain ⟨e, he, hlarge, -⟩ := h
      have hsmall : ∀ e ∈ severalEntries, ¬ maxTag < e.tag := by decide
      exact absurd hlarge (hsmall e he)

end Storefront
