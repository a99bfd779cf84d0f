import Storefront.Proofs.Wire.Grammar

/-! # Reading what was written

Each written form of the wire, put in front of any octets, is read back as what it was written from,
and the cursor then stands exactly behind it.

* `varint_append`          numbers
* `lenPrefixed_append`     octets behind their length
* `key_append`             field keys
* `chunk_append`           chunks of a stream
* `read_append`            whole fields
* `readAll_append`, `ofBody_flatMap`    bodies made of fields
-/

namespace Storefront

open Grammar

/-! ## Numbers, octets and keys -/

/-- A number as it is written. -/
def Grammar.Number.written {n : Nat} (hn : n < Varint.limit) : Number :=
  ⟨Varint.encode n, n, Varint.spells_encode hn⟩

namespace Cursor

theorem varint_append {n : Nat} (hn : n < Varint.limit) (p : Nat) (rest : Bytes) :
    varint ⟨p, Varint.encode n ++ rest⟩ = .ok n ⟨p + (Varint.encode n).length, rest⟩ :=
  takes_number (.written hn) p rest

/-- What `varint` reads has 64 bits. -/
theorem lt_limit_of_varint {n : Nat} {c c' : Cursor} (h : varint c = .ok n c') :
    n < Varint.limit := by
  obtain ⟨m, rfl, -⟩ := number_of_read h
  exact m.spelled.fits

/-- `lenPrefixed` reads what `Wire.lenPrefixed` has written. -/
theorem lenPrefixed_append {bs : Bytes} {max : Option Nat} {tag : Nat}
    (hl : bs.length < Varint.limit) (hb : checkBound tag bs.length max = .ok ()) (p : Nat)
    (rest : Bytes) :
    lenPrefixed max tag ⟨p, Wire.lenPrefixed bs ++ rest⟩ =
      .ok bs ⟨p + (Wire.lenPrefixed bs).length, rest⟩ :=
  takes_lenPrefixed (rfl : (Number.written hl).value = bs.length) hb p rest

/-- `key` reads the tag and the type that a key was made of. -/
theorem key_append {tag : Nat} {type : WireType} (ht : tag ≤ maxTag) (p : Nat) (rest : Bytes) :
    key ⟨p, Varint.encode (tag * 8 + type.bits) ++ rest⟩ =
      .ok (tag, type) ⟨p + (Varint.encode (tag * 8 + type.bits)).length, rest⟩ := by
  have hbits := type.bits_lt
  -- The largest tag leaves room for the three bits of the type.
  have hn : tag * 8 + type.bits < Varint.limit := by
    simp only [maxTag, Varint.limit] at *
    omega
  exact takes_key ht (rfl : (Number.written hn).value = _) p rest

/-! ## Streams -/

/-- `streamStart` reads the size that was declared: the largest number stands for none. -/
theorem streamStart_append {declared : Option Nat}
    (hd : ∀ n, declared = some n → n < Varint.limit) (p : Nat) (rest : Bytes) :
    streamStart ⟨p, Wire.streamStart declared ++ rest⟩ =
      .ok (declared.filter (· != Wire.undeclaredSize))
        ⟨p + (Wire.streamStart declared).length, rest⟩ := by
  cases declared with
  | none =>
    have hnone : Wire.undeclaredSize < Varint.limit := by decide
    exact takes_streamStart (.written hnone) p rest
  | some n =>
    -- Only the size that stands for none gets lost.
    have hfilter : (some n).filter (· != Wire.undeclaredSize) =
        announced (.written (hd n rfl)) := by
      by_cases h : n = Wire.undeclaredSize <;> simp [announced, Number.written, h, Option.filter]
    rw [hfilter]
    exact takes_streamStart (.written (hd n rfl)) p rest

theorem chunk_append {bs : Bytes} (hne : bs ≠ []) (hl : bs.length < Varint.limit) (p : Nat)
    (rest : Bytes) :
    chunk ⟨p, Wire.chunk bs ++ rest⟩ = .ok (some bs) ⟨p + (Wire.chunk bs).length, rest⟩ :=
  takes_chunk ⟨.written hl, bs, rfl, hne⟩ p rest

/-- `chunk` reads `Wire.streamEnd` as the end. -/
theorem chunk_streamEnd (p : Nat) (rest : Bytes) :
    chunk ⟨p, Wire.streamEnd ++ rest⟩ = .ok none ⟨p + Wire.streamEnd.length, rest⟩ :=
  takes_ending (rfl : (Number.written (by decide : 0 < Varint.limit)).value = 0) p rest

end Cursor

/-- `Wire.chunk` writes chunks of the grammar. -/
theorem Grammar.exists_chunks {chunks : List Bytes}
    (hc : ∀ c ∈ chunks, c ≠ [] ∧ c.length < Varint.limit) :
    ∃ ks : List Chunk, ks.flatMap Chunk.octets = chunks.flatMap Wire.chunk := by
  induction chunks with
  | nil => exact ⟨[], rfl⟩
  | cons c cs ih =>
    obtain ⟨⟨hne, hl⟩, hcs⟩ := List.forall_mem_cons.1 hc
    obtain ⟨ks, hks⟩ := ih hcs
    -- The size of a chunk is written as the number that counts it.
    refine ⟨⟨.written hl, c, rfl, hne⟩ :: ks, ?_⟩
    rw [List.flatMap_cons, List.flatMap_cons, hks]
    rfl

/-! ## Fields -/

namespace RawField

/-- The octets of a field behind its key: a `len` value comes after its length. -/
def valueOctets (field : RawField) : Bytes :=
  match field.type with
  | .len => Wire.lenPrefixed field.body
  | _ => field.body

/-- The octets of a field. -/
def octets (field : RawField) : Bytes :=
  Varint.encode (field.tag * 8 + field.type.bits) ++ field.valueOctets

/-- The value of the field is found again whatever follows it, as long as it keeps to the bound. -/
def Framed (max : Option Nat) (field : RawField) : Prop :=
  ∀ p rest, readBody max field.tag field.type ⟨p, field.valueOctets ++ rest⟩ =
    .ok field.body ⟨p + field.valueOctets.length, rest⟩

/-- A number that `Varint.encode` writes is `Framed`. -/
theorem framed_varint (max : Option Nat) (tag : Nat) {n : Nat} (hn : n < Varint.limit) :
    Framed max ⟨tag, .varint, Varint.encode n⟩ := by
  have hwithin : (Grammar.Value.number (.written hn)).Within max := trivial
  exact takes_value hwithin tag

/-- Octets behind their length are `Framed`. -/
theorem framed_len {max : Option Nat} {tag : Nat} {bs : Bytes} (hl : bs.length < Varint.limit)
    (hb : checkBound tag bs.length max = .ok ()) : Framed max ⟨tag, .len, bs⟩ :=
  fun p rest => Cursor.lenPrefixed_append hl hb p rest

/-- A stream is `Framed`, with a declared size or without. -/
theorem framed_stream {max : Option Nat} {tag : Nat} {declared : Option Nat}
    {chunks : List Bytes} (hd : ∀ n, declared = some n → n < Varint.limit)
    (hb : ∀ n, declared = some n → checkBound tag n max = .ok ())
    (hc : ∀ c ∈ chunks, c ≠ [] ∧ c.length < Varint.limit) :
    Framed max ⟨tag, .stream,
      Wire.streamStart declared ++ chunks.flatMap Wire.chunk ++ Wire.streamEnd⟩ := by
  -- The size that stands for none is the largest of 64 bits.
  have hn : declared.getD Wire.undeclaredSize < Varint.limit := by
    cases declared with
    | none => decide
    | some n => exact hd n rfl
  obtain ⟨ks, hks⟩ := exists_chunks hc
  -- The announced size keeps to the bound when the declared one does.
  have hwithin : (Grammar.Value.stream (.written hn) ks (.written (by decide)) rfl).Within max := by
    intro m hm hne
    cases declared with
    | none => exact absurd rfl hne
    | some n => exact checkBound_eq_ok.1 (hb n rfl) m hm
  rw [List.append_assoc, ← hks]
  exact takes_value hwithin tag

/-- `read` of a `Framed` field reads it back from its octets. -/
theorem read_append {bound : Nat → Option Nat} {field : RawField} (ht : field.tag ≤ maxTag)
    (hf : field.Framed (bound field.tag)) (p : Nat) (rest : Bytes) :
    read bound ⟨p, field.octets ++ rest⟩ = .ok field ⟨p + field.octets.length, rest⟩ := by
  refine Cursor.takes_bind (Cursor.key_append ht) (fun p rest => ?_) p rest
  dsimp only
  rw [Cursor.bind_of_ok (hf p rest)]
  rfl

theorem octets_ne_nil (field : RawField) : field.octets ≠ [] := by
  simp [octets, Varint.encode_ne_nil]

end RawField

/-! ## Bodies -/

/-- `find?` of a key finds its element, when the keys are different ones. -/
theorem find?_key_of_mem {α β : Type} [BEq β] [LawfulBEq β] {key : α → β} {as : List α}
    (h : (as.map key).Nodup) {a : α} (ha : a ∈ as) : as.find? (key · == key a) = some a := by
  induction as with
  | nil => simp at ha
  | cons b bs ih =>
    rw [List.map_cons, List.nodup_cons] at h
    -- A second element under the key would be the same one.
    by_cases hb : key b = key a
    · rcases List.mem_cons.1 ha with rfl | hbs
      · simp
      · exact absurd (hb ▸ List.mem_map_of_mem hbs) h.1
    · rcases List.mem_cons.1 ha with rfl | hbs
      · exact absurd rfl hb
      · rw [List.find?_cons_of_neg (by simpa using hb), ih h.2 hbs]

namespace FieldIndex

variable {bound : Nat → Option Nat} {seen : List Nat} {c c' : Cursor}

/-- `readAll` finds a field with a new tag, and then those that follow it. -/
theorem readAll_of_read {field : RawField} (h : RawField.read bound c = .ok field c')
    (hnew : field.tag ∉ seen) :
    readAll bound seen c = (readAll bound (field.tag :: seen) c').map (field :: ·) := by
  -- A field has been read, so this was not the end.
  have hmore : c.atEnd = false := by
    have hlength := RawField.read_ok h
    simp only [Cursor.atEnd, List.isEmpty_eq_false_iff]
    exact List.ne_nil_of_length_pos (by omega)
  rw [readAll, hmore]
  simp only [Bool.false_eq_true, if_false]
  split
  · rename_i hread
    simp [h] at hread
  · rename_i field' c₁ hread
    rw [h] at hread
    simp only [EStateM.Result.ok.injEq] at hread
    obtain ⟨rfl, rfl⟩ := hread
    have hnew : seen.contains field.tag = false := by simpa using hnew
    simp only [hnew, Bool.false_eq_true, if_false]
    cases readAll bound (field.tag :: seen) c' <;> rfl

/-- `readAll` fails for a field that cannot be read. -/
theorem readAll_of_error {e : WireError} (hmore : c.rest ≠ [])
    (h : RawField.read bound c = .error e c') : readAll bound seen c = .error e := by
  rw [readAll]
  split
  · rename_i hend
    simp_all [Cursor.atEnd]
  · split
    · simp_all
    · simp_all

/-- `readAll` finds fields with different tags that stand in front, and then those that
follow them. -/
theorem readAll_append {α : Type} {octets : α → Bytes} {raw : α → RawField} {parts : List α}
    (htakes : ∀ a ∈ parts, Cursor.Takes (RawField.read bound) (octets a) (raw a))
    (hnodup : (parts.map fun a => (raw a).tag).Nodup) (hseen : ∀ a ∈ parts, (raw a).tag ∉ seen)
    (p : Nat) (rest : Bytes) :
    readAll bound seen ⟨p, parts.flatMap octets ++ rest⟩ =
      (readAll bound ((parts.map fun a => (raw a).tag).reverse ++ seen)
        ⟨p + (parts.flatMap octets).length, rest⟩).map (parts.map raw ++ ·) := by
  induction parts generalizing seen p with
  | nil =>
    cases h : readAll bound seen ⟨p, rest⟩ <;> simp [h, Except.map]
  | cons a as ih =>
    rw [List.map_cons, List.nodup_cons] at hnodup
    -- Reading this field makes its tag one that must not come again, and it does not.
    have hseen' : ∀ b ∈ as, (raw b).tag ∉ (raw a).tag :: seen := by
      intro b hb
      have hne : (raw b).tag ≠ (raw a).tag := fun h =>
        hnodup.1 (h ▸ List.mem_map_of_mem (f := fun a => (raw a).tag) hb)
      simp [hne, hseen b (List.mem_cons_of_mem _ hb)]
    have hread := htakes a List.mem_cons_self p (as.flatMap octets ++ rest)
    rw [List.flatMap_cons, List.append_assoc,
      readAll_of_read hread (hseen a List.mem_cons_self),
      ih (fun b hb => htakes b (List.mem_cons_of_mem _ hb)) hnodup.2 hseen']
    simp only [List.map_cons, List.reverse_cons, List.append_assoc, List.singleton_append,
      List.length_append, Nat.add_assoc]
    generalize readAll bound _ _ = found
    cases found <;> rfl

/-- `readAll` finds nothing at the end of a body. -/
theorem readAll_end (p : Nat) : readAll bound seen ⟨p, []⟩ = .ok [] := by
  rw [readAll]
  rfl

/-- `readAll` finds no two fields with the same tag. -/
theorem nodup_tags_of_readAll {index : FieldIndex} (h : readAll bound seen c = .ok index) :
    (index.map (·.tag)).Nodup ∧ ∀ field ∈ index, field.tag ∉ seen := by
  fun_induction readAll bound seen c generalizing index with
  | case1 | case2 | case3 | case5 => simp_all
  | case4 seen c hend field c' hread hseen fields hfields ih =>
    simp only [Except.ok.injEq] at h
    subst h
    obtain ⟨hnodup, hfresh⟩ := ih hfields
    constructor
    · rw [List.map_cons, List.nodup_cons]
      refine ⟨fun hmem => ?_, hnodup⟩
      obtain ⟨other, hother, htag⟩ := List.mem_map.1 hmem
      -- A field that is found later does not have the tag of this one, which has been seen.
      exact hfresh other hother (htag ▸ List.mem_cons_self)
    · intro other hother
      rcases List.mem_cons.1 hother with rfl | hother
      · simpa using hseen
      · exact fun hmem => hfresh other hother (List.mem_cons_of_mem _ hmem)

/-- `find?` finds a field under its tag, and nothing else. -/
theorem find?_eq_some_iff {index : FieldIndex} (hnodup : (index.map (·.tag)).Nodup) {tag : Nat}
    {field : RawField} : index.find? tag = some field ↔ field ∈ index ∧ field.tag = tag := by
  constructor
  · intro h
    exact ⟨List.mem_of_find?_eq_some h, by simpa using List.find?_some h⟩
  · rintro ⟨hmem, rfl⟩
    exact find?_key_of_mem hnodup hmem

/-- `without` takes one field out and leaves the others. -/
theorem find?_without {index : FieldIndex} {out tag : Nat} :
    (index.without out).find? tag = if tag = out then none else index.find? tag := by
  rw [without, find?, List.find?_filter]
  split
  · subst_vars
    rw [List.find?_eq_none]
    simp
  · rename_i hne
    refine congrArg (List.find? · index) (funext fun field => ?_)
    -- Filtering does not reach fields with the tag that is looked for.
    by_cases htag : field.tag = tag
    · simp [htag, hne]
    · simp [htag]

/-- `find?` of a tag that no field has is none. -/
theorem find?_raw_eq_none {fields : List Field} {tag : Nat} (h : ¬ ∃ f ∈ fields, f.tag = tag) :
    find? (fields.map Field.raw) tag = none := by
  rw [find?, List.find?_eq_none]
  intro raw hraw htag
  obtain ⟨f, hf, rfl⟩ := List.mem_map.1 hraw
  exact h ⟨f, hf, of_decide_eq_true htag⟩

/-- `ofBody` of fields with different tags finds just these. -/
theorem ofBody_flatMap {fields : FieldIndex}
    (hf : ∀ f ∈ fields, f.tag ≤ maxTag ∧ f.Framed (bound f.tag))
    (hnodup : (fields.map (·.tag)).Nodup) :
    ofBody bound (fields.flatMap RawField.octets) = .ok fields := by
  have htakes : ∀ f ∈ fields, Cursor.Takes (RawField.read bound) f.octets (id f) :=
    fun f hm => RawField.read_append (hf f hm).1 (hf f hm).2
  have hall := readAll_append htakes hnodup (fun _ _ => List.not_mem_nil) 0 []
  rwa [List.append_nil, readAll_end, Except.map, List.map_id, List.append_nil] at hall

end FieldIndex

end Storefront
