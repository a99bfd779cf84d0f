import Storefront.Proofs.Schema.Anywhere
import Storefront.Proofs.Schema.Visits
import Storefront.Proofs.Wire.Contents
import Storefront.Schema.Body

/-! # Edits of a body

A body is edited by putting its fields in another order and by adding or removing fields that its
reader ignores: those with a tag that the layout does not declare, or declares only in groups that
are absent.  The values of the other fields may be edited in the same way wherever records stand in
them, with the lengths in front adjusted.  The edits are on lists of `Grammar.Field`, so they are
stated without any reader; only which groups are absent is up to the walk.

* `Layout.enabled`, `Layout.Ignores`   the fields outside of absent groups, and the tags of no such
* `Layout.Edited`                      edits of the fields of a record
* `EquivalentBody`, `EquivalentOctets` values whose records are edited
* `EquivalentBodies`                   bodies of messages that are edited
-/

namespace Storefront

open Grammar (Field)

/-! ## Ignored fields -/

/-- The places of a layout outside of the groups that are absent when `index` is read.  Every guard
sees the fields that `decode` has read before it. -/
def Layout.enabled : Layout → Context → FieldIndex → (slot : Nat) → List Value → List Place
  | nil, _, _, _, _ => []
  | field about type initial rest, ctx, index, slot, fields =>
    ⟨slot, about, type⟩ ::
      rest.enabled ctx index (slot + 1) ((field about type initial nil).decode ctx index slot fields).1
  | group _ guard body rest, ctx, index, slot, fields =>
    if guard fields ctx then
      body.enabled ctx index slot fields ++
        rest.enabled ctx index (slot + body.size) (body.decode ctx index slot fields).1
    else rest.enabled ctx index (slot + body.size) fields

/-- No field outside of the absent groups has this tag, when the body that `fs` stand in is read
into `fields`. -/
def Layout.Ignores (layout : Layout) (ctx : Context) (fs : List Field) (fields : List Value)
    (tag : Nat) : Prop :=
  ∀ p ∈ layout.enabled ctx (fs.map Field.raw) 0 fields, p.about.tag ≠ tag

/-- What `enabled` lists are places of the layout. -/
theorem Layout.mem_places_of_enabled {ctx : Context} {index : FieldIndex} : (layout : Layout) →
    ∀ {slot : Nat} {fields : List Value} {p : Place}, p ∈ layout.enabled ctx index slot fields →
      p ∈ layout.places slot
  | nil, _, _, _, h => h
  | field about type initial rest, slot, fields, p, h => by
    simp only [enabled] at h
    rcases List.mem_cons.1 h with rfl | h
    · exact List.mem_cons_self
    · exact List.mem_cons_of_mem _ (rest.mem_places_of_enabled h)
  | group name guard body rest, slot, fields, p, h => by
    simp only [enabled] at h
    -- An absent group contributes none of its places.
    split at h
    · rcases List.mem_append.1 h with h | h
      · exact List.mem_append_left _ (body.mem_places_of_enabled h)
      · exact List.mem_append_right _ (rest.mem_places_of_enabled h)
    · exact List.mem_append_right _ (rest.mem_places_of_enabled h)

/-- `Ignores` a tag that the layout does not declare, whatever else is in the body. -/
theorem Layout.ignores_of_undeclared {layout : Layout} {tag : Nat}
    (h : ∀ d ∈ layout.declared, d.1.tag ≠ tag) (ctx : Context) (fs : List Field)
    (fields : List Value) : layout.Ignores ctx fs fields tag :=
  -- every enabled place is a declared one
  fun _ hp => h _ (declared_of_mem_places (mem_places_of_enabled layout hp))

/-- Fields that `ofBody` accepts under the bounds of a layout. -/
structure Layout.Indexed (layout : Layout) (fs : List Field) : Prop where
  nodup : (fs.map Field.tag).Nodup
  within : ∀ f ∈ fs, f.value.Within (layout.byteBound f.tag)

/-- `ofBody` finds the fields of an indexed list, one `raw` field for each. -/
theorem Layout.Indexed.ofBody {layout : Layout} {fs : List Field} (h : layout.Indexed fs) :
    FieldIndex.ofBody layout.byteBound (fs.flatMap Field.octets) = .ok (fs.map Field.raw) :=
  FieldIndex.ofBody_eq_ok.2 ⟨fs, h.nodup, rfl, h.within, rfl⟩

/-! ## Edits -/

mutual

/-- One body of a value of a type becomes the other by edits of the records in it.  They are read
into `old`. -/
inductive ValueType.EquivalentBody : ValueType → FieldMeta → Context → (old : Value) → Bytes →
    Bytes → Prop
  | refl {type : ValueType} {about : FieldMeta} {ctx : Context} {old : Value} (body : Bytes) :
    ValueType.EquivalentBody type about ctx old body body
  | symm {type : ValueType} {about : FieldMeta} {ctx : Context} {old : Value} {body body' : Bytes}
    (h : ValueType.EquivalentBody type about ctx old body body') :
    ValueType.EquivalentBody type about ctx old body' body
  | trans {type : ValueType} {about : FieldMeta} {ctx : Context} {old : Value}
    {body body' body'' : Bytes} (h : ValueType.EquivalentBody type about ctx old body body')
    (h' : ValueType.EquivalentBody type about ctx old body' body'') :
    ValueType.EquivalentBody type about ctx old body body''
  /-- Elements are edited one by one.  What is behind the last that is edited, other elements or
  octets that are none, is `tail`. -/
  | list {element : ValueType} {about : FieldMeta} {ctx : Context} {old : Value} {count : Bytes}
    {parts : List (Bytes × Bytes)} (more : Nat) (tail : Bytes)
    (hcount : Varint.Measures count (parts.length + more))
    (hparts : ∀ x ∈ parts,
      ValueType.EquivalentOctets element about.element ctx element.initial x.1 x.2) :
    ValueType.EquivalentBody (.list element) about ctx old (count ++ (parts.flatMap (·.1) ++ tail))
      (count ++ (parts.flatMap (·.2) ++ tail))
  /-- The first component is edited, and the octets behind it are kept. -/
  | first {a b : ValueType} {about : FieldMeta} {ctx : Context} {old : Value}
    {first first' : Bytes} (tail : Bytes)
    (hfirst : ValueType.EquivalentOctets a about.element ctx (old.components a b).1 first first') :
    ValueType.EquivalentBody (.pair a b) about ctx old (first ++ tail) (first' ++ tail)
  /-- Both components are edited. -/
  | pair {a b : ValueType} {about : FieldMeta} {ctx : Context} {old : Value}
    {first first' second second' : Bytes} (tail : Bytes)
    (hfirst : ValueType.EquivalentOctets a about.element ctx (old.components a b).1 first first')
    (hsecond : ValueType.EquivalentOctets b about.element ctx (old.components a b).2 second second') :
    ValueType.EquivalentBody (.pair a b) about ctx old (first ++ (second ++ tail))
      (first' ++ (second' ++ tail))
  /-- The fields of a record are edited.  Both bodies can be indexed. -/
  | record {name : String} {layout : Layout} {hook : Option Hook} {about : FieldMeta}
    {ctx : Context} {old : Value} {fs fs' : List Field} (hindexed : layout.Indexed fs)
    (hindexed' : layout.Indexed fs')
    (hedited : Layout.Edited layout ctx (layout.fieldsOf old)
      (layout.Ignores ctx fs (layout.fieldsOf old)) fs fs') :
    ValueType.EquivalentBody (.record name layout hook) about ctx old (fs.flatMap Field.octets)
      (fs'.flatMap Field.octets)

/-- One value, as it stands as an element, becomes the other by edits of its body. -/
inductive ValueType.EquivalentOctets : ValueType → FieldMeta → Context → (old : Value) → Bytes →
    Bytes → Prop
  | refl {type : ValueType} {about : FieldMeta} {ctx : Context} {old : Value} {octets : Bytes}
    (h : type.wireType.Spans octets) : ValueType.EquivalentOctets type about ctx old octets octets
  /-- The length in front of the body is adjusted to it. -/
  | enclosed {type : ValueType} {about : FieldMeta} {ctx : Context} {old : Value}
    {size size' body body' : Bytes} (hw : type.wireType = .len)
    (hsize : Varint.Measures size body.length) (hsize' : Varint.Measures size' body'.length)
    (hbody : ValueType.EquivalentBody type about ctx old body body') :
    ValueType.EquivalentOctets type about ctx old (size ++ body) (size' ++ body')

/-- One list of fields becomes the other by edits, for a record that is read into `fields` by a
reader who ignores the tags of `ignored`. -/
inductive Layout.Edited : Layout → Context → (fields : List Value) → (ignored : Nat → Prop) →
    List Field → List Field → Prop
  | done {layout : Layout} {ctx : Context} {fields : List Value} {ignored : Nat → Prop} :
    Layout.Edited layout ctx fields ignored [] []
  /-- A field is kept, though its key and its length may be spelled in another way. -/
  | kept {layout : Layout} {ctx : Context} {fields : List Value} {ignored : Nat → Prop}
    {f f' : Field} {fs fs' : List Field} (hraw : f.raw = f'.raw)
    (h : Layout.Edited layout ctx fields ignored fs fs') :
    Layout.Edited layout ctx fields ignored (f :: fs) (f' :: fs')
  /-- The value of a field is edited, and with it the length in front. -/
  | inside {layout : Layout} {ctx : Context} {fields : List Value} {ignored : Nat → Prop}
    {f f' : Field} {fs fs' : List Field} (htag : f.tag = f'.tag) (htype : f.value.type = f'.value.type)
    (hbody : ∀ p ∈ layout.places 0, p.about.tag = f.tag →
      ValueType.EquivalentBody p.type p.about ctx (fields[p.slot]?.getD p.type.initial)
        f.value.body f'.value.body)
    (h : Layout.Edited layout ctx fields ignored fs fs') :
    Layout.Edited layout ctx fields ignored (f :: fs) (f' :: fs')
  | added {layout : Layout} {ctx : Context} {fields : List Value} {ignored : Nat → Prop}
    {f' : Field} {fs fs' : List Field} (hignored : ignored f'.tag)
    (h : Layout.Edited layout ctx fields ignored fs fs') :
    Layout.Edited layout ctx fields ignored fs (f' :: fs')
  | removed {layout : Layout} {ctx : Context} {fields : List Value} {ignored : Nat → Prop}
    {f : Field} {fs fs' : List Field} (hignored : ignored f.tag)
    (h : Layout.Edited layout ctx fields ignored fs fs') :
    Layout.Edited layout ctx fields ignored (f :: fs) fs'
  -- The edits can be made in any order: both lists are permuted into the one that `h` wants.
  | reordered {layout : Layout} {ctx : Context} {fields : List Value} {ignored : Nat → Prop}
    {fs gs fs' gs' : List Field} (hperm : fs.Perm gs) (hperm' : gs'.Perm fs')
    (h : Layout.Edited layout ctx fields ignored gs gs') :
    Layout.Edited layout ctx fields ignored fs fs'

end

/-- The fields that hold the format version. -/
def versionFields (fs : List Field) : List Field := fs.filter (·.tag == formatVersionTag)

/-- The fields that belong to the record of a message. -/
def recordFields (fs : List Field) : List Field := fs.filter (·.tag != formatVersionTag)

/-- One body of a message becomes the other by edits of its fields.  The format version is kept: tag
0 is neither added nor removed. -/
inductive RecordType.EquivalentBodies (r : RecordType) (ctx : Context) (fields : List Value) :
    Bytes → Bytes → Prop
  | edited {fs fs' : List Field} (hindexed : r.layout.Indexed fs) (hindexed' : r.layout.Indexed fs')
    (hversion : (versionFields fs).map Field.raw = (versionFields fs').map Field.raw)
    (hedited : r.layout.Edited ctx fields (r.layout.Ignores ctx (recordFields fs) fields)
      (recordFields fs) (recordFields fs')) :
    EquivalentBodies r ctx fields (fs.flatMap Field.octets) (fs'.flatMap Field.octets)
  | symm {body body' : Bytes} (h : EquivalentBodies r ctx fields body body') :
    EquivalentBodies r ctx fields body' body
  | trans {body body' body'' : Bytes} (h : EquivalentBodies r ctx fields body body')
    (h' : EquivalentBodies r ctx fields body' body'') : EquivalentBodies r ctx fields body body''

end Storefront
