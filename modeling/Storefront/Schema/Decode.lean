import Storefront.Schema.Type
import Storefront.Wire.Index

/-! # Reading values

A value is read into the place of an earlier one (`Decoded.value`), which is what remains when
nothing has been read.  Most types replace the earlier value; a pair reads into its components, a
record into its fields, so that fields absent from the body keep what they had.

A body of a record is indexed first and then walked in the order of its layout: fields that the
record does not know, or whose group is absent, are passed over wherever they stand.  A failure ends
the walk; what was read before it stays, and the place of the field that failed holds what reading
it left there.
-/

namespace Storefront

/-- What reading comes to. -/
structure Decoded (α : Type) where
  /-- What the place read into holds afterwards, also after a failure. -/
  value : α
  cursor : Cursor
  result : Except SchemaError Unit

namespace Decoded

variable {α : Type}

/-- What comes of a read whose value replaces the earlier one. -/
def ofRead (old : α) : EStateM.Result WireError Cursor α → Decoded α
  | .ok v c => ⟨v, c, .ok ()⟩
  | .error e c => ⟨old, c, .error (.wire e)⟩

/-- Reads elements until there are `count`.  An element that fails is dropped; those before it
(`done`, last one first) stay. -/
def all (f : Cursor → Decoded α) : (count : Nat) → (done : List α) → Cursor → Decoded (List α)
  | 0, done, c => ⟨done.reverse, c, .ok ()⟩
  | count + 1, done, c =>
    let x := f c
    match x.result with
    | .error e => ⟨done.reverse, x.cursor, .error e⟩
    | .ok () => all f count (x.value :: done) x.cursor

end Decoded

/-- Reads a number and makes a value of it. -/
def decodeNumber (about : FieldMeta) (f : Nat → Except Defect Value) (old : Value) (c : Cursor) :
    Decoded Value :=
  match Cursor.varint c with
  | .error e c => ⟨old, c, .error (.wire e)⟩
  | .ok n c =>
    match f n with
    | .ok v => ⟨v, c, .ok ()⟩
    | .error defect => ⟨old, c, .error (.wire (.invalidValue about.tag defect))⟩

/-- Reads a number of a given width. -/
def decodeUnsigned (w : Width) (n : Nat) : Except Defect Value :=
  if w.admits n then .ok (.number n) else .error (.tooWide n w.name)

/-- Reads all that is left and makes a value of it.  More octets than the field may hold are refused
before they are read. -/
def decodeOctets (about : FieldMeta) (f : Bytes → Except Defect Value) (old : Value) (c : Cursor) :
    Decoded Value :=
  match checkBound about.tag c.remaining about.maxSize with
  | .error e => ⟨old, c, .error (.wire e)⟩
  | .ok () =>
    let behind : Cursor := ⟨c.position + c.remaining, []⟩
    match f c.rest with
    | .ok v => ⟨v, behind, .ok ()⟩
    | .error defect => ⟨old, behind, .error (.wire (.invalidValue about.tag defect))⟩

/-- Reads octets as a text. -/
def decodeText (bs : Bytes) : Except Defect Value :=
  match Utf8.decode bs with
  | .ok s => .ok (.text s)
  | .error fault => .error (.malformedText fault)

/-- The fields to read into, given what stands in the place of a record. -/
def Layout.fieldsOf (layout : Layout) (old : Value) : List Value :=
  if old.fields.length = layout.size then old.fields else layout.initials

/-- Reads what is laid out as `len` after its length, and anything else as it stands.  The bound of
the field does not apply to the length: it is left to the value itself. -/
def decodeEnclosed (about : FieldMeta) (type : WireType) (body : Cursor → Decoded Value)
    (old : Value) (c : Cursor) : Decoded Value :=
  match type with
  | .len =>
    match Cursor.lenPrefixed none about.tag c with
    | .error e c => ⟨old, c, .error (.wire e)⟩
    | .ok bs c =>
      let x := body (Cursor.start bs)
      ⟨x.value, c, x.result⟩
  | _ => body c

mutual

/-- Reads a value without a length of its own; what is laid out as `len` has the cursor's rest for
its body. -/
def ValueType.decodeBody : ValueType → FieldMeta → Context → (old : Value) → Cursor → Decoded Value
  | .unsigned w, about, _, old, c => decodeNumber about (decodeUnsigned w) old c
  | .status, about, _, old, c => decodeNumber about (decodeUnsigned .u32) old c
  | .choice e, about, _, old, c =>
    let number := fun n =>
      if (e.member? n).isSome then .ok (.number n) else .error (.notMember n e.name)
    decodeNumber about number old c
  | .options, about, _, old, c =>
    decodeNumber about
      (fun n => if n ≤ optionsMask then .ok (.number n) else .error (.unknownOptions n)) old c
  | .signed, about, _, old, c =>
    decodeNumber about (fun n => .ok (.signed (ZigZag.decode n))) old c
  | .flag, about, _, old, c =>
    decodeNumber about
      (fun n => if n ≤ 1 then .ok (.flag (n == 1)) else .error (.notFlag n)) old c
  | .text, about, _, old, c | .secret, about, _, old, c => decodeOctets about decodeText old c
  | .blob, about, _, old, c => decodeOctets about (fun bs => .ok (.blob bs)) old c
  | .stream, about, _, old, c =>
    let field := match old with
      | .stream field => field
      | _ => {}
    let x := field.receive about c
    ⟨.stream x.field, x.cursor, x.result.mapError .wire⟩
  | .list element, about, ctx, old, c =>
    match Cursor.varint c with
    | .error e c => ⟨old, c, .error (.wire e)⟩
    | .ok count c =>
      match checkBound about.tag count about.maxSize with
      | .error e => ⟨old, c, .error (.wire e)⟩
      | .ok () =>
        -- Every element takes an octet at least, so a larger count need not be tried.
        if c.rest.hasAtLeast count then
          let item := decodeEnclosed about.element element.wireType
            (element.decodeBody about.element ctx element.initial) element.initial
          let x := Decoded.all item count [] c
          ⟨.list x.value, x.cursor, x.result⟩
        else ⟨old, c, .error (.wire (.truncated count c.remaining))⟩
  | .pair a b, about, ctx, old, c =>
    let (first, second) := match old with
      | .pair first second => (first, second)
      | _ => (a.initial, b.initial)
    let x := decodeEnclosed about.element a.wireType (a.decodeBody about.element ctx first) first c
    match x.result with
    | .error e => ⟨.pair x.value second, x.cursor, .error e⟩
    | .ok () =>
      let y := decodeEnclosed about.element b.wireType (b.decodeBody about.element ctx second)
        second x.cursor
      ⟨.pair x.value y.value, y.cursor, y.result⟩
  | .record _ layout hook, _, ctx, old, c =>
    -- The body is taken as a whole, so the cursor stands behind it even after a failure.
    let behind : Cursor := ⟨c.position + c.remaining, []⟩
    match FieldIndex.ofBody layout.byteBound c.rest with
    | .error e => ⟨old, behind, .error (.wire e)⟩
    | .ok index =>
      let x := layout.decode ctx index 0 (layout.fieldsOf old)
      match x.2 with
      | .error e => ⟨.record x.1, behind, .error e⟩
      | .ok () =>
        match hook with
        | none => ⟨.record x.1, behind, .ok ()⟩
        | some hook =>
          match hook x.1 ctx with
          | .error e => ⟨.record x.1, behind, .error e⟩
          | .ok fields => ⟨.record fields, behind, .ok ()⟩

/-- Reads the present fields of a layout, the first of which is number `slot` of the record, out of
an indexed body.  The guards see the record as it has been read so far. -/
def Layout.decode : Layout → Context → FieldIndex → (slot : Nat) → List Value →
    List Value × Except SchemaError Unit
  | .nil, _, _, _, fields => (fields, .ok ())
  | .field about type _ rest, ctx, index, slot, fields =>
    match index.find? about.tag with
    | none => rest.decode ctx index (slot + 1) fields
    | some raw =>
      match raw.expect type.wireType with
      | .error e => (fields, .error (.wire e))
      | .ok () =>
        -- The index has cut the value to its octets, so its length is not read again.
        let x := type.decodeBody about ctx (fields[slot]?.getD type.initial) raw.cursor
        let fields := fields.set slot x.value
        match x.result with
        | .error e => (fields, .error e)
        | .ok () => rest.decode ctx index (slot + 1) fields
  | .group _ guard body rest, ctx, index, slot, fields =>
    if guard fields ctx then
      let x := body.decode ctx index slot fields
      match x.2 with
      | .error e => (x.1, .error e)
      | .ok () => rest.decode ctx index (slot + body.size) x.1
    else rest.decode ctx index (slot + body.size) fields

end

/-- Reads a value as it stands as an element: after its length if it is laid out as `len`. -/
def ValueType.decode (type : ValueType) (about : FieldMeta) (ctx : Context) (old : Value)
    (c : Cursor) : Decoded Value :=
  decodeEnclosed about type.wireType (type.decodeBody about ctx old) old c

namespace RecordType

/-- Finds the fields of a body.  No field may carry more octets than its bound allows. -/
def index (r : RecordType) (body : Bytes) : Except SchemaError FieldIndex :=
  (FieldIndex.ofBody r.layout.byteBound body).mapError .wire

/-- Reads indexed fields and applies the hook. -/
def decodeIndexed (r : RecordType) (ctx : Context) (index : FieldIndex) (fields : List Value) :
    List Value × Except SchemaError Unit :=
  let x := r.layout.decode ctx index 0 fields
  match x.2, r.hook with
  | .ok (), some hook =>
    match hook x.1 ctx with
    | .ok fields => (fields, .ok ())
    | .error e => (x.1, .error e)
  | _, _ => x

/-- Reads a body into the fields of a record. -/
def decode (r : RecordType) (ctx : Context) (body : Bytes) (fields : List Value) :
    List Value × Except SchemaError Unit :=
  match r.index body with
  | .ok index => r.decodeIndexed ctx index fields
  | .error e => (fields, .error e)

end RecordType

end Storefront
