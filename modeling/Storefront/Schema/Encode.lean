import Storefront.Schema.Type

/-! # Writing values

A value is written as its type says: a number as one number, a text as its octets, a collection as
its count and its elements, a record as its present fields, each after its key.  What is laid out as
`len` stands after its length when it is a field or an element (`Encoded.enclose`).

Writing may fail on the way.  What was written before stays, save for an enclosed value that failed,
which leaves nothing.  Writing also changes the value: it takes away the sources of the streams it
has come to.
-/

namespace Storefront

/-- What writing comes to. -/
structure Encoded (α : Type) where
  /-- What has been written, also before a failure. -/
  bytes : Bytes
  /-- What was written, its streams drained as far as writing came. -/
  value : α
  result : Except SchemaError Unit

namespace Encoded

variable {α β : Type}

/-- Octets written for a value that writing leaves alone. -/
def ok (bytes : Bytes) (value : α) : Encoded α := ⟨bytes, value, .ok ()⟩

/-- A failure before anything was written. -/
def error (e : SchemaError) (value : α) : Encoded α := ⟨[], value, .error e⟩

/-- Writes on after a first part, unless that failed. -/
def andThen (x : Encoded α) (f : α → Encoded α) : Encoded α :=
  match x.result with
  | .error e => ⟨x.bytes, x.value, .error e⟩
  | .ok () =>
    let y := f x.value
    ⟨x.bytes ++ y.bytes, y.value, y.result⟩

/-- What is written, seen as part of a larger value. -/
def map (f : α → β) (x : Encoded α) : Encoded β := ⟨x.bytes, f x.value, x.result⟩

/-- Puts a value that is laid out as `len` after its length.  A length of more than 64 bits cannot
be written. -/
def enclose (tag : Nat) (type : WireType) (x : Encoded α) : Encoded α :=
  match type with
  | .len =>
    match x.result with
    -- The length comes first, so nothing is written before the value is whole.
    | .error e => error e x.value
    | .ok () =>
      if x.bytes.length < Varint.limit then ok (Wire.lenPrefixed x.bytes) x.value
      else
        error (.wire (.boundExceeded tag x.bytes.length (Varint.limit - 1))) x.value
  | _ => x

/-- Puts octets in front of what is written. -/
def after (bytes : Bytes) (x : Encoded α) : Encoded α := { x with bytes := bytes ++ x.bytes }

/-- Writes two values one after the other.  The second one is not come to if the first one fails,
and then stays as it is. -/
def both (x : Encoded α) (second : β) (y : Unit → Encoded β) : Encoded (α × β) :=
  match x.result with
  | .error e => ⟨x.bytes, (x.value, second), .error e⟩
  | .ok () =>
    let y := y ()
    ⟨x.bytes ++ y.bytes, (x.value, y.value), y.result⟩

/-- Writes elements one after the other. -/
def all (f : α → Encoded α) : List α → Encoded (List α)
  | [] => ok [] []
  | v :: vs => ((f v).both vs fun _ => all f vs).map fun (v, vs) => v :: vs

end Encoded

/-- Writes octets that are held against the bound of their field. -/
def encodeOctets (about : FieldMeta) (bs : Bytes) (v : Value) : Encoded Value :=
  match checkBound about.tag bs.length about.maxSize with
  | .error e => .error (.wire e) v
  | .ok () => .ok bs v

/-- Writes a number that has to meet a condition. -/
def encodeNumber (about : FieldMeta) (admits : Nat → Bool) (v : Value) : Encoded Value :=
  match v with
  | .number n => if admits n then .ok (Varint.encode n) v else .error (.illTyped about.tag) v
  | _ => .error (.illTyped about.tag) v

mutual

/-- Writes a value without a length of its own. -/
def ValueType.encodeBody : ValueType → FieldMeta → Context → Value → Encoded Value
  | .unsigned w, about, _, v => encodeNumber about w.admits v
  | .status, about, _, v => encodeNumber about Width.u32.admits v
  | .choice e, about, _, v => encodeNumber about (fun n => (e.member? n).isSome) v
  | .options, about, _, v => encodeNumber about Width.u16.admits v
  | .signed, about, _, v =>
    match v with
    | .signed i =>
      if ZigZag.encode i < Varint.limit then .ok (Varint.encode (ZigZag.encode i)) v
      else .error (.illTyped about.tag) v
    | _ => .error (.illTyped about.tag) v
  | .flag, about, _, v =>
    match v with
    | .flag b => .ok (Varint.encode b.toNat) v
    | _ => .error (.illTyped about.tag) v
  | .text, about, _, v | .secret, about, _, v =>
    match v with
    | .text s => encodeOctets about (Bytes.ofText s) v
    | _ => .error (.illTyped about.tag) v
  | .blob, about, _, v =>
    match v with
    | .blob bs => encodeOctets about bs v
    | _ => .error (.illTyped about.tag) v
  | .stream, about, _, v =>
    match v with
    | .stream field =>
      let sent := field.send about
      ⟨sent.bytes, .stream sent.field, sent.result.mapError .wire⟩
    | _ => .error (.illTyped about.tag) v
  | .list element, about, ctx, v =>
    match v with
    | .list items =>
      match checkBound about.tag items.length about.maxSize with
      | .error e => .error (.wire e) v
      | .ok () =>
        let item := fun v =>
          (element.encodeBody about.element ctx v).enclose about.tag element.wireType
        ((Encoded.all item items).map .list).after (Varint.encode items.length)
    | _ => .error (.illTyped about.tag) v
  | .pair a b, about, ctx, v =>
    match v with
    | .pair x y =>
      let first := (a.encodeBody about.element ctx x).enclose about.tag a.wireType
      let second := fun _ => (b.encodeBody about.element ctx y).enclose about.tag b.wireType
      (first.both y second).map fun (x, y) => .pair x y
    | _ => .error (.illTyped about.tag) v
  | .record _ layout _, about, ctx, v =>
    match v with
    | .record fields =>
      if fields.length = layout.size then (layout.encode ctx fields 0 fields).map .record
      else .error (.illTyped about.tag) v
    | _ => .error (.illTyped about.tag) v

/-- Writes the present fields of a layout, the first of which is number `slot` of the record.  The
guards see the record as it was when writing began (`shown`); `fields` is the record as it is. -/
def Layout.encode : Layout → Context → (shown : List Value) → (slot : Nat) → (fields : List Value) →
    Encoded (List Value)
  | .nil, _, _, _, fields => .ok [] fields
  | .field about type _ rest, ctx, shown, slot, fields =>
    -- A tag that no key can hold is found before the value is looked at.
    match Wire.key about.tag type.wireType, fields[slot]? with
    | .error e, _ => .error (.wire e) fields
    | .ok _, none => .error (.illTyped about.tag) fields
    | .ok key, some v =>
      let x := ((type.encodeBody about ctx v).enclose about.tag type.wireType).after key
      (x.map (fields.set slot ·)).andThen (rest.encode ctx shown (slot + 1))
  | .group _ guard body rest, ctx, shown, slot, fields =>
    let x := if guard shown ctx then body.encode ctx shown slot fields else .ok [] fields
    x.andThen (rest.encode ctx shown (slot + body.size))

end

/-- Writes a value as it stands as an element: after its length if it is laid out as `len`. -/
def ValueType.encode (type : ValueType) (about : FieldMeta) (ctx : Context) (v : Value) :
    Encoded Value :=
  (type.encodeBody about ctx v).enclose about.tag type.wireType

/-- Writes the fields of a record. -/
def RecordType.encode (r : RecordType) (ctx : Context) (fields : List Value) :
    Encoded (List Value) :=
  r.layout.encode ctx fields 0 fields

end Storefront
