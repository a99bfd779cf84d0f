import Storefront.Json.Value
import Storefront.Schema.Type

/-! # Records in JSON

A record is an object with a member for each field, in the order of its layout.  It is also read
from a list of its fields in that order.  No field may be missing; members of other names are passed
over.  Records hold numbers, texts, lists, pairs and records; a value of another type is written as
null, which is no value of any type.
-/

namespace Storefront

mutual

/-- A value of a type in JSON. -/
def ValueType.toJson : ValueType → Value → JsonValue
  | .unsigned _, v | .status, v | .choice _, v | .options, v => .natural v.toNumber
  | .text, v | .secret, v => .text v.toText
  | .list element, v => .list (v.items.map element.toJson)
  | .pair a b, v =>
    match v with
    | .pair x y => .list [a.toJson x, b.toJson y]
    | _ => .null
  | .record _ layout _, v => .object (layout.toJson v.fields)
  | .signed, _ | .flag, _ | .blob, _ | .stream, _ => .null

/-- The members of a record. -/
def Layout.toJson : Layout → List Value → List (String × JsonValue)
  | .nil, _ => []
  | .field about type _ rest, fields =>
    (about.name, type.toJson (fields.head?.getD type.initial)) :: rest.toJson fields.tail
  | .group _ _ body rest, fields =>
    body.toJson (fields.take body.size) ++ rest.toJson (fields.drop body.size)

end

mutual

/-- The value of a type that a JSON value describes. -/
def ValueType.ofJson? : ValueType → JsonValue → Option Value
  | .unsigned w, .natural n => if w.admits n then some (.number n) else none
  | .text, .text s => some (.text s)
  | .list element, .list items => (items.mapM element.ofJson?).map .list
  | .pair a b, .list [x, y] =>
    match a.ofJson? x, b.ofJson? y with
    | some x, some y => some (.pair x y)
    | _, _ => none
  | .record _ layout _, .object members => (layout.ofMembers? members).map .record
  -- A record without names has all its fields and nothing more.
  | .record _ layout _, .list items =>
    if items.length = layout.size then (layout.ofItems? items).map .record else none
  | _, _ => none

/-- The fields of a record, by name. -/
def Layout.ofMembers? : Layout → List (String × JsonValue) → Option (List Value)
  | .nil, _ => some []
  | .field about type _ rest, members =>
    match (JsonValue.member? about.name members).bind type.ofJson?, rest.ofMembers? members with
    | some v, some vs => some (v :: vs)
    | _, _ => none
  | .group _ _ body rest, members =>
    match body.ofMembers? members, rest.ofMembers? members with
    | some vs, some ws => some (vs ++ ws)
    | _, _ => none

/-- The fields of a record, by place. -/
def Layout.ofItems? : Layout → List JsonValue → Option (List Value)
  | .nil, _ => some []
  | .field _ type _ rest, items =>
    match items.head?.bind type.ofJson?, rest.ofItems? items.tail with
    | some v, some vs => some (v :: vs)
    | _, _ => none
  | .group _ _ body rest, items =>
    match body.ofItems? (items.take body.size), rest.ofItems? (items.drop body.size) with
    | some vs, some ws => some (vs ++ ws)
    | _, _ => none

end

end Storefront
