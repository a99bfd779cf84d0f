import Storefront.Dump.Style
import Storefront.Store.FetchOptions
import Storefront.Store.Message
import Storefront.Text.Quoted

/-! # Dumps of values

What values and messages look like to people.  A secret shows no more than how long it is, so that
messages can be logged.
-/

namespace Storefront

open Dump

/-- A secret: nothing of it but its length. -/
def dumpSecret (s : String) : Shown :=
  if s.isEmpty then atom "\"\""
  else atom s!"<redacted:{s.utf8ByteSize} bytes>"

/-- A stream: how far it has come, not what it carries. -/
def StreamField.dump (field : StreamField) : Shown :=
  openStruct "StreamField"
    [("declared", option (field.declared.map fun n => atom (toString n))),
      ("received", atom (toString field.received)),
      ("chunks", atom (toString field.chunks)),
      ("complete", atom (toString field.complete))]

/-- A set of fetch options: the names of the parts in it. -/
def FetchOptions.dump (s : FetchOptions) : Shown :=
  Dump.set (s.toList.map fun option => atom (Quoted.text option.text))

mutual

/-- What a value of a type looks like. -/
def ValueType.dump : ValueType → Value → Shown
  | .unsigned _, v => atom (toString v.toNumber)
  | .signed, v =>
    match v with
    | .signed i => atom (toString i)
    | _ => atom "0"
  | .flag, v =>
    match v with
    | .flag b => atom (toString b)
    | _ => atom "false"
  | .text, v => atom (Quoted.text v.toText)
  | .secret, v => dumpSecret v.toText
  | .blob, v =>
    match v with
    | .blob bs => atom (Quoted.bytes bs)
    | _ => atom (Quoted.bytes [])
  | .status, v => tuple "Status" [atom (toString v.toNumber)]
  | .choice e, v => atom ((e.member? v.toNumber).getD "")
  | .options, v => FetchOptions.dump ⟨v.toNumber⟩
  | .stream, v =>
    match v with
    | .stream field => field.dump
    | _ => StreamField.dump {}
  | .list element, v => Dump.list (v.items.map element.dump)
  | .pair a b, v =>
    match v with
    | .pair x y => tuple "" [a.dump x, b.dump y]
    | _ => tuple "" []
  | .record name layout _, v => struct name (layout.dump v.fields)

/-- What the fields of a layout look like. -/
def Layout.dump : Layout → List Value → List (String × Shown)
  | .nil, _ => []
  | .field about type _ rest, fields =>
    (about.name, type.dump (fields.head?.getD type.initial)) :: rest.dump fields.tail
  | .group _ _ body rest, fields =>
    body.dump (fields.take body.size) ++ rest.dump (fields.drop body.size)

end

/-- What an envelope looks like. -/
def Envelope.dump (e : Envelope) : Shown :=
  struct "Envelope"
    [("request_id", atom (toString e.requestId)), ("sender", atom (Quoted.text e.sender))]

/-- What a message looks like. -/
def Message.dump (m : Message) : Shown :=
  struct m.type.name (("envelope", m.envelope.dump) :: m.type.recordType.layout.dump m.fields)

/-- What a context looks like: the families with a record, not the records. -/
def Context.dump (ctx : Context) : Shown :=
  struct "Context"
    [("families", Dump.list (ctx.familyNames.map fun name => atom (Quoted.text name))),
      ("log_unknown_tags", atom (toString ctx.logUnknownTags))]

/-- What a condition looks like. -/
def Condition.dump (c : Condition) : Shown :=
  struct "ErrorCondition" [("code", atom (toString c.code))]

/-- What a result looks like. -/
def Status.dump (s : Status) : Shown := tuple "Status" [atom (toString s.code)]

end Storefront
