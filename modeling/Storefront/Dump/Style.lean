/-! # Laying out dumps

A dump is either one line or a tree with one line for each part, indented by its depth.  A part is
given as what it looks like in either style.
-/

namespace Storefront.Dump

/-- How a dump is laid out. -/
inductive Style where
  /-- All on one line. -/
  | line
  /-- A line for each part; this one is at the given depth. -/
  | tree (depth : Nat)
  deriving DecidableEq, Repr

/-- What something looks like in either style. -/
abbrev Shown := Style → String

/-- The white space in front of a line at a depth. -/
def indent (depth : Nat) : String := String.ofList (List.replicate (4 * depth) ' ')

/-- Something that is the same in either style. -/
def atom (s : String) : Shown := fun _ => s

/-- Parts between brackets.  On one line `pad` stands inside the brackets.  `trailer` is a last part
that no comma follows. -/
def block (opening closing pad : String) (parts : List Shown) (trailer : Option String) : Shown
  | .line =>
    let shown := parts.map (· .line) ++ trailer.toList
    if shown.isEmpty then opening ++ closing
    else opening ++ pad ++ ", ".intercalate shown ++ pad ++ closing
  | .tree depth =>
    -- Every part has a comma behind it, the last one too.
    let lines := parts.map fun part => indent (depth + 1) ++ part (.tree (depth + 1)) ++ ",\n"
    let lines := lines ++ trailer.toList.map fun last => indent (depth + 1) ++ last ++ "\n"
    if lines.isEmpty then opening ++ closing
    else opening ++ "\n" ++ String.join lines ++ indent depth ++ closing

/-- A part with its name. -/
def named (name : String) (part : Shown) : Shown := fun style => name ++ ": " ++ part style

/-- Named parts under a name. -/
def struct (name : String) (fields : List (String × Shown)) : Shown :=
  block (name ++ " \x7b") "\x7d" " " (fields.map fun (field, part) => named field part) none

/-- Named parts under a name, with more that are not shown. -/
def openStruct (name : String) (fields : List (String × Shown)) : Shown :=
  block (name ++ " \x7b") "\x7d" " " (fields.map fun (field, part) => named field part)
    (some "..")

/-- Parts in order, between parentheses after a name. -/
def tuple (name : String) (parts : List Shown) : Shown := block (name ++ "(") ")" "" parts none

/-- The parts of a list. -/
def list (parts : List Shown) : Shown := block "[" "]" "" parts none

/-- The parts of a set. -/
def set (parts : List Shown) : Shown := block "\x7b" "\x7d" "" parts none

/-- Something that may be missing. -/
def option (part : Option Shown) : Shown :=
  match part with
  | some part => tuple "Some" [part]
  | none => atom "None"

end Storefront.Dump
