import Storefront.Cli.Error

/-! # File trees

A file tree holds files under names, so that a command can be given files that lie on no disk.  A
path is walked name by name, and the first name that leads nowhere decides how it fails.
-/

namespace Storefront

/-- What may stand under a name. -/
inductive FileTree where
  | file (contents : Bytes)
  | directory (entries : List (String × FileTree))

namespace FileTree

/-- The most octets of a name. -/
def maxNameSize : Nat := 255

/-- The most octets of a path. -/
def maxPathSize : Nat := 4095

/-- Where a walk has come to: what stands there and, behind it, the directories around it, the
nearest one first. -/
abbrev Place := List FileTree

/-- Goes on from a place by a name.  A dot and no name at all stay, two dots lead out, as long as
there is something around. -/
def step (place : Place) (name : String) : Except FileFault Place :=
  match place with
  | directory entries :: outer =>
    if name = "" ∨ name = "." then .ok place
    else if name = ".." then .ok (if outer.isEmpty then place else outer)
    else if maxNameSize < name.utf8ByteSize then .error .nameTooLong
    else
      match entries.lookup name with
      | some entry => .ok (entry :: place)
      | none => .error .missing
  -- Nothing lies behind a file, not even the file itself.
  | _ => .error .notDirectory

/-- Reads the file that a path leads to.  The walk starts at `here`, or at the outermost directory
around it if the path starts with a slash. -/
def read (here : Place) (path : String) : Except FileFault Bytes :=
  if path = "" then .error .missing
  else if maxPathSize < path.utf8ByteSize then .error .nameTooLong
  else
    let start := if path.toList.head? = some '/' then here.getLast?.toList else here
    match (path.splitOn "/").foldlM step start with
    | .ok (file contents :: _) => .ok contents
    | .ok _ => .error .isDirectory
    | .error fault => .error fault

end FileTree

end Storefront
