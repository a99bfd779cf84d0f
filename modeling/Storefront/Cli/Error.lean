import Storefront.Schema.Error

/-! # Failures of commands

Each failure has a wording and ends the program with a code: 64 for arguments that name what there
is not, 60 for input that is no message, 1 for files that cannot be had, and 125 for what is not the
caller's fault.
-/

namespace Storefront

/-- Why a file cannot be read. -/
inductive FileFault where
  | missing
  | denied
  | notDirectory
  | isDirectory
  | nameTooLong
  | other (text : String)
  deriving DecidableEq, Repr

/-- The wording of a fault. -/
def FileFault.message : FileFault → String
  | missing => "No such file or directory (os error 2)"
  | denied => "Permission denied (os error 13)"
  | notDirectory => "Not a directory (os error 20)"
  | isDirectory => "Is a directory (os error 21)"
  | nameTooLong => "File name too long (os error 36)"
  | other text => text

/-- Why a command fails. -/
inductive CliError where
  | unknownFamily (family : String)
  | unknownMessage (family message : String)
  /-- The input cannot be had; `name` says which. -/
  | file (name : String) (fault : FileFault)
  | oddDigits
  /-- Two octets where digits are called for are no text. -/
  | brokenDigits
  | invalidDigits (text : String)
  | frame (error : WireError)
  | incompleteFrame (size : Nat)
  | decode (error : SchemaError)
  deriving DecidableEq, Repr

namespace CliError

/-- The wording of a failure. -/
def message : CliError → String
  | unknownFamily family => s!"unknown family: {family}"
  | unknownMessage family message => s!"unknown message in {family}: {message}"
  | file name fault => s!"{name}: {fault.message}"
  | oddDigits => "hex input has an odd number of digits"
  | brokenDigits => "invalid hex input"
  | invalidDigits text => s!"invalid hex digits: {text}"
  | frame (.io fault) => s!"frame: {fault.message}"
  | frame error => s!"frame: {error.message}"
  | incompleteFrame size => s!"incomplete frame ({size} bytes)"
  | decode (.wire (.io fault)) => s!"decode: {fault.message}"
  | decode error => s!"decode: {error.message}"

/-- Arguments name what there is not. -/
def usageCode : Nat := 64

/-- The input is no message. -/
def dataCode : Nat := 60

/-- A file cannot be had. -/
def failureCode : Nat := 1

/-- The fault lies elsewhere. -/
def internalCode : Nat := 125

/-- The code of a failed frame. -/
def wireCode : WireError → Nat
  | .io .invalidData => dataCode
  | .io _ => internalCode
  | _ => dataCode

/-- The code that a failure ends the program with. -/
def exitCode : CliError → Nat
  | unknownFamily _ | unknownMessage .. => usageCode
  | file _ .missing | file _ .denied => failureCode
  | file .. => internalCode
  | oddDigits | brokenDigits | invalidDigits _ | incompleteFrame _ => dataCode
  | frame error => wireCode error
  | decode (.wire error) => wireCode error
  | decode (.duplicateRegistration ..) | decode (.typeAlreadyRegistered _)
  | decode (.unregistered _) => internalCode
  | decode _ => dataCode

end CliError

end Storefront
