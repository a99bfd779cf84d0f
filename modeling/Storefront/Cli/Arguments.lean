/-! # Arguments

The command line names a command and its options.  Options about the output may stand before or
behind the command; of one that stands in both places the later one counts, but none may stand twice
in one place.  Arguments are taken from left to right, and the first one that is out of place, or
that asks for help, decides.
-/

namespace Storefront

/-- How answers are laid out. -/
inductive OutputFormat where
  | json
  | table
  | pretty
  deriving DecidableEq, Repr

/-- The format of a given name. -/
def OutputFormat.ofName? : String → Option OutputFormat
  | "json" => some json
  | "table" => some table
  | "pretty" => some pretty
  | _ => none

/-- What the program is asked to do. -/
inductive Command where
  | version (extended : Bool)
  | families (only : Option String)
  | errors
  | schema (family message : String) (bare : Bool)
  | decode (input : String) (hex : Bool)
  deriving DecidableEq, Repr

/-- The commands by name. -/
inductive CommandName where
  | version
  | families
  | errors
  | schema
  | decode
  | help
  deriving DecidableEq, Repr

namespace CommandName

/-- The command of a given name. -/
def ofName? : String → Option CommandName
  | "version" => some version
  | "families" => some families
  | "errors" => some errors
  | "schema" => some schema
  | "decode" => some decode
  | "help" => some help
  | _ => none

/-- The switch that a command has. -/
def switch? : CommandName → Option String
  | version => some "--extended"
  | schema => some "--bare"
  | decode => some "--hex"
  | _ => none

/-- How many operands a command takes. -/
def arity : CommandName → Nat
  | schema => 2
  | decode => 1
  | _ => 0

end CommandName

/-- What the arguments come to when nothing is run. -/
inductive Unrun where
  /-- The program is to say how it is used. -/
  | help
  /-- The program is to say which version it is. -/
  | version
  /-- The arguments cannot be made sense of. -/
  | misuse
  deriving DecidableEq, Repr

/-- What is to be run. -/
structure Invocation where
  /-- The format asked for, if any. -/
  format : Option OutputFormat
  command : Command
  deriving DecidableEq, Repr

/-- The arguments taken so far. -/
structure Arguments where
  command : Option CommandName := none
  /-- The options given since the command, or before it as long as there is none. -/
  given : List String := []
  format : Option OutputFormat := none
  family : Option String := none
  operands : List String := []
  /-- An option whose value comes next. -/
  awaiting : Option String := none
  /-- True once nothing is an option any more. -/
  literal : Bool := false
  /-- True when the log level was given before the command. -/
  levelBefore : Bool := false
  deriving DecidableEq, Repr

namespace Arguments

/-- The names of log levels. -/
def logLevels : List String := ["off", "error", "warn", "info", "debug", "trace"]

/-- The option for the log level. -/
def logLevelOption : String := "--log-level"

/-- True for the options that take a value. -/
def takesValue (a : Arguments) (name : String) : Bool :=
  ["--format", "--log-format", logLevelOption].contains name ||
    (a.command == some .families && name == "--family")

/-- Notes that an option is given.  It must not be given twice. -/
def note (a : Arguments) (name : String) : Except Unrun Arguments :=
  if a.given.contains name then .error .misuse else .ok { a with given := name :: a.given }

/-- Takes the value of an option. -/
def takeValue (a : Arguments) (name value : String) : Except Unrun Arguments :=
  let a := { a with awaiting := none }
  match name with
  | "--format" =>
    match OutputFormat.ofName? value with
    | some format => .ok { a with format := some format }
    | none => .error .misuse
  | "--log-format" => if ["text", "json"].contains value then .ok a else .error .misuse
  | "--log-level" => if logLevels.contains value then .ok a else .error .misuse
  | _ => .ok { a with family := some value }

/-- Takes an option, with its value if that is part of the argument. -/
def takeOption (a : Arguments) (name : String) (value : Option String) :
    Except Unrun Arguments :=
  if a.takesValue name then do
    let a ← a.note name
    match value with
    | some value => a.takeValue name value
    | none => .ok { a with awaiting := some name }
  else if value.isSome then .error .misuse
  else if name == "--help" then .error .help
  else if name == "--version" && a.command.isNone then .error .version
  else if a.command.bind CommandName.switch? == some name then a.note name
  else .error .misuse

/-- Takes an argument that is no option: the command first, then its operands. -/
def takeOperand (a : Arguments) (s : String) : Except Unrun Arguments :=
  match a.command with
  | none =>
    match CommandName.ofName? s with
    | some command =>
      -- Behind a bare double dash a name is only a word, and no command is left to take it.
      if a.literal then .error .misuse
      else
        .ok { a with
          command := some command, given := [], levelBefore := a.given.contains logLevelOption }
    | none => .error .misuse
  | some command =>
    if command.arity ≤ a.operands.length then .error .misuse
    else if command = .decode ∧ s = "" then .error .misuse
    else .ok { a with operands := a.operands ++ [s] }

/-- Takes one argument. -/
def take (a : Arguments) (s : String) : Except Unrun Arguments :=
  -- Whatever follows the help command names what help is wanted on, options included.
  if a.command = some .help then .ok { a with operands := a.operands ++ [s] }
  else if a.literal then a.takeOperand s
  else
    match s.toList, a.awaiting with
    -- A single dash is a word like any other; it stands for the standard input.
    | ['-'], none => a.takeOperand s
    | ['-'], some name => a.takeValue name s
    -- A value that starts with a dash has to be joined to its option.
    | '-' :: _, some _ => .error .misuse
    | ['-', '-'], none => .ok { a with literal := true }
    | '-' :: '-' :: cs, none =>
      let name := String.ofList ('-' :: '-' :: cs.takeWhile (· != '='))
      match cs.dropWhile (· != '=') with
      | [] => a.takeOption name none
      | _ :: value => a.takeOption name (some (String.ofList value))
    | '-' :: c :: _, none =>
      -- Neither letter takes a value, so what else is bundled with it does not matter.
      if c = 'h' then .error .help
      else if c = 'V' ∧ a.command = none then .error .version
      else .error .misuse
    | _, none => a.takeOperand s
    | _, some name => a.takeValue name s

/-- What the arguments ask for once all have been taken. -/
def command? (a : Arguments) : Except Unrun Command :=
  match a.command, a.operands with
  | some .version, _ => .ok (.version (a.given.contains "--extended"))
  | some .families, _ => .ok (.families a.family)
  | some .errors, _ => .ok .errors
  | some .schema, [family, message] =>
    .ok (.schema family message (a.given.contains "--bare"))
  | some .decode, [input] => .ok (.decode input (a.given.contains "--hex"))
  | some .help, [] => .error .help
  | some .help, [name] =>
    if (CommandName.ofName? name).isSome then .error .help else .error .misuse
  | _, _ => .error .misuse

/-- Checks the log level that the surroundings set.  It does not count where the arguments set one
both before and behind the command. -/
def checkLevel (a : Arguments) (level : Option String) : Except Unrun Unit :=
  match level with
  | none => .ok ()
  | some level =>
    if logLevels.contains level ∨ (a.levelBefore ∧ a.given.contains logLevelOption) then .ok ()
    else .error .misuse

/-- Makes sense of arguments, given the log level that the surroundings set. -/
def parse (level : Option String) (arguments : List String) : Except Unrun Invocation := do
  let a ← arguments.foldlM take {}
  if a.awaiting.isSome then .error .misuse
  let command ← a.command?
  a.checkLevel level
  pure ⟨a.format, command⟩

end Arguments

end Storefront
