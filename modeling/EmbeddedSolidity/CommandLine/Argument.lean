/-!
# Arguments and commands

What may stand on a command line: the arguments of a command, each an option with a name or a
place of its own, and the commands below a command.

* `Argument.label` : how messages name an argument.
-/

namespace EmbeddedSolidity.CommandLine

/-- What a value must be. -/
inductive Domain where
  | text
  /-- A text that is not empty. -/
  | path
  /-- A number of 64 bits. -/
  | number
deriving DecidableEq, Repr

/-- What an argument does. -/
inductive Role where
  | flag
  /-- Takes one value. -/
  | one (domain : Domain)
  /-- Takes any number of values. -/
  | many (domain : Domain)
  /-- Shows the help page. -/
  | help
  /-- Shows the version. -/
  | version
deriving DecidableEq, Repr

/-- An argument. One without a long name is known by its place. -/
structure Argument where
  name : String
  short : Option Char := none
  long : Option String := none
  role : Role := .flag
  isRequired : Bool := false
  /-- A command above has the argument too. -/
  isInherited : Bool := false
  about : String
deriving DecidableEq, Repr

namespace Argument

/-- The argument is known by its place. -/
def isPositional (a : Argument) : Bool :=
  a.long.isNone && a.short.isNone

/-- The argument takes values. -/
def takesValues (a : Argument) : Bool :=
  match a.role with
  | .one _ | .many _ => true
  | _ => false

/-- What a value must be. -/
def domain (a : Argument) : Domain :=
  match a.role with
  | .one d | .many d => d
  | _ => .text

/-- The place of a value in a usage line. -/
def valueLabel (a : Argument) : String :=
  let inner :=
    if a.isPositional && !a.isRequired then "[" ++ a.name ++ "]" else "<" ++ a.name ++ ">"
  match a.role with
  | .many _ => inner ++ "..."
  | _ => inner

/-- The argument belongs to the command itself: it is not inherited, and shows no page. -/
def isOwn (a : Argument) : Bool :=
  !a.isInherited && a.role != .help && a.role != .version

/-- How messages and usage lines name the argument. -/
def label (a : Argument) : String :=
  let value := if a.takesValues then a.valueLabel else ""
  match a.long, a.short with
  | some long, _ => "--" ++ long ++ (if value.isEmpty then "" else " " ++ value)
  | none, some c => "-" ++ String.singleton c ++ (if value.isEmpty then "" else " " ++ value)
  | none, none => value

end Argument

/-- The name of a command below another one, and what it does. -/
structure Subcommand where
  name : String
  about : String
deriving DecidableEq, Repr

/-- A command. -/
structure Command where
  /-- The words that call it. -/
  title : String
  about : String
  /-- Arguments known by their places, in order. -/
  positionals : List Argument := []
  /-- Other arguments, in the order of the help page. -/
  options : List Argument := []
  /-- The commands below it, one of which must follow. -/
  subcommands : List Subcommand := []
deriving DecidableEq, Repr

namespace Command

/-- The option of a long name. -/
def long? (c : Command) (name : String) : Option Argument :=
  c.options.find? (·.long == some name)

/-- The option of a short name. -/
def short? (c : Command) (name : Char) : Option Argument :=
  c.options.find? (·.short == some name)

/-- The long names of the options. -/
def longNames (c : Command) : List String :=
  c.options.filterMap (·.long)

/-- The arguments that belong to the command itself. -/
def own (c : Command) : List Argument :=
  (c.positionals ++ c.options).filter (·.isOwn)

/-- The command has a help page that an option shows. -/
def showsHelp (c : Command) : Bool :=
  c.options.any (·.role == .help)

end Command

end EmbeddedSolidity.CommandLine
