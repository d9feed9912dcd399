import EmbeddedSolidity.CommandLine.Page

/-!
# Command lines that cannot be read

Why a command line cannot be read, with what may have been meant instead.

* `Failure.text` : what is shown for a failure.
-/

namespace EmbeddedSolidity.CommandLine

/-- What may have been meant. -/
inductive Tip where
  | argument (label : String)
  | commands (names : List String)
  /-- The option of a command that follows. -/
  | elsewhere (command label : String)
  /-- The argument behind two dashes. -/
  | asValue (text : String)
  /-- The command without the two dashes in front of it. -/
  | withoutDashes (command : String)
deriving DecidableEq, Repr

/-- Why a command line cannot be read. -/
inductive Failure where
  | unexpected (text : String) (tips : List Tip) (usage : String)
  | unexpectedValue (value label usage : String)
  | valueMissing (label : String)
  | valueInvalid (value label reason : String)
  | repeated (label usage : String)
  | missing (labels : List String) (usage : String)
  | unknownCommand (name : String) (tips : List Tip) (usage : String)
  | noCommand (title : String) (names : List String) (usage : String)
deriving DecidableEq, Repr

/-- The text in quotes. -/
def quote (s : String) : String :=
  "'" ++ s ++ "'"

/-- The words for a tip. -/
def Tip.text : Tip → String
  | .argument label => "a similar argument exists: " ++ quote label
  | .commands [name] => "a similar subcommand exists: " ++ quote name
  | .commands names => "some similar subcommands exist: " ++ ", ".intercalate (names.map quote)
  | .elsewhere command label => quote (command ++ " " ++ label) ++ " exists"
  | .asValue text =>
    "to pass " ++ quote text ++ " as a value, use " ++ quote ("-- " ++ text)
  | .withoutDashes command =>
    "subcommand " ++ quote command ++ " exists; to use it, remove the '--' before it"

/-- Tips on lines of their own. -/
def tipLines (tips : List Tip) : String :=
  if tips.isEmpty then "" else "\n" ++ String.join (tips.map fun t => "\n  tip: " ++ t.text)

namespace Failure

/-- What is wrong, with tips. -/
def message : Failure → String
  | .unexpected text tips _ => "unexpected argument " ++ quote text ++ " found" ++ tipLines tips
  | .unexpectedValue value label _ =>
    "unexpected value " ++ quote value ++ " for " ++ quote label ++ " found; no more were expected"
  | .valueMissing label => "a value is required for " ++ quote label ++ " but none was supplied"
  | .valueInvalid value label reason =>
    "invalid value " ++ quote value ++ " for " ++ quote label ++ ": " ++ reason
  | .repeated label _ => "the argument " ++ quote label ++ " cannot be used multiple times"
  | .missing labels _ =>
    "the following required arguments were not provided:" ++
      String.join (labels.map fun label => "\n  " ++ label)
  | .unknownCommand name tips _ => "unrecognized subcommand " ++ quote name ++ tipLines tips
  | .noCommand title names _ =>
    quote title ++ " requires a subcommand but one was not provided\n  [subcommands: " ++
      ", ".intercalate names ++ "]"

/-- The usage line that is shown with a failure. -/
def usage? : Failure → Option String
  | .unexpected _ _ usage | .unexpectedValue _ _ usage | .repeated _ usage | .missing _ usage
  | .unknownCommand _ _ usage | .noCommand _ _ usage => some usage
  | .valueMissing _ | .valueInvalid _ _ _ => none

/-- What is shown for a failure. `helpful` if an option shows the help page. -/
def text (helpful : Bool) (f : Failure) : String :=
  let usage :=
    match f.usage? with
    | some usage => "\n\n" ++ usage
    | none => ""
  "error: " ++ f.message ++ usage ++
    (if helpful then "\n\nFor more information, try '--help'.\n" else "\n")

end Failure

end EmbeddedSolidity.CommandLine
