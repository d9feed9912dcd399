import EmbeddedSolidity.CommandLine.Argument

/-!
# Usage lines and help pages

A usage line shows how a command is called: with everything that it may be given, or with what
was given and what is missing. A help page describes a command and all its arguments, in columns.

* `Command.usage`, `Command.helpPage`.
-/

namespace EmbeddedSolidity.CommandLine

/-- Drop texts that came before. -/
def distinct : List String → List String
  | [] => []
  | s :: rest => s :: (distinct rest).filter (· != s)

namespace Command

/-- Some option is neither the one for help nor the one for the version. -/
def hasOwnOptions (c : Command) : Bool :=
  c.options.any fun a => a.role != .help && a.role != .version

/-- The usage line: with these arguments if there are any, and in general otherwise. -/
def usage (c : Command) (used : List Argument) : String :=
  let options :=
    if used.isEmpty then if c.hasOwnOptions then ["[OPTIONS]"] else []
    else distinct ((used.filter (!·.isPositional)).map Argument.label)
  let below := if c.subcommands.isEmpty then [] else ["<COMMAND>"]
  "Usage: " ++ " ".intercalate
    (c.title :: options ++ c.positionals.map Argument.label ++ below)

/-- The arguments of the command itself as alternatives. -/
def alternatives (c : Command) : String :=
  let one (a : Argument) : String := if a.isPositional then a.name else a.label
  "<" ++ "|".intercalate (c.own.map one) ++ ">"

/-- The usage line with the arguments of the command itself as alternatives, and the others of
these arguments in front. -/
def alternativesUsage (c : Command) (used : List Argument) : String :=
  let others := (used.filter fun a => !a.isOwn && !a.isPositional).map Argument.label
  let below := if c.subcommands.isEmpty then [] else ["<COMMAND>"]
  "Usage: " ++ " ".intercalate (c.title :: distinct others ++ [c.alternatives] ++ below)

/-- A text and blanks up to a width. -/
def column (width : Nat) (s : String) : String :=
  s ++ String.ofList (List.replicate (width - s.length) ' ')

/-- Lines with two columns. -/
def rows (entries : List (String × String)) : String :=
  let width := (entries.map fun e => e.1.length).foldl max 2
  String.join (entries.map fun e => "  " ++ column (width + 2) e.1 ++ e.2 ++ "\n")

/-- The left column of an option: the short name has a place of its own. -/
def optionColumn (a : Argument) : String :=
  match a.short with
  | some c => "-" ++ String.singleton c ++ ", " ++ a.label
  | none => "    " ++ a.label

/-- A headed part of a page, if it holds anything. -/
def headed (heading : String) (entries : List (String × String)) : String :=
  if entries.isEmpty then "" else "\n" ++ heading ++ ":\n" ++ rows entries

/-- The help page. -/
def helpPage (c : Command) : String :=
  c.about ++ "\n\n" ++ c.usage [] ++ "\n" ++
    headed "Commands" (c.subcommands.map fun e => (e.name, e.about)) ++
    headed "Arguments" (c.positionals.map fun a => (a.label, a.about)) ++
    headed "Options" (c.options.map fun a => (optionColumn a, a.about))

end Command

end EmbeddedSolidity.CommandLine
