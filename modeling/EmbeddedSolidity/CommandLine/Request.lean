import EmbeddedSolidity.CommandLine.Reader
import EmbeddedSolidity.Options.Basic

/-!
# Requests

The commands of the program, and what a command line asks for.

* `Request.read` : the request of a command line, or why reading stops.
-/

namespace EmbeddedSolidity.CommandLine

/-- What a command line asks for. -/
inductive Request where
  /-- Compile the snippets of source files; write their artifacts to a directory, if one is
  given, and print them as JSON or as a summary. -/
  | compile (options : Options) (paths : List String) (output : Option String) (asJson : Bool)
  /-- Print the id of the snippet that a file holds. -/
  | identify (file : String)
deriving DecidableEq, Repr

/-! ## The commands -/

/-- The name of the program. -/
def programName : String :=
  "inline-sol"

/-- The name and the version of the program. -/
def version : String :=
  programName ++ " 0.1.0"

/-- The option for more messages. -/
def verboseOption : Argument :=
  { name := "VERBOSE", short := some 'v', long := some "verbose", about := "Enable verbose logging" }

/-- The option for the help page. -/
def helpOption : Argument :=
  { name := "HELP", short := some 'h', long := some "help", role := .help, about := "Print help" }

/-- The option for the version. -/
def versionOption : Argument :=
  { name := "VERSION", short := some 'V', long := some "version", role := .version
    about := "Print version" }

/-- The command that compiles. -/
def compileCommand : Command where
  title := programName ++ " compile"
  about := "Compile every sol! snippet in the given files or directories"
  positionals :=
    [{ name := "PATHS", role := .many .path, isRequired := true
       about := "Rust source files or directories to scan" }]
  options :=
    [{ name := "SOLC", long := some "solc", role := .one .text
       about := "Solidity compiler version (e.g. 0.8.17)" },
      { name := "FORGE", long := some "forge", role := .one .text
        about := "forge executable name or path" },
      { verboseOption with isInherited := true },
      { name := "WORKSPACE", long := some "workspace", role := .one .path
        about := "Build workspace directory; must be missing, empty or a previous workspace " ++
          "(default: under the system temp dir)" },
      { name := "TIMEOUT", long := some "timeout", role := .one .number
        about := "Seconds to wait for one forge build; 0 waits indefinitely" },
      { name := "OUT", short := some 'o', long := some "out", role := .one .path
        about := "Write artifacts as <id>.json into this directory" },
      { name := "JSON", long := some "json"
        about := "Print artifacts as JSON instead of a summary" },
      helpOption]

/-- The command that prints an id. -/
def identifyCommand : Command where
  title := programName ++ " id"
  about := "Print the snippet id of a Solidity file's contents"
  positionals :=
    [{ name := "FILE", role := .one .path, isRequired := true
       about := "Path to the Solidity source" }]
  options := [{ verboseOption with isInherited := true }, helpOption]

/-- The command that shows help pages. -/
def helpCommand : Command where
  title := programName ++ " help"
  about := "Print this message or the help of the given subcommand(s)"
  positionals :=
    [{ name := "COMMAND", role := .many .text, about := "Print help for the subcommand(s)" }]

/-- The commands below the program. -/
def commands : List (String × Command) :=
  [("compile", compileCommand), ("id", identifyCommand), ("help", helpCommand)]

/-- The program. -/
def program : Command where
  title := programName
  about := "Compile Solidity snippets embedded in Rust sources"
  options := [verboseOption, helpOption, versionOption]
  subcommands := commands.map fun c => ⟨c.1, c.2.about⟩

/-! ## From words to requests -/

/-- The help page of the command that words name, below another command. -/
def helpFor (c : Command) : List String → Stop
  | [] => .page c.helpPage
  | word :: rest =>
    match if c.subcommands.isEmpty then none else commands.lookup word with
    | some below => helpFor below rest
    | none => .failed c (.unknownCommand word [] (c.usage []))

/-- The first value that is given for an argument. -/
def valueOf (given : List Given) (name : String) : Option String :=
  (given.find? (·.argument.name == name)).bind (·.values.head?)

/-- The request for which arguments are given. -/
def compileRequest (given : List Given) : Request :=
  let paths := ((given.find? (·.argument.name == "PATHS")).map (·.values)).getD []
  let timeout := (valueOf given "TIMEOUT").bind fun s => (Reading.numberOf s).toOption
  .compile ⟨valueOf given "SOLC", valueOf given "FORGE", valueOf given "WORKSPACE", timeout⟩ paths
    (valueOf given "OUT") (given.any (·.argument.name == "JSON"))

/-- The request of a command line. -/
def Request.read (words : List String) : Except Stop Request := do
  match (← program.read version (commands.map (·.2)) words).next with
  | some ("compile", rest) => return compileRequest (← compileCommand.read version [] rest).given
  | some ("id", rest) =>
    let r ← identifyCommand.read version [] rest
    return .identify ((valueOf r.given "FILE").getD "")
  | some (_, rest) => .error (helpFor program rest)
  | none => .error (.pageInstead program.helpPage)

end EmbeddedSolidity.CommandLine
