import EmbeddedSolidity.Error
import EmbeddedSolidity.Json.Printer
import EmbeddedSolidity.Json.Reader
import EmbeddedSolidity.Manifest
import EmbeddedSolidity.Path
import EmbeddedSolidity.Text.Quoted

/-!
# Options

What a caller may choose of a run, each choice optional, and the configuration that the choices
and the defaults make.

* `Options.read`, `Options.write` : options as JSON, with a key for each option and no others;
* `Options.resolve` : the configuration, or the first choice that is not valid.
-/

namespace EmbeddedSolidity

/-- The choices of a caller. -/
structure Options where
  /-- Version of the language. -/
  solc : Option String := none
  /-- Name or path of the compiler. -/
  executable : Option String := none
  /-- Root of the workspace. -/
  workspace : Option String := none
  /-- Seconds to wait for one run of the compiler; zero waits without limit. -/
  timeout : Option Nat := none
deriving DecidableEq, Repr

namespace Options

open Json

/-! ## Options as JSON -/

/-- The keys of the options. -/
def keys : List String :=
  ["solc", "forgeExecutable", "workspaceDir", "buildTimeoutSecs"]

/-- The fields read so far; the outer layer tells that the key was met. -/
structure Fields where
  solc : Option (Option String) := none
  executable : Option (Option String) := none
  workspace : Option (Option String) := none
  timeout : Option (Option Nat) := none

/-- Read the member behind a key. -/
def Fields.step (f : Fields) (key : String) : Reader Fields := do
  match key with
  | "solc" => return { f with solc := ← readField key f.solc (readOptional (readText "a string")) }
  | "forgeExecutable" =>
    return { f with executable := ← readField key f.executable (readOptional (readText "a string")) }
  | "workspaceDir" =>
    return { f with workspace := ← readField key f.workspace (readOptional (readText "path string")) }
  | "buildTimeoutSecs" =>
    return { f with timeout := ← readField key f.timeout (readOptional (readUnsigned "u64")) }
  | _ => Reader.failBare (.unknownField key keys)

/-- A missing field is none. -/
def Fields.options (f : Fields) : Options :=
  ⟨f.solc.join, f.executable.join, f.workspace.join, f.timeout.join⟩

/-- Options written as the list of their values. -/
def readItems : Reader Options := do
  let shape := "struct RawOptions with 4 elements"
  let solc ← readElement 0 shape (readOptional (readText "a string"))
  let executable ← readElement 1 shape (readOptional (readText "a string"))
  let workspace ← readElement 2 shape (readOptional (readText "path string"))
  let timeout ← readElement 3 shape (readOptional (readUnsigned "u64"))
  return ⟨solc, executable, workspace, timeout⟩

/-- Options at the cursor. -/
def reader : Reader Options :=
  readRecord depthLimit "struct RawOptions"
    (do return (← readFields Fields.step {}).options) readItems

/-- The options of a JSON text. -/
def read (text : String) : Except Error Options :=
  match readDocument reader text with
  | .ok o => .ok o
  | .error e => .error (.options e.message)

/-- A string or null. -/
def optionalText : Option String → Value
  | some s => .string s
  | none => .null

/-- The options as a JSON text, with all keys. -/
def write (o : Options) : String :=
  let timeout : Value :=
    match o.timeout with
    | some n => .number (.integer n)
    | none => .null
  let value : Value := .object
    [("solc", optionalText o.solc), ("forgeExecutable", optionalText o.executable),
      ("workspaceDir", optionalText o.workspace), ("buildTimeoutSecs", timeout)]
  value.compact

end Options

/-! ## The configuration of a run -/

/-- Choices and defaults, all valid. -/
structure Config where
  solc : String
  executable : String
  root : String
  /-- The root is the shared directory for temporary files. -/
  isDefaultRoot : Bool
  /-- Seconds to wait for one run of the compiler. -/
  timeout : Option Nat
deriving DecidableEq, Repr

/-- Three groups of ASCII digits with points between them. -/
def isVersion (version : String) : Bool :=
  let groups := Text.cut '.' version.toList
  groups.length == 3 && groups.all fun g => !g.isEmpty && g.all Char.isDigit

/-- The name of the compiler where none is chosen. -/
def defaultExecutable : String :=
  "forge"

/-- The directory of the shared workspace below the one for temporary files. -/
def defaultRootName : String :=
  "__inline-sol-forge-project__"

/-- Seconds to wait where no limit is chosen. -/
def defaultTimeout : Nat :=
  600

/-- The configuration that the options choose; `temporary` is the directory for temporary files. -/
def Options.resolve (temporary : String) (o : Options) : Except Error Config := do
  let solc ←
    match o.solc with
    | none => .ok Manifest.defaultSolc
    | some version =>
      if isVersion version then .ok version
      else .error (.options ("`solc` must be a version like " ++ Manifest.defaultSolc ++ ", got " ++
        Text.quoted version))
  let executable ←
    match o.executable with
    | none => .ok defaultExecutable
    | some name =>
      if Text.isBlank name then .error (.options "`forgeExecutable` must not be empty") else .ok name
  let timeout :=
    match o.timeout with
    | none => some defaultTimeout
    | some 0 => none
    | some secs => some secs
  return ⟨solc, executable, o.workspace.getD (Path.join temporary defaultRootName),
    o.workspace.isNone, timeout⟩

end EmbeddedSolidity
