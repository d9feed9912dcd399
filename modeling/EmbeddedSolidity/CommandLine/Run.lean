import EmbeddedSolidity.CommandLine.Request
import EmbeddedSolidity.Compile
import EmbeddedSolidity.Json.Printer
import EmbeddedSolidity.Report.Output

/-!
# Running command lines

What a command line prints and the status it ends with. How long a run took is not known here:
a transcript only tells that the time follows.

* `Request.run`, `runWords`.
-/

namespace EmbeddedSolidity.CommandLine

open Json (Value)

/-- What a command line prints, and the status it ends with. -/
structure Transcript where
  output : String := ""
  /-- The time that the run took follows the output, and a line end. -/
  isTimed : Bool := false
  errors : String := ""
  status : Nat := 0
deriving DecidableEq, Repr

namespace Transcript

/-- Print more to the output. -/
def print (t : Transcript) (s : String) : Transcript :=
  { t with output := t.output ++ s }

/-- Print more to the errors. -/
def complain (t : Transcript) (s : String) : Transcript :=
  { t with errors := t.errors ++ s }

/-- The whole output of a run that took some time. -/
def outputWith (elapsed : String) (t : Transcript) : String :=
  if t.isTimed then t.output ++ elapsed ++ "\n" else t.output

/-- End with an error. -/
def abort (t : Transcript) (message : String) : Transcript :=
  { t.complain ("Error: " ++ message ++ "\n") with status := 1 }

end Transcript

/-! ## Styles -/

/-- A text in a style of terminals, which is switched off behind it. -/
def styled (style : Nat) (s : String) : String :=
  "\x1b[" ++ toString style ++ "m" ++ s ++ "\x1b[0m"

/-- Bold text. -/
def bold (s : String) : String :=
  styled 1 s

/-- Dim text. -/
def dim (s : String) : String :=
  styled 2 s

/-- Red text. -/
def red (s : String) : String :=
  styled 31 s

/-- Green text. -/
def green (s : String) : String :=
  styled 32 s

/-! ## Reports -/

/-- Characters without the marks of hexadecimal numbers at their front. -/
def withoutMarks : List Char → List Char
  | '0' :: 'x' :: rest => withoutMarks rest
  | cs => cs

/-- How many bytes of bytecode hexadecimal digits stand for. -/
def bytecodeSize (object : String) : Nat :=
  (String.ofList (withoutMarks object.toList)).utf8ByteSize / 2

/-- The line for an artifact. -/
def summaryLine (e : LocatedArtifact) : String :=
  bold e.compiled.id.name ++ " " ++ dim e.location.text ++ "  abi: " ++
    toString e.compiled.artifact.abi.length ++ " entries, bytecode: " ++
    toString (bytecodeSize e.compiled.artifact.bytecode.object) ++ " bytes\n"

/-- The summary of a report. -/
def summary (r : Report) : String :=
  if r.artifacts.isEmpty && r.diagnostics.isEmpty then "No sol! snippets found.\n"
  else String.join (r.artifacts.map summaryLine)

/-- The artifacts of a report as JSON. -/
def artifactsAsJson (r : Report) : String :=
  let entry (e : LocatedArtifact) : Value :=
    .object
      [("artifact", e.compiled.artifact.value), ("id", .string e.compiled.id.name),
        ("location", .string e.location.text)]
  (Value.array (r.artifacts.map entry)).pretty ++ "\n"

/-- Print a report. -/
def present (asJson : Bool) (r : Report) : Transcript :=
  let shown : Transcript := { output := if asJson then artifactsAsJson r else summary r }
  let shown := r.diagnostics.foldl
    (fun t d => t.complain (red "error" ++ ": " ++ d.text ++ "\n")) shown
  let failed := r.diagnostics.length
  match r.fatal? with
  | some e => shown.abort ("run aborted: " ++ e.message)
  | none =>
    if !r.isSuccess then
      shown.abort (toString failed ++ " of " ++ toString (failed + r.artifacts.length) ++
        " snippet(s) failed")
    else if asJson then shown
    else
      { shown.print ("\n" ++ green "Compiled" ++ " " ++ toString r.artifacts.length ++
          " snippet(s) in ") with
        isTimed := true }

/-- Write the artifacts of a report to a directory, if one is given. -/
def writeIfAsked (r : Report) : Option String → Plan (Except Error Unit)
  | none => return .ok ()
  | some directory => do return (← r.writeArtifacts directory).map fun _ => ()

/-! ## Requests -/

/-- Carry out a request. `temporary` is the directory for temporary files. -/
def Request.run (temporary : String) : Request → Plan Transcript
  | .compile options paths output asJson => do
    match ← compileSources temporary options paths with
    | .error e => return ({} : Transcript).abort e.withHint
    | .ok report =>
      match ← writeIfAsked report output with
      | .error e => return ({} : Transcript).abort e.withHint
      | .ok () => return present asJson report
  | .identify file => do
    match ← Plan.readText file with
    | .ok text => return { output := (Snippet.Id.ofText text).name ++ "\n" }
    | .error f => return ({} : Transcript).abort f.text

/-- What is printed where there is no request. -/
def Stop.transcript : Stop → Transcript
  | .page text => { output := text }
  | .pageInstead text => { errors := text, status := 2 }
  | .failed c f => { errors := f.text c.showsHelp, status := 2 }

/-- Carry out a command line. -/
def runWords (temporary : String) (words : List String) : Plan Transcript :=
  match Request.read words with
  | .ok request => request.run temporary
  | .error stop => return stop.transcript

end EmbeddedSolidity.CommandLine
