import EmbeddedSolidity.Compile
import EmbeddedSolidity.Report.Output

/-!
# Build scripts

Compiling the snippets of a package while it is built. The package tells the build tool when to
come again and what went wrong by lines on standard output, and any failure fails the build.

* `BuildScript.run` : the report or the error, and what is printed;
* `BuildScript.ofEnvironment` : the same with directories that may not be given.
-/

namespace EmbeddedSolidity.BuildScript

/-- The directory of the artifacts below the output directory. -/
def artifactDirectory : String :=
  "inline-sol"

/-- The root of the workspace below the output directory, where none is chosen. -/
def workspaceDirectory : String :=
  "inline-sol-forge-project"

/-- The line that names the directory whose changes matter. -/
def watchLine (sources : String) : String :=
  "cargo:rerun-if-changed=" ++ sources ++ "\n"

/-- A text on one line. -/
def oneLine (s : String) : String :=
  String.ofList (s.toList.flatMap fun c => if c == '\n' then [' ', '|', ' '] else [c])

/-- The line that reports a failure. -/
def warningLine (d : Diagnostic) : String :=
  "cargo:warning=" ++ oneLine d.text ++ "\n"

/-- The options with a workspace below the output directory, where none is chosen. -/
def withWorkspace (output : String) (o : Options) : Options :=
  match o.workspace with
  | some _ => o
  | none => { o with workspace := some (Path.join output workspaceDirectory) }

/-- The result of a report whose artifacts have been written, and the lines for its failures. -/
def conclude (r : Report) : Except Error Report × String :=
  if r.isSuccess then (.ok r, "")
  else
    (.error (.run r.diagnostics.length r.summary), String.join (r.diagnostics.map warningLine))

/-- Compile the sources of a package and write their artifacts below the output directory. -/
def run (temporary : String) (o : Options) (package output : String) :
    Plan (Except Error Report × String) := do
  let sources := Path.join package "src"
  let first := watchLine sources
  match ← compileSources temporary (withWorkspace output o) [sources] with
  | .error e => return (.error e, first)
  | .ok report =>
    match ← report.writeArtifacts (Path.join output artifactDirectory) with
    | .error e => return (.error e, first)
    | .ok _ =>
      let (result, lines) := conclude report
      return (result, first ++ lines)

/-- The error of a directory that is not given. -/
def notSet (name : String) : Error :=
  .options (name ++ " is not set; call this from a build script")

/-- Compile the sources of a package with the directories that the environment gives. -/
def ofEnvironment (temporary : String) (o : Options) (package output : Option String) :
    Plan (Except Error Report × String) :=
  match package, output with
  | none, _ => return (.error (notSet "CARGO_MANIFEST_DIR"), "")
  | some _, none => return (.error (notSet "OUT_DIR"), "")
  | some package, some output => run temporary o package output

end EmbeddedSolidity.BuildScript
