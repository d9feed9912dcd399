import EmbeddedSolidity.Collect
import EmbeddedSolidity.Run
import EmbeddedSolidity.Scan

/-!
# Compiling source files

The snippets of the source files are compiled in the order in which they are found. Whatever
fails is reported; only a fatal failure, one of the workspace, ends the run early. The workspace
is removed in any case.

* `compileSources` : the report of a run over files and directories.
-/

namespace EmbeddedSolidity

open FileSystem (Fault)

/-- Read and scan a source file. -/
def Scan.ofFile (path : String) : Plan (Except Error Scan) := do
  match ← Plan.readText path with
  | .ok source => return Scan.ofSource path source
  | .error f => return .error (.scan path f.text)

namespace Compile

/-- A run on its way. -/
structure Progress where
  run : Run
  report : Report := {}
  /-- A fatal failure ended the run. -/
  aborted : Bool := false

/-- Compile snippets until one fails fatally. -/
def snippets : List FoundSnippet → Progress → Plan Progress
  | [], p => return p
  | found :: rest, p => do
    let (result, run) ← p.run.compile found.text
    match result with
    | .ok compiled =>
      snippets rest { p with run, report := p.report.addArtifact found.location compiled }
    | .error e =>
      let report := p.report.addDiagnostic (.located found.location e)
      if e.isFatal then return { p with run, report, aborted := true }
      else snippets rest { p with run, report }

/-- Scan and compile files until a snippet fails fatally. -/
def files : List String → Progress → Plan Progress
  | [], p => return p
  | file :: rest, p => do
    match ← Scan.ofFile file with
    | .error e => files rest { p with report := p.report.addDiagnostic (.ofRun e) }
    | .ok scan =>
      let report := scan.rejected.foldl Report.addDiagnostic p.report
      let p ← snippets scan.snippets { p with report }
      if p.aborted then return p else files rest p

/-- Collect, compile and clean up. -/
def report (c : Config) (paths : List String) : Plan Report := do
  let collected ← collect paths
  let p ← files collected.files
    { run := .start c, report := { diagnostics := collected.diagnostics } }
  match ← p.run.finish with
  | .ok () => return p.report
  | .error e => return p.report.addDiagnostic (.ofRun e)

end Compile

/-- The report of a run over files and directories; only invalid options are an error.
`temporary` is the directory for temporary files. -/
def compileSources (temporary : String) (o : Options) (paths : List String) :
    Plan (Except Error Report) := do
  match o.resolve temporary with
  | .error e => return .error e
  | .ok c => return .ok (← Compile.report c paths)

end EmbeddedSolidity
