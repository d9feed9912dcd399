import EmbeddedSolidity.Artifact.Basic
import EmbeddedSolidity.Snippet.Basic
import EmbeddedSolidity.Workspace.Lifecycle

/-!
# Building snippets

A snippet is written to its source file, the compiler is run in the root of the workspace, and
the artifact of the snippet is read. Only a run that ends with status zero and writes nothing but
blanks to standard error is a success.

* `Workspace.stage`, `Workspace.buildSnippet`, `Workspace.readArtifact`;
* `Outcome.fault?` : what is wrong with the way in which a compiler ended.
-/

namespace EmbeddedSolidity

/-- What is wrong with the way in which a compiler ended, and the output to show for it. -/
def Outcome.fault? (limit : Option Nat) (o : Outcome) : Option (BuildFault × String) :=
  let output := Text.decodeLossy o.output
  let errors := Text.decodeLossy o.errors
  let shown := if Text.isBlank errors then output else errors
  match o.ending with
  | .timedOut => some (.timedOut (limit.getD 0 * 1000), "")
  | .killed => some (.exited none, shown)
  | .exited 0 => if Text.isBlank errors then none else some (.wroteErrors, errors)
  | .exited (n + 1) => some (.exited (some (n + 1)), shown)

namespace Workspace

/-- Write the text of a snippet to its source file. -/
def stage (w : Workspace) (s : Snippet) : Plan (Except Error String) := do
  let path := w.sourcePath s.id
  return (fault path (← Plan.writeText path s.text)).map fun _ => path

/-- Find the compiler and run it in the workspace. -/
def runCompiler (w : Workspace) (c : Config) (id : Snippet.Id) : Plan (Except Error Unit) := do
  match ← Plan.call (.locate c.executable) with
  | none =>
    return .error (.build id .notStarted
      (c.executable ++ " not found: cannot find binary path"))
  | some program =>
    match ← Plan.call (.execute program w.root c.timeout) with
    | .error f =>
      return .error (.build id .notStarted ("failed to run " ++ program ++ ": " ++ f.text))
    | .ok outcome =>
      match outcome.fault? c.timeout with
      | some (kind, shown) => return .error (.build id kind shown)
      | none => return .ok ()

/-- Write a snippet and run the compiler. -/
def buildSnippet (w : Workspace) (c : Config) (s : Snippet) : Plan (Except Error Unit) :=
  Plan.andThen (w.stage s) fun _ => w.runCompiler c s.id

/-- Read the artifact of a snippet. -/
def readArtifact (w : Workspace) (id : Snippet.Id) : Plan (Except Error Artifact) := do
  let path := w.artifactPath id
  match ← Plan.readText path with
  | .ok text => return Artifact.parse id path text
  | .error .notFound => return .error (.artifact id path "artifact file not found")
  | .error f => return .error (.artifact id path ("failed to read: " ++ f.text))

end Workspace

end EmbeddedSolidity
