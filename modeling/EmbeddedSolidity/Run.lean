import EmbeddedSolidity.Report.Basic
import EmbeddedSolidity.Workspace.Build

/-!
# Runs

A run compiles snippets in one workspace, which is made when it is first needed and removed in
the end. A blank snippet is refused before the workspace is needed.

* `Run.workspace`, `Run.compile`, `Run.finish`.
-/

namespace EmbeddedSolidity

/-- A run, and what became of its workspace if that has been needed. -/
structure Run where
  config : Config
  made : Option (Except Error Workspace) := none

namespace Run

/-- A run that has not begun. -/
def start (c : Config) : Run :=
  { config := c }

/-- The workspace of the run; it is made once. -/
def workspace (r : Run) : Plan (Except Error Workspace × Run) := do
  match r.made with
  | some made => return (made, r)
  | none =>
    let made ← Workspace.create r.config
    return (made, { r with made := some made })

/-- Compile a snippet in a workspace: write it, run the compiler, read its artifact. -/
def compileIn (c : Config) (w : Workspace) (s : Snippet) : Plan (Except Error Compiled) :=
  Plan.andThen (w.buildSnippet c s) fun _ =>
  Plan.andThen (w.readArtifact s.id) fun artifact =>
    return .ok ⟨s.id, artifact⟩

/-- Compile a text. -/
def compile (r : Run) (text : String) : Plan (Except Error Compiled × Run) := do
  match Snippet.ofText text with
  | .error e => return (.error e, r)
  | .ok s =>
    let (made, r) ← r.workspace
    match made with
    | .error e => return (.error e, r)
    | .ok w => return (← compileIn r.config w s, r)

/-- Remove the workspace. If it could not be made, what is at a root of the caller's choice is
removed only if it is known as a workspace by its manifest. -/
def finish (r : Run) : Plan (Except Error Unit) := do
  match (← r.workspace).1 with
  | .ok w => w.destroy
  | .error _ =>
    let w : Workspace := ⟨r.config.root⟩
    if r.config.isDefaultRoot then w.destroy
    else if ← w.hasGeneratedManifest then w.destroy
    else return .ok ()

end Run

end EmbeddedSolidity
