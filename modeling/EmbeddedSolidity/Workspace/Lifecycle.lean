import EmbeddedSolidity.Options.Basic
import EmbeddedSolidity.Plan.Basic
import EmbeddedSolidity.Workspace.Layout

/-!
# Making and removing workspaces

A workspace is made afresh for each run. What is at the shared root is always removed first; a
root of the caller's choice is replaced only if it is an empty directory or an earlier
workspace, which its manifest shows. The manifest is written before the directory of sources, so
a workspace that is half made is known again.

* `Workspace.create`, `Workspace.destroy`;
* `Workspace.hasGeneratedManifest` : the mark of an earlier workspace.
-/

namespace EmbeddedSolidity.Workspace

open FileSystem (Fault)

/-- The outcome of a call as an error of the workspace at a path. -/
def fault {α : Type} (path : String) : Except Fault α → Except Error α
  | .ok a => .ok a
  | .error f => .error (.workspace path f.text)

/-- A call whose fault is an error of the workspace at a path. -/
def attempt {α : Type} (path : String) (p : Plan (Except Fault α)) : Plan (Except Error α) := do
  return fault path (← p)

/-- Whether the root holds a manifest that was written for a workspace. -/
def hasGeneratedManifest (w : Workspace) : Plan Bool := do
  match ← Plan.readText w.manifestPath with
  | .ok text => return Manifest.isGenerated text
  | .error _ => return false

/-- Remove whatever is at a path, if there is anything. -/
def removeExisting (root : String) : Plan (Except Error Unit) := do
  match ← Plan.call (.kind root) with
  | .error .notFound => return .ok ()
  | .error f => return .error (.workspace root f.text)
  | .ok .directory => attempt root (Plan.call (.removeTree root))
  | .ok _ => attempt root (Plan.call (.removeFile root))

/-- The error of a root that is no directory. -/
def notDirectory (root : String) : Error :=
  .workspace root "path exists and is not a directory; refusing to replace it"

/-- The error of a root that holds something else. -/
def notWorkspace (root : String) : Error :=
  .workspace root "directory is not an inline-sol workspace; refusing to replace it"

/-- Remove an empty directory or an earlier workspace at the root, if there is anything; refuse
to remove anything else. -/
def removePrevious (w : Workspace) : Plan (Except Error Unit) := do
  match ← Plan.call (.kind w.root) with
  | .error .notFound => return .ok ()
  | .error f => return .error (.workspace w.root f.text)
  | .ok .directory =>
    match ← Plan.call (.list w.root) with
    | .error f => return .error (.workspace w.root f.text)
    | .ok names =>
      if names.isEmpty then removeExisting w.root
      else if ← w.hasGeneratedManifest then removeExisting w.root
      else return .error (notWorkspace w.root)
  | .ok _ => return .error (notDirectory w.root)

/-- Make the directories and the manifest of a workspace where nothing is. -/
def build (w : Workspace) (solc : String) : Plan (Except Error Workspace) :=
  Plan.andThen (attempt w.root (Plan.call (.makeDirectories w.root))) fun _ =>
  Plan.andThen
    (attempt w.manifestPath (Plan.writeText w.manifestPath (Manifest.ofVersion solc).render))
    fun _ =>
  Plan.andThen (attempt w.sourceDirectory (Plan.call (.makeDirectories w.sourceDirectory)))
    fun _ => return .ok w

/-- Make a fresh workspace at the root of a configuration. -/
def create (c : Config) : Plan (Except Error Workspace) :=
  let w : Workspace := ⟨c.root⟩
  Plan.andThen (if c.isDefaultRoot then removeExisting w.root else w.removePrevious) fun _ =>
    w.build c.solc

/-- Remove a workspace with all that is in it; a missing one is no error. -/
def destroy (w : Workspace) : Plan (Except Error Unit) := do
  match ← Plan.call (.removeTree w.root) with
  | .ok () => return .ok ()
  | .error .notFound => return .ok ()
  | .error f => return .error (.workspace w.root f.text)

end EmbeddedSolidity.Workspace
