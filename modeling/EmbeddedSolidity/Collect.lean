import EmbeddedSolidity.Plan.Basic
import EmbeddedSolidity.Report.Basic

/-!
# Collecting source files

Directories stand for the source files in them and below them; hidden directories and the
directory of build products are passed over. Paths that are no directories stand for themselves.

* `collect` : the files in the order of their paths, each once, and what could not be read.
-/

namespace EmbeddedSolidity

open FileSystem (maxPath)

namespace Collect

/-- Files, and the directories that could not be read. -/
structure Collected where
  files : List String := []
  diagnostics : List Diagnostic := []

/-- What was collected first, and then more. -/
def Collected.append (a b : Collected) : Collected :=
  ⟨a.files ++ b.files, a.diagnostics ++ b.diagnostics⟩

/-- The extension of source files. -/
def sourceExtension : String :=
  "rs"

/-- The directory is not entered. -/
def isPassedOver (name : String) : Bool :=
  name.toList.head? == some '.' || name == "target"

/-- What a list of entries of a directory stands for; `enter` collects a directory in it. -/
def entries (enter : String → Plan Collected) (directory : String) :
    List String → Plan Collected
  | [] => return {}
  | name :: rest => do
    let path := Path.join directory name
    let found : Collected ←
      if ← Plan.isDirectory path then
        if isPassedOver name then pure {} else enter path
      else
        pure { files := if Path.extension? path == some sourceExtension then [path] else [] }
    return found.append (← entries enter directory rest)

/-- The source files below a directory. The first argument bounds the depth; a path that is too
long is no directory. -/
def below : Nat → String → Plan Collected
  | 0, _ => return {}
  | depth + 1, directory => do
    match ← Plan.call (.list directory) with
    | .error f => return { diagnostics := [.ofRun (.scan directory f.text)] }
    | .ok names => entries (below depth) directory names

/-- What each path stands for, one after the other. -/
def all : List String → Plan Collected
  | [] => return {}
  | path :: rest => do
    let found : Collected ←
      if ← Plan.isDirectory path then below maxPath path else pure { files := [path] }
    return found.append (← all rest)

/-- Drop a path that has the same components as the one before it. -/
def dropRepeated : List String → List String
  | [] => []
  | path :: rest =>
    match dropRepeated rest with
    | next :: more => if Path.same path next then path :: more else path :: next :: more
    | [] => [path]

/-- Paths in order, each once. -/
def inOrder (paths : List String) : List String :=
  dropRepeated (paths.mergeSort fun a b => !Path.isBefore b a)

end Collect

/-- The source files that paths stand for, in the order of their paths. -/
def collect (paths : List String) : Plan Collect.Collected := do
  let found ← Collect.all paths
  return { found with files := Collect.inOrder found.files }

end EmbeddedSolidity
