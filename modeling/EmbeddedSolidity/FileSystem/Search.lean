import EmbeddedSolidity.FileSystem.Operation

/-!
# Finding executables

A name without a slash is looked for in the directories of the search path, a path with several
components from the current directory. Only files that may be executed are found.
-/

namespace EmbeddedSolidity.FileSystem.FileTree

/-- The path leads to a file that may be executed. -/
def isExecutable (t : FileTree) (current : Place) (path : String) : Bool :=
  match t.entryAt current true path with
  | .ok (_, .file _ executable) => executable
  | _ => false

/-- The text of a place. -/
def textOf (p : Place) : String :=
  "/" ++ "/".intercalate p

/-- A path below a place, by its components; leading dots do not count. -/
def absolute (current : Place) (path : String) : String :=
  if Path.isAbsolute path then path
  else
    let components := (Path.components path).dropWhile (· == .current)
    "/".intercalate (textOf current :: components.map Path.Component.text)

/-- The paths at which an executable may be. -/
def candidates (current : Place) (search : List String) (name : String) : List String :=
  if 1 < (Path.components name).length then [absolute current name]
  else search.map fun directory => Path.join directory name

/-- The path of the executable of a name. -/
def locate (t : FileTree) (current : Place) (search : List String) (name : String) :
    Option String :=
  (candidates current search name).find? (t.isExecutable current)

end EmbeddedSolidity.FileSystem.FileTree
