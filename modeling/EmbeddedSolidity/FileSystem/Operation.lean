import EmbeddedSolidity.FileSystem.Resolve

/-!
# Operations on a file tree

Looking at entries, reading and writing files, and making and removing directories, each by a
path from the current directory. An operation that fails changes nothing, except the two that
work on many entries: making all directories of a path, and removing a directory with all that
is in it.
-/

namespace EmbeddedSolidity.FileSystem.FileTree

/-- The kind of an entry. -/
inductive Kind where
  | directory
  | file
  | link
deriving DecidableEq, Repr

/-- The kind of an entry. -/
def kindOf : Entry → Kind
  | .directory => .directory
  | .file _ _ => .file
  | .link _ => .link

/-! ## Looking -/

/-- The kind of what is at a path; a link is not followed. -/
def kind (t : FileTree) (current : Place) (path : String) : Except Fault Kind :=
  (t.entryAt current false path).map fun found => kindOf found.2

/-- The path leads to a directory. -/
def isDirectory (t : FileTree) (current : Place) (path : String) : Bool :=
  match t.entryAt current true path with
  | .ok (_, .directory) => true
  | _ => false

/-- The names in a directory. -/
def list (t : FileTree) (current : Place) (path : String) : Except Fault (List String) := do
  match ← t.entryAt current true path with
  | (place, .directory) => .ok (t.names place)
  | _ => .error .notDirectory

/-- The content of a file. -/
def read (t : FileTree) (current : Place) (path : String) : Except Fault ByteArray := do
  match ← t.entryAt current true path with
  | (_, .file content _) => .ok content
  | _ => .error .isDirectory

/-! ## Changing one entry -/

/-- Write a file. A new file is not executable, an old one stays what it is. A link at the end
is followed, also to a place where nothing is. -/
def write (t : FileTree) (current : Place) (path : String) (content : ByteArray) :
    Except Fault FileTree := do
  if endsInSlash path then
    let _ ← t.resolveNames current true path ((Path.parts path).dropLast ++ [""])
    .error .isDirectory
  else
    match ← t.resolve current true path with
    | .entry _ .directory | .free _ true => .error .isDirectory
    | .entry place (.file _ executable) => .ok (t.put place (.file content executable))
    | .entry place (.link _) | .free place false => .ok (t.put place (.file content false))

/-- Make a directory. -/
def makeDirectory (t : FileTree) (current : Place) (path : String) : Except Fault FileTree := do
  match ← t.resolveName current path with
  | .entry _ _ => .error .exists
  | .free place _ => .ok (t.put place .directory)

/-- The last name of a path. -/
def lastName? (path : String) : Option String :=
  (Path.parts path).getLast?

/-- Remove a file or a link. -/
def removeFile (t : FileTree) (current : Place) (path : String) : Except Fault FileTree := do
  match ← t.resolveName current path with
  | .entry _ .directory => .error .isDirectory
  | .entry place _ => if endsInSlash path then .error .notDirectory else .ok (t.erase place)
  | .free _ _ => .error .notFound

/-- Remove an empty directory. -/
def removeDirectory (t : FileTree) (current : Place) (path : String) : Except Fault FileTree := do
  match ← t.resolveName current path with
  | .entry place .directory =>
    if lastName? path == some "." then .error .invalid
    else if lastName? path == some ".." then .error .notEmpty
    else if place.isEmpty then .error .busy
    else if t.isEmptyAt place then .ok (t.erase place)
    else .error .notEmpty
  | .entry _ _ => .error .notDirectory
  | .free _ _ => .error .notFound

/-! ## Changing many entries -/

/-- Keep the tree if an operation failed. -/
def keeping (t : FileTree) : Except Fault FileTree → Except Fault Unit × FileTree
  | .ok t => (.ok (), t)
  | .error fault => (.error fault, t)

/-- Remove a directory with all that is in it; links in it are removed, not followed. A link at
the path itself is removed too. -/
def removeTree (t : FileTree) (current : Place) (path : String) : Except Fault Unit × FileTree :=
  match t.entryAt current false path with
  | .error fault => (.error fault, t)
  | .ok (_, .file _ _) => (.error .notDirectory, t)
  | .ok (_, .link _) => t.keeping (t.removeFile current path)
  | .ok (place, .directory) =>
    let emptied := t.eraseBelow place
    match emptied.removeDirectory current path with
    | .error .notFound => (.ok (), emptied)
    | result => emptied.keeping result

/-- A path and the directories above it, innermost first, without the root and the current
directory. -/
def ancestors (path : String) : List String :=
  let components := Path.components path
  let shorter := (List.range components.length).reverse.map fun n => components.take n
  path :: ((shorter.filter fun c => c != [] && c != [.root]).map Path.render)

/-- Make the first directory of a list that can be made, and give those before it that wait for
it, outermost first. -/
def climb (current : Place) : List String → List String → FileTree →
    Except Fault (List String) × FileTree
  | [], waiting, t => (.ok waiting, t)
  | path :: rest, waiting, t =>
    match t.makeDirectory current path with
    | .ok t => (.ok waiting, t)
    | .error .notFound => climb current rest (path :: waiting) t
    | .error .exists =>
      if t.isDirectory current path then (.ok waiting, t) else (.error .exists, t)
    | .error fault => (.error fault, t)

/-- Make directories one after the other. -/
def makeEach (current : Place) : List String → FileTree → Except Fault Unit × FileTree
  | [], t => (.ok (), t)
  | path :: rest, t =>
    match t.makeDirectory current path with
    | .ok t => makeEach current rest t
    | .error .exists =>
      if t.isDirectory current path then makeEach current rest t else (.error .exists, t)
    | .error fault => (.error fault, t)

/-- Make a directory and those above it that are missing. -/
def makeDirectories (t : FileTree) (current : Place) (path : String) :
    Except Fault Unit × FileTree :=
  if path.isEmpty || (Path.parent? path).isNone then (.ok (), t)
  else
    match climb current (ancestors path) [] t with
    | (.ok waiting, t) => makeEach current waiting t
    | (.error fault, t) => (.error fault, t)

end EmbeddedSolidity.FileSystem.FileTree
