import EmbeddedSolidity.FileSystem.Fault
import EmbeddedSolidity.FileSystem.Tree
import EmbeddedSolidity.Path

/-!
# Resolving paths

A path is resolved name by name from a directory. Links on the way are followed, at most forty
of them. The last name may be free, as long as its directory exists. A slash behind the last
name asks for a directory.

* `FileTree.resolve` : what a path leads to;
* `FileTree.resolveName` : what the last name of a path stands for, be it a link.
-/

namespace EmbeddedSolidity.FileSystem

/-- What a path leads to. -/
inductive Found where
  | entry (place : Place) (entry : Entry)
  /-- Nothing, but the directory for it exists; `slash` if the path asks for a directory. -/
  | free (place : Place) (slash : Bool)
deriving DecidableEq

/-- The most links that a path may lead through. -/
def maxLinks : Nat := 40

/-- The most bytes of a name. -/
def maxName : Nat := 255

/-- The bytes that a path must stay below. -/
def maxPath : Nat := 4096

/-- The path ends in a slash. -/
def endsInSlash (path : String) : Bool :=
  path.toList.getLast? == some '/'

/-- The names of a path. An empty name at the end stands for a slash behind the last one. -/
def namesOf (path : String) : List String :=
  let names := Path.parts path
  if endsInSlash path && !names.isEmpty then names ++ [""] else names

/-- The directory where the names of a path begin. -/
def startOf (current : Place) (path : String) : Place :=
  if Path.isAbsolute path then [] else current

namespace FileTree

/-- Follow names from a directory; `jump` goes on from a directory behind a link. With `follow`
a link at the end is followed too. -/
def walkNames (t : FileTree) (follow : Bool) (jump : Place → List String → Except Fault Found) :
    Place → List String → Except Fault Found
  | here, [] => .ok (.entry here .directory)
  | here, name :: rest =>
    if name = "" ∨ name = "." then walkNames t follow jump here rest
    else if name = ".." then walkNames t follow jump here.dropLast rest
    else if maxName < name.utf8ByteSize then .error .nameTooLong
    else
      let there := here ++ [name]
      match t.get? there with
      | none =>
        if t.get? here = some .directory ∧ rest.all (· == "") then
          .ok (.free there !rest.isEmpty)
        else .error .notFound
      | some .directory => walkNames t follow jump there rest
      | some (.file content executable) =>
        if rest.isEmpty then .ok (.entry there (.file content executable))
        else .error .notDirectory
      | some (.link target) =>
        if rest.isEmpty && !follow then .ok (.entry there (.link target))
        else jump (startOf here target) (namesOf target ++ rest)

/-- Follow names from a directory through at most a number of links. -/
def walk (t : FileTree) (follow : Bool) : Nat → Place → List String → Except Fault Found
  | 0 => t.walkNames follow fun _ _ => .error .tooManyLinks
  | n + 1 => t.walkNames follow (t.walk follow n)

/-- What is wrong with a path wherever it leads. -/
def pathFault? (path : String) : Option Fault :=
  if path.toList.contains '\x00' then some .nulInPath
  else if path.isEmpty then some .notFound
  else if maxPath ≤ path.utf8ByteSize then some .nameTooLong
  else none

/-- What names lead to from the directory that a path begins in. -/
def resolveNames (t : FileTree) (current : Place) (follow : Bool) (path : String)
    (names : List String) : Except Fault Found :=
  match pathFault? path with
  | some fault => .error fault
  | none => t.walk follow maxLinks (startOf current path) names

/-- What a path leads to from the directory `current`. -/
def resolve (t : FileTree) (current : Place) (follow : Bool) (path : String) :
    Except Fault Found :=
  t.resolveNames current follow path (namesOf path)

/-- The entry that a path leads to, with its place. -/
def entryAt (t : FileTree) (current : Place) (follow : Bool) (path : String) :
    Except Fault (Place × Entry) :=
  match t.resolve current follow path with
  | .ok (.entry p e) => .ok (p, e)
  | .ok (.free _ _) => .error .notFound
  | .error fault => .error fault

/-- What a path leads to if a slash at its end does not count and a link at its end is not
followed. -/
def resolveName (t : FileTree) (current : Place) (path : String) : Except Fault Found :=
  t.resolveNames current false path (Path.parts path)

end FileTree

end EmbeddedSolidity.FileSystem
