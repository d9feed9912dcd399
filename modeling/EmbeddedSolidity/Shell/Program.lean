import EmbeddedSolidity.FileSystem.Search
import EmbeddedSolidity.Shell.Bytes

/-!
# Programs

A program is a utility, which is a file in the directory of utilities, or a script, whose first
line names the program that carries it out.

* `Program.carrier` : the utility that carries out a program;
* `Program.withUtilities` : a file tree in which the utilities are.
-/

namespace EmbeddedSolidity.Shell.Program

open FileSystem (Fault FileTree Place)

/-- The directory of utilities. -/
def utilityDirectory : Place :=
  ["usr", "bin"]

/-- The device that holds nothing. -/
def nothing : Place :=
  ["dev", "null"]

/-- Blanks in the first line of a script. -/
def isBlank (b : UInt8) : Bool :=
  b == 32 || b == 9

/-- How many bytes of a script are looked at to find the program that carries it out. -/
def headSize : Nat :=
  256

/-- The program that the first line of a script names, and what it is told first. A line that is
longer than the head of the file is cut, but not within the name. -/
def interpreter? (content : ByteArray) : Option (List UInt8 × List UInt8) :=
  match content.toList.take headSize with
  | 35 :: 33 :: rest =>
    let line := (rest.takeWhile (· != 10)).dropWhile isBlank
    let line := (line.reverse.dropWhile isBlank).reverse
    let name := line.takeWhile (!isBlank ·)
    let option := (line.drop name.length).dropWhile isBlank
    let isCut := headSize ≤ content.size && !rest.contains 10 && option.isEmpty
    if name.isEmpty || isCut then none else some (name, option)
  | _ => none

/-- How many programs may carry out one another. -/
def maxPrograms : Nat := 6

/-- The utility that carries out the program at a path, with its arguments, of which the first
one is the name by which it is started. The first argument bounds how many programs are on the
way. Arguments are texts of bytes. -/
def carrier (t : FileTree) (current : Place) :
    Nat → String → List String → Except Fault (String × List String)
  | 0, _, _ => .error .tooManyLinks
  | n + 1, path, arguments => do
    match ← t.entryAt current true (Bytes.toText path) with
    | (place, .file content executable) =>
      if !executable then .error .denied
      else
        match utilityDirectory.isPrefixOf place, place.getLast? with
        | true, some name => .ok (name, arguments)
        | _, _ =>
          match interpreter? content with
          | some (name, option) =>
            let option := if option.isEmpty then [] else [Bytes.read ⟨option.toArray⟩]
            let name := Bytes.read ⟨name.toArray⟩
            carrier t current n name (name :: option ++ path :: arguments.drop 1)
          | none => .error .badFormat
    | _ => .error .denied

/-- A tree with utilities of some names, reached by the directory `bin` too, and the device that
holds nothing. -/
def withUtilities (names : List String) (t : FileTree) : FileTree :=
  let directories : List (Place × FileSystem.Entry) :=
    [(["usr"], .directory), (utilityDirectory, .directory), (["bin"], .link "usr/bin"),
      (["dev"], .directory), (nothing, .file ByteArray.empty false)]
  ⟨t.entries ++ directories ++ names.map fun name =>
    (utilityDirectory ++ [name], .file ByteArray.empty true)⟩

end EmbeddedSolidity.Shell.Program
