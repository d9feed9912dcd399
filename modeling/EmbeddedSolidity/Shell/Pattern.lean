import EmbeddedSolidity.FileSystem.Operation
import EmbeddedSolidity.Shell.Bytes
import EmbeddedSolidity.Shell.Charset

/-!
# Patterns

Patterns in which a star stands for any text, a question mark for a character and brackets for
one of several; a quoted character stands for itself.

* `Pattern.fits` : a pattern matches a whole text;
* `Pattern.paths` : the paths that a pattern matches.
-/

namespace EmbeddedSolidity.Shell.Pattern

open FileSystem (FileTree Place)

/-- A part of a pattern. -/
inductive Part where
  | one (set : Charset)
  | many

/-- The parts of a pattern; the first argument is at least the length of the pattern. -/
def parts : Nat → Marked → List Part
  | 0, _ | _, [] => []
  | n + 1, (c, quoted) :: rest =>
    if quoted then .one (.only c) :: parts n rest
    else if c == '*' then .many :: parts n rest
    else if c == '?' then .one .all :: parts n rest
    else if c == '[' then
      match Charset.bracket? '!' true rest with
      | some (set, rest) => .one set :: parts n rest
      | none => .one (.only c) :: parts n rest
    else
      match c, rest with
      | '\\', (d, _) :: rest => .one (.only d) :: parts n rest
      | _, _ => .one (.only c) :: parts n rest

/-- A text and all that is left of it. -/
def suffixes : List Char → List (List Char)
  | [] => [[]]
  | c :: rest => (c :: rest) :: suffixes rest

/-- The texts that are left when a part has matched at the front of one of them. -/
def advance (texts : List (List Char)) : Part → List (List Char)
  | .one set =>
    texts.filterMap fun
      | c :: rest => if set.contains c then some rest else none
      | [] => none
  | .many =>
    match texts with
    | [] => []
    | longest :: _ => suffixes longest

/-- The parts match the whole text. The texts that may be left are kept longest first. -/
def fitsParts (all : List Part) (text : List Char) : Bool :=
  (all.foldl advance [text]).any List.isEmpty

/-- The pattern matches the whole text. -/
def fits (pattern : Marked) (text : List Char) : Bool :=
  fitsParts (parts pattern.length pattern) text

/-- Some part of the pattern is not a literal. -/
def isSpecial (pattern : Marked) : Bool :=
  pattern.any fun (c, quoted) => !quoted && ['*', '?', '['].contains c

/-- A pattern cut at slashes. -/
def components : Marked → List Marked
  | [] => [[]]
  | (c, quoted) :: rest =>
    if c == '/' then [] :: components rest
    else
      match components rest with
      | [] => [[(c, quoted)]]
      | first :: more => ((c, quoted) :: first) :: more

/-- The names in a directory that a pattern matches, in order. Hidden ones need a dot. -/
def names (t : FileTree) (current : Place) (directory : String) (pattern : Marked) :
    List String :=
  match t.list current (if directory.isEmpty then "." else Bytes.toText directory) with
  | .error _ => []
  | .ok all =>
    let begins := (pattern.head?.map (·.1)) == some '.'
    let shown := (if begins then [".", ".."] ++ all else all).map Bytes.ofText
    let found := shown.filter fun name =>
      (name.toList.head? != some '.' || begins) && fits pattern name.toList
    found.mergeSort fun a b => decide (a ≤ b)

/-- The paths below a path that the components of a pattern match. -/
def pathsBelow (t : FileTree) (current : Place) (base : String) : List Marked → List String
  | [] => [base]
  | [last] =>
    if isSpecial last then (names t current base last).map (base ++ ·)
    else
      match t.entryAt current false (Bytes.toText (base ++ last.text)) with
      | .ok _ => [base ++ last.text]
      | .error _ => []
  | next :: rest =>
    if isSpecial next then
      (names t current base next).flatMap fun name =>
        if t.isDirectory current (Bytes.toText (base ++ name)) then
          pathsBelow t current (base ++ name ++ "/") rest
        else []
    else pathsBelow t current (base ++ next.text ++ "/") rest

/-- The paths that a pattern matches. A text that is no pattern, or a pattern that matches
nothing, stands for itself. -/
def paths (t : FileTree) (current : Place) (pattern : Marked) : List String :=
  if isSpecial pattern then
    match pathsBelow t current "" (components pattern) with
    | [] => [pattern.text]
    | found => found
  else [pattern.text]

/-- The sizes of the parts at the front, or at the end, of a text that a pattern may match. -/
def sizes (front : Bool) (pattern : Marked) (text : List Char) : List Nat :=
  (List.range (text.length + 1)).filter fun n =>
    fits pattern (if front then text.take n else text.drop (text.length - n))

/-- A text without what a pattern matches at its front or at its end. -/
def strip (front longest : Bool) (pattern : Marked) (s : String) : String :=
  let cs := s.toList
  let found := sizes front pattern cs
  match if longest then found.getLast? else found.head? with
  | some n => String.ofList (if front then cs.drop n else cs.take (cs.length - n))
  | none => s

end EmbeddedSolidity.Shell.Pattern
