import EmbeddedSolidity.Text.Blank

/-!
# Lines

A text is cut at its line feeds; a carriage return before a line feed belongs to the line
end, and nothing follows a final line feed.
-/

namespace EmbeddedSolidity.Text

/-- Drop one carriage return at the end of a line. -/
def dropFinalReturn (line : List Char) : List Char :=
  if line.getLast? = some '\r' then line.dropLast else line

/-- The lines of the characters; `line` holds the characters of the current line so far,
last first. -/
def lineCharsFrom (line : List Char) : List Char → List (List Char)
  | [] => if line.isEmpty then [] else [line.reverse]
  | '\n' :: rest => dropFinalReturn line.reverse :: lineCharsFrom [] rest
  | c :: rest => lineCharsFrom (c :: line) rest

/-- The lines of the characters without their ends. -/
def lineChars (cs : List Char) : List (List Char) :=
  lineCharsFrom [] cs

/-- The lines of a text without their ends. -/
def lines (s : String) : List String :=
  (lineChars s.toList).map String.ofList

end EmbeddedSolidity.Text
