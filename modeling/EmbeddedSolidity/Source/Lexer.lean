import EmbeddedSolidity.Source.Literal
import EmbeddedSolidity.Text.Blank

/-!
# Reading tokens

The front of a text is a gap (blanks and comments), a documentation comment, a bracket or a
token without a body. Reading a text fails if its front is none of these somewhere, or if its
brackets do not match.

A documentation comment is read as the attribute it stands for.

* `lexeme?` : what stands at the front of a text;
* `trees?` : the token trees of a text.
-/

namespace EmbeddedSolidity.Source

open EmbeddedSolidity.Text (isIdentifierStart isBlankChar)

/-- What stands at the front of a text. -/
inductive Lexeme where
  | gap
  | note (inner : Bool) (text : List Char)
  | opening (delimiter : Delimiter)
  | closing (delimiter : Delimiter)
  | leaf (tree : Tree)
deriving Repr

/-! ## Gaps and comments -/

/-- A blank character. The marks that set the direction of text are blank too. -/
def isGapChar (c : Char) : Bool :=
  isBlankChar c || c == '\u200e' || c == '\u200f'

/-- The line up to its end, and the rest; a carriage return before the line feed belongs to
neither. -/
def restOfLine : List Char → List Char × List Char
  | [] => ([], [])
  | '\n' :: rest => ([], '\n' :: rest)
  | '\r' :: '\n' :: rest => ([], '\n' :: rest)
  | c :: rest => onto [c] (restOfLine rest)

/-- A block comment up to its end, and the rest; block comments nest, and `depth` of them are
open. -/
def restOfBlock (depth : Nat) : List Char → Option (List Char × List Char)
  | '/' :: '*' :: rest => (restOfBlock (depth + 1) rest).map (onto ['/', '*'])
  | '*' :: '/' :: rest =>
    if depth ≤ 1 then some ([], rest) else (restOfBlock (depth - 1) rest).map (onto ['*', '/'])
  | c :: rest => (restOfBlock depth rest).map (onto [c])
  | [] => none

/-- Every carriage return stands before a line feed. -/
def returnsEndLines : List Char → Bool
  | '\r' :: '\n' :: rest => returnsEndLines rest
  | '\r' :: _ => false
  | _ :: rest => returnsEndLines rest
  | [] => true

/-- A documentation comment, if its text has no stray carriage return. -/
def note? (inner : Bool) (found : List Char × List Char) : Option (Lexeme × List Char) :=
  if returnsEndLines found.1 then some (.note inner found.1, found.2) else none

/-- The comment at the front of a text. Three slashes, or a slash and two stars, begin a
documentation comment, but four slashes or three stars do not; an exclamation mark makes it
belong to what encloses it. -/
def comment? : List Char → Option (Lexeme × List Char)
  | '/' :: '/' :: '!' :: rest => note? true (restOfLine rest)
  | '/' :: '/' :: '/' :: '/' :: rest => some (.gap, (restOfLine rest).2)
  | '/' :: '/' :: '/' :: rest => note? false (restOfLine rest)
  | '/' :: '/' :: rest => some (.gap, (restOfLine rest).2)
  | '/' :: '*' :: '!' :: rest => (restOfBlock 1 rest).bind (note? true)
  | '/' :: '*' :: '*' :: '/' :: rest => some (.gap, rest)
  | '/' :: '*' :: '*' :: '*' :: rest =>
    (restOfBlock 1 ('*' :: '*' :: rest)).map fun found => (.gap, found.2)
  | '/' :: '*' :: '*' :: rest => (restOfBlock 1 rest).bind (note? false)
  | '/' :: '*' :: rest => (restOfBlock 1 rest).map fun found => (.gap, found.2)
  | _ => none

/-- The text begins with a comment. -/
def startsComment : List Char → Bool
  | '/' :: '/' :: _ => true
  | '/' :: '*' :: _ => true
  | _ => false

/-! ## Words and marks -/

/-- The signs that are marks. The apostrophe is one only in front of a word. -/
def signs : List Char :=
  ['~', '!', '@', '#', '$', '%', '^', '&', '*', '-', '=', '+', '|', ';', ':', ',', '<', '.', '>',
    '/', '?', '\'']

/-- A mark could begin the text. -/
def startsMark : List Char → Bool
  | c :: rest => signs.contains c && !startsComment (c :: rest)
  | [] => false

/-- The words that cannot be raw. -/
def neverRaw : List String :=
  ["_", "super", "self", "Self", "crate"]

/-- The word at the front of a text, with its name and whether it is raw. -/
def word? (cs : List Char) : Option ((String × Bool) × List Char) :=
  let (isRaw, body) :=
    match cs with
    | 'r' :: '#' :: rest => (true, rest)
    | _ => (false, cs)
  let (name, rest) := splitWord body
  if name.isEmpty then none
  else if isRaw && neverRaw.contains (String.ofList name) then none
  else some ((String.ofList name, isRaw), rest)

/-- The beginnings of strings, which are no words even if the string is broken. -/
def stringStarts : List String :=
  ["r\"", "r#\"", "r##", "b\"", "b'", "br\"", "br#", "c\"", "cr\"", "cr#"]

/-- The text begins like a string with a letter in front. -/
def startsLetteredString (cs : List Char) : Bool :=
  stringStarts.any fun s => s.toList.isPrefixOf cs

/-- An apostrophe begins the name of a lifetime, unless the word behind it ends like a
character or like a word of another edition. -/
def lifetimeMark? (cs : List Char) : Option Tree := do
  let (_, after) ← word? cs
  match after with
  | '\'' :: _ => none
  | '#' :: _ => if ['r', '#'].isPrefixOf cs then pure () else none
  | _ => pure ()
  some (.mark ('\'' :: cs) '\'' true)

/-- The mark at the front of a text. -/
def mark? (cs : List Char) : Option (Tree × List Char) :=
  match cs with
  | '\'' :: rest => (lifetimeMark? rest).map (·, rest)
  | c :: rest => if startsMark cs then some (.mark cs c (startsMark rest), rest) else none
  | [] => none

/-- The text that stands for a failed expansion and is read as a literal. -/
def failedExpansion : List Char :=
  "(/*ERROR*/)".toList

/-- The token without a body at the front of a text. -/
def leaf? (cs : List Char) : Option (Tree × List Char) :=
  match literal? cs with
  | some (value, rest) => some (.literal value, rest)
  | none =>
    match mark? cs with
    | some found => some found
    | none =>
      match if startsLetteredString cs then none else word? cs with
      | some ((name, isRaw), rest) => some (.word cs name isRaw, rest)
      | none =>
        if failedExpansion.isPrefixOf cs then
          some (.literal .other, cs.drop failedExpansion.length)
        else none

/-! ## Lexemes and trees -/

/-- What stands at the front of a text, and the rest. -/
def lexeme? : List Char → Option (Lexeme × List Char)
  | [] => none
  | c :: rest =>
    if isGapChar c then some (.gap, rest)
    else if startsComment (c :: rest) then comment? (c :: rest)
    else
      match if failedExpansion.isPrefixOf (c :: rest) then none else Delimiter.ofOpening? c with
      | some d => some (.opening d, rest)
      | none =>
        match Delimiter.ofClosing? c with
        | some d => some (.closing d, rest)
        | none => (leaf? (c :: rest)).map fun (tree, rest) => (.leaf tree, rest)

/-- The attribute that a documentation comment stands for, last token first. -/
def noteTrees (inner : Bool) (text : List Char) (place : List Char) : List Tree :=
  let body : List Tree :=
    [.word place "doc" false, .mark place '=' false, .literal (.string text)]
  let bang : List Tree := if inner then [.mark place '!' false] else []
  .group .bracket body :: bang ++ [.mark place '#' false]

/-- Read the token trees of a text. `opened` holds the brackets that are open, innermost first,
each with the trees in front of it, and `done` the trees of the innermost one, last first. The
first argument bounds the number of lexemes. -/
def treesFrom : Nat → List (Delimiter × List Tree) → List Tree → List Char → Option (List Tree)
  | _, opened, done, [] => if opened.isEmpty then some done.reverse else none
  | 0, _, _, _ :: _ => none
  | n + 1, opened, done, c :: rest =>
    match lexeme? (c :: rest) with
    | some (.gap, rest) => treesFrom n opened done rest
    | some (.note inner text, after) =>
      treesFrom n opened (noteTrees inner text (c :: rest) ++ done) after
    | some (.opening d, rest) => treesFrom n ((d, done) :: opened) [] rest
    | some (.closing d, rest) =>
      match opened with
      | (d', before) :: opened =>
        if d = d' then treesFrom n opened (.group d done.reverse :: before) rest else none
      | [] => none
    | some (.leaf tree, rest) => treesFrom n opened (tree :: done) rest
    | none => none

/-- Drop a byte order mark. -/
def dropOrderMark : List Char → List Char
  | '\ufeff' :: rest => rest
  | cs => cs

/-- What is said of a text that has no token trees. -/
def unreadable : String :=
  "cannot parse string into token stream"

/-- The token trees of a text; a byte order mark in front is no token. -/
def trees? (source : List Char) : Option (List Tree) :=
  let cs := dropOrderMark source
  treesFrom cs.length [] [] cs

end EmbeddedSolidity.Source
