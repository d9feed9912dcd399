/-!
# Token trees

The tokens of a source text. Brackets match: what stands between an opening bracket and its
partner is the body of one tree. Words and marks carry the text that begins with them, from
which their place can be told.
-/

namespace EmbeddedSolidity.Source

/-- The three kinds of brackets. -/
inductive Delimiter where
  | parenthesis
  | brace
  | bracket
deriving DecidableEq, Repr

namespace Delimiter

/-- The opening bracket. -/
def opening : Delimiter → Char
  | parenthesis => '('
  | brace => '\x7b'
  | bracket => '['

/-- The closing bracket. -/
def closing : Delimiter → Char
  | parenthesis => ')'
  | brace => '\x7d'
  | bracket => ']'

/-- The kind that a character opens. -/
def ofOpening? (c : Char) : Option Delimiter :=
  [parenthesis, brace, bracket].find? (·.opening == c)

/-- The kind that a character closes. -/
def ofClosing? (c : Char) : Option Delimiter :=
  [parenthesis, brace, bracket].find? (·.closing == c)

end Delimiter

/-- A literal by its class. A string carries its value, a number the text it is written with;
of the other classes nothing is kept. -/
inductive Literal where
  | string (value : List Char)
  | integer (written : List Char)
  | float (written : List Char)
  | other
deriving DecidableEq, Repr

/-- A token: a bracketed group, a word, a mark or a literal. A word may be written raw, which
keeps it from being a keyword. A mark is one character; it is joint if another mark follows
without a gap. `place` is the source from the token on. -/
inductive Tree where
  | group (delimiter : Delimiter) (body : List Tree)
  | word (place : List Char) (name : String) (raw : Bool)
  | mark (place : List Char) (sign : Char) (joint : Bool)
  | literal (value : Literal)
deriving Repr

mutual

/-- The number of trees in a tree, itself included. -/
def Tree.size : Tree → Nat
  | .group _ body => sizes body + 1
  | _ => 1

/-- The number of trees in a list of trees. -/
def sizes : List Tree → Nat
  | [] => 0
  | t :: ts => t.size + sizes ts

end

mutual

/-- The places of the words and marks in a tree. -/
def Tree.places : Tree → List (List Char)
  | .group _ body => places body
  | .word place _ _ => [place]
  | .mark place _ _ => [place]
  | .literal _ => []

/-- The places of the words and marks in a list of trees. -/
def places : List Tree → List (List Char)
  | [] => []
  | t :: ts => t.places ++ places ts

end

/-- The text of a word: raw words begin with `r#`. -/
def wordText (name : String) (raw : Bool) : String :=
  if raw then "r#" ++ name else name

end EmbeddedSolidity.Source
