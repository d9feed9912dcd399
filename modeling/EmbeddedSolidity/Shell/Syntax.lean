/-!
# Shell scripts

The command language of shells: simple commands with redirections, lists, pipelines, the compound
commands and functions; words with quotes, parameters, substitutions and arithmetic.
-/

namespace EmbeddedSolidity.Shell

/-- What a parameter in braces does with its value. Where `colon` is set, an empty value counts
as none. -/
inductive ParameterUse where
  | plain
  | length
  /-- Another text where there is no value. -/
  | orElse (colon : Bool)
  /-- Another text where there is no value, which also becomes the value. -/
  | orAssign (colon : Bool)
  /-- The end of the script where there is no value. -/
  | orFail (colon : Bool)
  /-- Another text where there is a value. -/
  | alternative (colon : Bool)
  /-- Without what a pattern matches at the front, or at the end. -/
  | without (front longest : Bool)
  /-- No use that there is. -/
  | invalid
deriving DecidableEq

/-- How a redirection changes a stream. -/
inductive RedirectUse where
  | read
  | write
  | append
  | readWrite
  /-- Also a file that is not to be overwritten. -/
  | overwrite
  /-- The stream that a number names. -/
  | duplicate
  /-- The text itself is what is read. -/
  | here
deriving DecidableEq

mutual

/-- A part of a word. Unquoted values are split at separators and matched with file names. -/
inductive Piece where
  | text (chars : List Char) (quoted : Bool)
  | parameter (name : String) (use : ParameterUse) (operand : List Piece) (quoted : Bool)
  | substitution (body : Script) (quoted : Bool)
  | arithmetic (expression : List Piece) (quoted : Bool)
  /-- The text of a number among those that stand below the lines of the commands. -/
  | document (number : Nat)

/-- A redirection of the stream of a number. -/
inductive Redirect where
  | mk (stream : Nat) (use : RedirectUse) (word : List Piece)

/-- A command, many of them with the line that they begin on. -/
inductive Script where
  | simple (line : Nat) (assignments : List (String × List Piece)) (words : List (List Piece))
      (redirects : List Redirect)
  | sequence (commands : List Script)
  | both (first second : Script)
  | either (first second : Script)
  | negated (command : Script)
  | pipeline (commands : List Script)
  | background (command : Script)
  | subshell (line : Nat) (body : Script)
  | redirected (line : Nat) (body : Script) (redirects : List Redirect)
  | branch (condition body : Script) (otherwise : Option Script)
  /-- A loop that goes on while its condition succeeds, or else until it does. -/
  | loop (whileTrue : Bool) (condition body : Script)
  | each (line : Nat) (name : String) (words : List (List Piece)) (body : Script)
  | choice (line : Nat) (subject : List Piece) (cases : List (List (List Piece) × Script))
  | define (line : Nat) (name : String) (body : Script)

end

/-- A word as its parts. -/
abbrev Word := List Piece

instance : Inhabited Script := ⟨.sequence []⟩

/-- The text of a word without its quotes and values. -/
def Word.literal (w : Word) : List Char :=
  w.flatMap fun
    | .text cs _ => cs
    | _ => []

/-! ## Names -/

/-- A character of a name behind the first one. -/
def isNameChar (c : Char) : Bool :=
  c.isAlphanum || c == '_'

/-- The characters are the name of a variable. -/
def isName : List Char → Bool
  | [] => false
  | c :: rest => (c.isAlpha || c == '_') && rest.all isNameChar

/-- The name and the value of an assignment. -/
def assignment? (cs : List Char) : Option (List Char × List Char) :=
  let name := cs.takeWhile isNameChar
  match isName name, cs.drop name.length with
  | true, '=' :: value => some (name, value)
  | _, _ => none

end EmbeddedSolidity.Shell
