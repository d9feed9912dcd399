import EmbeddedSolidity.Shell.Syntax

/-!
# Tokens of scripts

Words, redirections, the signs between commands, and the reserved words, with the texts by which
complaints about scripts call them.
-/

namespace EmbeddedSolidity.Shell

/-- A word, a redirection or a sign of a script. -/
inductive Token where
  | endOfFile
  | newline
  | semicolon
  | ampersand
  | both
  | either
  | pipe
  | opening
  | closing
  | endCase
  /-- A redirection without its word; `tabs` if tabs in front of the lines of its text do not
  count. -/
  | redirect (stream : Nat) (use : RedirectUse) (tabs : Bool)
  /-- A word; `quoted` if something in it is quoted. -/
  | word (pieces : Word) (quoted : Bool)
  | reserved (word : String)
deriving Inhabited

namespace Token

/-- The reserved words. -/
def reservedWords : List String :=
  ["!", "case", "do", "done", "elif", "else", "esac", "fi", "for", "if", "in", "then", "until",
    "while", "\x7b", "\x7d"]

/-- The token, as a reserved word if it is one. -/
def reserve : Token → Token
  | .word [.text cs false] false =>
    if reservedWords.contains (String.ofList cs) then .reserved (String.ofList cs)
    else .word [.text cs false] false
  | t => t

/-- The token is a reserved word. -/
def isReserved (word : String) : Token → Bool
  | .reserved w => w == word
  | _ => false

/-- The token can end a list of commands. -/
def endsList : Token → Bool
  | .endOfFile | .closing | .endCase => true
  | .reserved w => ["do", "done", "elif", "else", "esac", "fi", "then", "\x7d"].contains w
  | _ => false

/-- The text between quotation marks. -/
def inMarks (s : String) : String :=
  "\"" ++ s ++ "\""

/-- What complaints call the token. -/
def text : Token → String
  | endOfFile => "end of file"
  | newline => "newline"
  | semicolon => inMarks ";"
  | ampersand => inMarks "&"
  | both => inMarks "&&"
  | either => inMarks "||"
  | pipe => inMarks "|"
  | opening => inMarks "("
  | closing => inMarks ")"
  | endCase => inMarks ";;"
  | redirect _ _ _ => "redirection"
  | word _ _ => "word"
  | reserved w => inMarks w

end Token

end EmbeddedSolidity.Shell
