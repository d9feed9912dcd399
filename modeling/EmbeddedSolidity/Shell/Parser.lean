import EmbeddedSolidity.Shell.Lexer

/-!
# Reading scripts

A script is read one complete command at a time, so that commands in front of a fault are still
carried out. The first argument of the readers bounds how deeply constructs are nested and how
long lists are; it grows with the number of characters of the script.

* `Script.next` : the next complete command of a script.
-/

namespace EmbeddedSolidity.Shell

namespace Parser

open Lexer

/-- The commands that are carried out by the shell itself before functions are looked for. -/
def specialCommands : List String :=
  [".", ":", "break", "continue", "eval", "exec", "exit", "export", "readonly", "return", "set",
    "shift", "times", "trap", "unset", "local"]

/-- Where a list of commands stands. -/
inductive Extent where
  /-- On lines of its own; it ends with the line. -/
  | line
  /-- In a construct that ends it; it is not empty. -/
  | block
  /-- In a construct that ends it. -/
  | optional
deriving DecidableEq

/-- Read the last token again. -/
def reread : Reader Unit :=
  modify fun s => { s with again := true }

/-- The text of an unquoted word without values. -/
def plainText? : Token → Option String
  | .word [.text cs false] false => some (String.ofList cs)
  | _ => none

/-- All commands in the order in which they stand. -/
def sequenceOf (found : List Script) : Script :=
  match found with
  | [one] => one
  | _ => .sequence found.reverse

/-- A command with redirections around it. -/
def redirecting (line : Nat) (body : Script) : List Redirect → Script
  | [] => body
  | redirects => .redirected line body redirects

/-- The alternatives of a branch, the last one first. -/
def branches : List (Script × Script) → Option Script → Option Script
  | [], otherwise => otherwise
  | (condition, body) :: rest, otherwise => branches rest (some (.branch condition body otherwise))

/-- A simple command that is complete. -/
def finish (line : Nat) (assigned : List (String × Word)) (words : List Word)
    (redirects : List Redirect) : Reader Script := do
  reread
  return .simple line assigned.reverse words.reverse redirects.reverse

mutual

/-- A list of commands; `none` at the end of the script. -/
def list (extent : Extent) : Nat → Reader (Option Script)
  | 0 => unexpected none
  | n + 1 => commands extent (extent == .optional) [] n
termination_by structural n => n

/-- The commands of a list behind those that have been found, last first. The list may end if
`mayEnd` is set. -/
def commands (extent : Extent) (mayEnd : Bool) (found : List Script) :
    Nat → Reader (Option Script)
  | 0 => unexpected none
  | n + 1 => do
    let inner := body n
    let t ← token inner .word (extent != .line) true
    match t with
    | .newline =>
      documents inner
      return some (sequenceOf found)
    | .endOfFile =>
      documents inner
      reread
      return if found.isEmpty && extent == .line then none else some (sequenceOf found)
    | _ =>
      reread
      if mayEnd && extent != .line && t.endsList then return some (sequenceOf found)
      let command ← conditions n
      let behind ← token inner .word false false
      let found :=
        match behind with
        | .ampersand => .background command :: found
        | _ => command :: found
      match behind with
      | .endOfFile =>
        documents inner
        reread
        return some (sequenceOf found)
      | .newline =>
        reread
        commands extent true found n
      | .semicolon | .ampersand => commands extent true found n
      | _ =>
        if extent == .line then unexpected none
        reread
        return some (sequenceOf found)
termination_by structural n => n

/-- The commands of a substitution. -/
def body : Nat → Reader Script
  | 0 => unexpected none
  | n + 1 => do
    return (← list .optional n).getD (.sequence [])
termination_by structural n => n

/-- The commands of a construct. -/
def block : Nat → Reader Script
  | 0 => unexpected none
  | n + 1 => do
    return (← list .block n).getD (.sequence [])
termination_by structural n => n

/-- Pipelines that depend on how those before them end. -/
def conditions : Nat → Reader Script
  | 0 => unexpected none
  | n + 1 => do
    let first ← pipeline false n
    moreConditions first n
termination_by structural n => n

/-- What depends on how a command ends. -/
def moreConditions (first : Script) : Nat → Reader Script
  | 0 => unexpected none
  | n + 1 => do
    match ← token (body n) .word false false with
    | .both =>
      let second ← pipeline true n
      moreConditions (.both first second) n
    | .either =>
      let second ← pipeline true n
      moreConditions (.either first second) n
    | _ =>
      reread
      return first
termination_by structural n => n

/-- Commands with pipes between them, perhaps negated; behind line ends if `lines` is set. -/
def pipeline (lines : Bool) : Nat → Reader Script
  | 0 => unexpected none
  | n + 1 => do
    let inner := body n
    let t ← token inner .word lines true
    let isNegated := t.isReserved "!"
    if !isNegated then reread
    let first ← command false isNegated n
    let all ← piped [first] n
    let whole :=
      match all with
      | [one] => one
      | _ => .pipeline all
    return if isNegated then .negated whole else whole
termination_by structural n => n

/-- The commands behind pipes; those that have been found are given last first. -/
def piped (found : List Script) : Nat → Reader (List Script)
  | 0 => unexpected none
  | n + 1 => do
    let inner := body n
    match ← token inner .word false false with
    | .pipe =>
      let next ← command true true n
      piped (next :: found) n
    | _ =>
      reread
      return found.reverse
termination_by structural n => n

/-- The next token is a reserved word, behind line ends if `lines` is set. -/
def expectReserved (lines : Bool) (word : String) : Nat → Reader Unit
  | 0 => unexpected none
  | n + 1 => do
    let t ← token (body n) .word lines true
    if !t.isReserved word then unexpected (some (.reserved word))
termination_by structural n => n

/-- A command of any kind; behind line ends if `lines` is set. -/
def command (lines reserved : Bool) : Nat → Reader Script
  | 0 => unexpected none
  | n + 1 => do
    let line := (← get).line
    let inner := body n
    match ← token inner .word lines reserved with
    | .word _ _ | .redirect _ _ _ =>
      reread
      simple (← get).line false [] [] [] n
    | .opening =>
      let commands ← block n
      match ← token inner .word false false with
      | .closing => redirects line (.subshell line commands) n
      | _ => unexpected (some .closing)
    | .reserved "\x7b" =>
      let commands ← block n
      closed line "\x7d" commands n
    | .reserved "if" =>
      let whole ← branch [] n
      closed line "fi" whole n
    | .reserved "while" => whileLoop line true n
    | .reserved "until" => whileLoop line false n
    | .reserved "for" =>
      match plainText? (← token inner .word false false) with
      | some name =>
        if !isName name.toList then refuse "Bad for loop variable"
        let words ← forWords n
        expectReserved true "do" n
        let commands ← block n
        closed line "done" (.each line name words commands) n
      | none => refuse "Bad for loop variable"
    | .reserved "case" =>
      match ← token inner .word false false with
      | .word subject _ =>
        expectReserved true "in" n
        let cases ← choices [] n
        redirects line (.choice line subject cases) n
      | _ => unexpected (some (.word [] false))
    | _ => unexpected none
termination_by structural n => n

/-- A loop behind its first word. -/
def whileLoop (line : Nat) (whileTrue : Bool) : Nat → Reader Script
  | 0 => unexpected none
  | n + 1 => do
    let condition ← block n
    expectReserved false "do" n
    let commands ← block n
    closed line "done" (.loop whileTrue condition commands) n
termination_by structural n => n

/-- The redirections behind a command that ends with a reserved word. -/
def closed (line : Nat) (word : String) (whole : Script) : Nat → Reader Script
  | 0 => unexpected none
  | n + 1 => do
    expectReserved false word n
    redirects line whole n
termination_by structural n => n

/-- A branch behind its first word, with the alternatives that have been found, last first. -/
def branch (found : List (Script × Script)) : Nat → Reader Script
  | 0 => unexpected none
  | n + 1 => do
    let condition ← block n
    expectReserved false "then" n
    let commands ← block n
    let found := (condition, commands) :: found
    match ← token (body n) .word false false with
    | .reserved "elif" => branch found n
    | .reserved "else" =>
      let otherwise ← block n
      return (branches found (some otherwise)).getD (.sequence [])
    | _ =>
      reread
      return (branches found none).getD (.sequence [])
termination_by structural n => n

/-- The words that a loop goes over, up to the end of the line. -/
def forWords : Nat → Reader (List Word)
  | 0 => unexpected none
  | n + 1 => do
    match ← token (body n) .word true true with
    | .reserved "in" => words [] n
    | .semicolon => return [[.parameter "@" .plain [] true]]
    | _ =>
      reread
      return [[.parameter "@" .plain [] true]]
termination_by structural n => n

/-- Words up to a line end or a semicolon. -/
def words (found : List Word) : Nat → Reader (List Word)
  | 0 => unexpected none
  | n + 1 => do
    match ← token (body n) .word false false with
    | .word w _ => words (w :: found) n
    | .newline | .semicolon => return found.reverse
    | _ => unexpected none
termination_by structural n => n

/-- The cases of a choice behind those that have been found, last first. -/
def choices (found : List (List Word × Script)) : Nat → Reader (List (List Word × Script))
  | 0 => unexpected none
  | n + 1 => do
    let inner := body n
    let t ← token inner .word true true
    if t.isReserved "esac" then return found.reverse
    let first ←
      match t with
      | .opening => token inner .word false false
      | _ => pure t
    let patterns ← patterns [] first n
    let commands ← body n
    let found := (patterns, commands) :: found
    match ← token inner .word true true with
    | .reserved "esac" => return found.reverse
    | .endCase => choices found n
    | _ => unexpected (some .endCase)
termination_by structural n => n

/-- The patterns of a case, of which the last one that has been read is `t`. -/
def patterns (found : List Word) (t : Token) : Nat → Reader (List Word)
  | 0 => unexpected none
  | n + 1 => do
    let inner := body n
    let pattern : Word :=
      match t with
      | .word w _ => w
      | .reserved w => [.text w.toList false]
      | _ => []
    match ← token inner .word false false with
    | .pipe =>
      let next ← token inner .word false false
      patterns (pattern :: found) next n
    | .closing => return (pattern :: found).reverse
    | _ => unexpected (some .closing)
termination_by structural n => n

/-- The word of a redirection. -/
def target (stream : Nat) (use : RedirectUse) (tabs : Bool) : Nat → Reader Redirect
  | 0 => unexpected none
  | n + 1 => do
    match ← token (body n) (if use == .here then .stop else .word) false false with
    | .word w quoted =>
      if use == .here then
        let s ← get
        let number := s.documents.size
        let pending : Pending := ⟨number, w.literal, tabs, quoted⟩
        set { s with documents := s.documents.push [], pending := s.pending ++ [pending] }
        return .mk stream .here [.document number]
      return .mk stream use w
    | _ => unexpected none
termination_by structural n => n

/-- A command with the redirections behind it. -/
def redirects (line : Nat) (whole : Script) : Nat → Reader Script
  | 0 => unexpected none
  | n + 1 => return redirecting line whole (← moreRedirects true [] n)
termination_by structural n => n

/-- Redirections behind a construct. -/
def moreRedirects (reserved : Bool) (found : List Redirect) : Nat → Reader (List Redirect)
  | 0 => unexpected none
  | n + 1 => do
    match ← token (body n) .word false reserved with
    | .redirect stream use tabs =>
      let r ← target stream use tabs n
      moreRedirects false (r :: found) n
    | _ =>
      reread
      return found.reverse
termination_by structural n => n

/-- A simple command, of which some assignments, words and redirections have been found, last
first, or the definition of a function. -/
def simple (line : Nat) (hasWords : Bool) (assigned : List (String × Word)) (words : List Word)
    (redirects : List Redirect) : Nat → Reader Script
  | 0 => unexpected none
  | n + 1 => do
    let inner := body n
    let t ← if hasWords then token inner .word false false else nameToken inner .word
    match t with
    | .word w _ =>
      let assignment :=
        match hasWords, w with
        | false, .text cs false :: rest =>
          (assignment? cs).map fun (name, value) =>
            (String.ofList name,
              if value.isEmpty then rest else Piece.text value false :: rest)
        | _, _ => none
      match assignment with
      | some a => simple line false (a :: assigned) words redirects n
      | none => simple line true assigned (w :: words) redirects n
    | .redirect stream use tabs =>
      let r ← target stream use tabs n
      simple line hasWords assigned words (r :: redirects) n
    | .opening =>
      match assigned, words, redirects with
      | [], [name], [] =>
        match ← token inner .word false false with
        | .closing => define name n
        | _ => unexpected (some .closing)
      | _, _, _ => finish line assigned words redirects
    | _ => finish line assigned words redirects
termination_by structural n => n

/-- The definition of a function, behind its name. -/
def define (name : Word) : Nat → Reader Script
  | 0 => unexpected none
  | n + 1 => do
    match name with
    | [.text cs false] =>
      let name := String.ofList cs
      if !isName cs || specialCommands.contains name then refuse "Bad function name"
      let line := (← get).line
      let commands ← command true true n
      return .define line name commands
    | _ => refuse "Bad function name"
termination_by structural n => n

end

end Parser

/-- The next complete command of a script, and what is left of the script; `none` at its end. -/
def Script.next (source : Lexer.Source) : Except Lexer.Fault (Option Script × Lexer.Source) :=
  (Parser.list .line (8 * source.rest.length + 64)).run
    { source with again := false, pending := [] }

/-- The word that a text is as if it stood between double quotes; `none` if it is none. -/
def Script.wordOf? (text : String) : Option Word :=
  let n := 8 * text.length + 64
  let found := (Lexer.scanAll (Parser.body n) (.document ['\x00'] false) .double).run
    { rest := text.toList }
  match found with
  | .ok (s, _) => some (Lexer.wordOf true s.items.reverse)
  | .error _ => none

end EmbeddedSolidity.Shell
