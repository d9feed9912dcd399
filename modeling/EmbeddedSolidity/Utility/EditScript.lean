import EmbeddedSolidity.Utility.Basic
import EmbeddedSolidity.Utility.Regular

/-!
# Scripts of the stream editor

Commands, each with the lines that it is for, and how they are read.

* `EditScript.read` : the commands of a script, or what is wrong with it.
-/

namespace EmbeddedSolidity.Utility.EditScript

open Shell

/-! ## Commands -/

/-- A line that is meant. -/
inductive Address where
  | line (n : Nat)
  | last
  /-- A line and each one that lies a number of lines further on. -/
  | step (first size : Nat)
  /-- A line in which an expression matches; without one it is the last one used. -/
  | lineWith (e : Option Regular.Expression) (manner : Regular.Manner)
  /-- A number of lines behind the first one. -/
  | behind (n : Nat)
  /-- The next line whose number is a multiple. -/
  | multiple (n : Nat)

/-- The lines that a command is for. -/
structure Selector where
  first : Option Address := none
  last : Option Address := none
  negated : Bool := false

/-- How the letters of a replacement are changed. -/
inductive Case where
  | upper
  | lower
  | kept

/-- A letter in a case. -/
def Case.letter : Case → Char → Char
  | upper, c => c.toUpper
  | lower, c => c.toLower
  | kept, c => c

/-- A part of a replacement. -/
inductive Part where
  | text (cs : List Char)
  | group (n : Nat)
  /-- The letters that follow, or only the first one. -/
  | change (form : Case) (onlyFirst : Bool)

/-- A replacement of what an expression matches. -/
structure Replacement where
  expression : Option Regular.Expression
  manner : Regular.Manner
  parts : List Part
  /-- The first match that is replaced. -/
  first : Nat := 1
  all : Bool := false
  prints : Bool := false
  target : Option String := none

/-- What a command does. -/
inductive Deed where
  | opened
  | closed
  | label (name : String)
  | jump (name : String)
  | jumpIfReplaced (whether : Bool) (name : String)
  | replace (r : Replacement)
  | exchange (pairs : List (Char × Char))
  | append (text : List Char)
  | insert (text : List Char)
  | change (text : List Char)
  | appendFile (path : String)
  | appendLine (path : String)
  | write (path : String) (onlyFirst : Bool)
  | quit (prints : Bool) (status : Nat)
  /-- A command that is a letter only. -/
  | simple (letter : Char)

/-- A command. -/
structure Command where
  selector : Selector
  deed : Deed

/-! ## Reading -/

/-- What is left of a script, how much has been read, and what is known so far. -/
structure Progress where
  rest : List Char
  position : Nat := 0
  /-- The commands so far, the last one first. -/
  found : List Command := []
  depth : Nat := 0

/-- What reads a script, or complains behind a number of characters. -/
abbrev Reading := ExceptT (String × Nat) (StateM Progress)

/-- Complain about what has been read. -/
def refuse {α : Type} (message : String) : Reading α := do
  throw (message, (← get).position)

/-- Read a character. -/
def next? : Reading (Option Char) := do
  let s ← get
  match s.rest with
  | [] => return none
  | c :: rest =>
    set { s with rest, position := s.position + 1 }
    return some c

/-- Read characters as long as they are of a kind. -/
def span (p : Char → Bool) : Reading (List Char) := do
  let s ← get
  let cs := s.rest.takeWhile p
  set { s with rest := s.rest.drop cs.length, position := s.position + cs.length }
  return cs

/-- The character is a blank. -/
def isBlank (c : Char) : Bool :=
  c == ' ' || c == '\t'

/-- The character is a blank or ends a line. -/
def isSpace (c : Char) : Bool :=
  c == ' ' || ('\t' ≤ c && c ≤ '\r')

/-- The next character, which is not read. -/
def peek : Reading (Option Char) := do
  return (← get).rest.head?

/-- Read a number. -/
def number : Reading Nat := do
  return (← span Char.isDigit).foldl (fun n c => n * 10 + (c.toNat - 48)) 0

/-- Read the text of brackets behind the opening one. -/
def bracketText (cs : List Char) : Nat :=
  let skip (n : Nat) (c : Char) : Nat := if (cs.drop n).head? == some c then n + 1 else n
  let start := skip (skip 0 '^') ']'
  go (cs.length + 1) start (cs.drop start)
where
  go : Nat → Nat → List Char → Nat
    | 0, _, _ | _, _, [] => 0
    | n + 1, size, cs =>
      match cs with
      | ']' :: _ => size + 1
      | '[' :: ':' :: rest =>
        let name := rest.takeWhile Char.isAlpha
        match rest.drop name.length with
        | ':' :: ']' :: more => go n (size + name.length + 4) more
        | _ => go n (size + 2) rest
      | _ :: rest => go n (size + 1) rest
      | [] => 0

/-- Read a text up to a sign; `none` if there is none. The number is at least the length of the
text. -/
def upTo (sign : Char) (isExpression : Bool) : Nat → List Char → Reading (Option (List Char))
  | 0, _ => return none
  | n + 1, found => do
    match ← next? with
    | none => return none
    | some c =>
      if c == sign then return some found.reverse
      else if c == '\n' then
        modify fun s => { s with position := s.position - 1 }
        return none
      else if c == '\\' then
        match ← next? with
        | none => return none
        | some d =>
          if d == sign then
            upTo sign isExpression n
              (if !isExpression && d == '&' then d :: '\\' :: found else d :: found)
          else if d == 'n' && isExpression then upTo sign isExpression n ('\n' :: found)
          else if d == '\n' && isExpression then upTo sign isExpression n ('\n' :: found)
          else upTo sign isExpression n (d :: '\\' :: found)
      else if c == '[' && isExpression then
        let s ← get
        let size := bracketText s.rest
        if size == 0 then
          set { s with rest := [], position := s.position + s.rest.length }
          return none
        let inside := s.rest.take size
        set { s with rest := s.rest.drop size, position := s.position + size }
        let inside := unescaped (inside.length + 1) inside
        upTo sign isExpression n (inside.reverse ++ c :: found)
      else upTo sign isExpression n (c :: found)
where
  /-- A text in brackets, in which a line feed may be an escape. -/
  unescaped : Nat → List Char → List Char
    | 0, cs => cs
    | _, [] => []
    | n + 1, '\\' :: 'n' :: rest => '\n' :: unescaped n rest
    | n + 1, '\\' :: 't' :: rest => '\t' :: unescaped n rest
    | n + 1, c :: rest => c :: unescaped n rest

/-- A character that an escape names by a letter or by its number, and what follows. -/
def escaped? : List Char → Option (Char × List Char)
  | 'a' :: rest => some ('\x07', rest)
  | 'f' :: rest => some ('\x0c', rest)
  | 'r' :: rest => some ('\r', rest)
  | 't' :: rest => some ('\t', rest)
  | 'v' :: rest => some ('\x0b', rest)
  | 'x' :: rest => coded 16 2 rest
  | 'd' :: rest => coded 10 3 rest
  | 'o' :: rest => coded 8 3 rest
  | _ => none
where
  coded (base size : Nat) (cs : List Char) : Option (Char × List Char) :=
    let digit? (c : Char) : Option Nat :=
      let value := if c.isDigit then c.toNat - 48
        else if c.isAlpha then c.toLower.toNat - 87 else base
      if value < base then some value else none
    let digits := (cs.take size).takeWhile fun c => (digit? c).isSome
    if digits.isEmpty then none
    else
      let n : Nat := digits.foldl (fun n c => n * base + (digit? c).getD 0) 0
      some (Char.ofNat (n % 256), cs.drop digits.length)

/-- The text of an expression without the escapes that name characters. The number is at least
its length. -/
def plainExpression : Nat → List Char → List Char
  | 0, cs => cs
  | _, [] => []
  | n + 1, '\\' :: rest =>
    match escaped? rest with
    | some (c, more) =>
      let special := "*.[]^$\\/+?()\x7b\x7d|".toList.contains c
      (if special then ['\\', c] else [c]) ++ plainExpression n more
    | none =>
      match rest with
      | c :: more => '\\' :: c :: plainExpression n more
      | [] => ['\\']
  | n + 1, c :: rest => c :: plainExpression n rest

/-- The expression of a text, which is the last one used if the text is empty. -/
def expression (extended : Bool) (cs : List Char) :
    Reading (Option Regular.Expression × Nat) := do
  if cs.isEmpty then return (none, 9)
  match Regular.parse { extended } (plainExpression (cs.length + 1) cs) with
  | .ok (e, groups) => return (some e, groups)
  | .error message => refuse message

/-- Read the letters behind the expression of an address. -/
def manner : Nat → Regular.Manner → Reading Regular.Manner
  | 0, m => return m
  | n + 1, m => do
    match ← peek with
    | some 'I' =>
      let _ ← next?
      manner n { m with folds := true }
    | some 'M' =>
      let _ ← next?
      manner n { m with byLine := true }
    | _ => return m

/-- Read an address, if there is one. -/
def address? (extended isSecond : Bool) : Reading (Option Address) := do
  let s ← get
  match s.rest with
  | '/' :: _ =>
    let _ ← next?
    withSign '/' s.rest.length
  | '\\' :: sign :: _ =>
    let _ ← next?
    let _ ← next?
    withSign sign s.rest.length
  | '$' :: _ =>
    let _ ← next?
    return some .last
  | '+' :: c :: _ =>
    if isSecond && c.isDigit then
      let _ ← next?
      return some (.behind (← number))
    return none
  | '~' :: c :: _ =>
    if isSecond && c.isDigit then
      let _ ← next?
      return some (.multiple (← number))
    return none
  | c :: _ =>
    if !c.isDigit then return none
    let n ← number
    if (← peek) == some '~' && !isSecond then
      let _ ← next?
      return some (.step n (← number))
    return some (.line n)
  | [] => return none
where
  withSign (sign : Char) (size : Nat) : Reading (Option Address) := do
    match ← upTo sign true (size + 1) [] with
    | none => refuse "unterminated address regex"
    | some cs =>
      let m ← manner 4 {}
      let (e, _) ← expression extended cs
      return some (.lineWith e m)

/-- Read exclamation marks. -/
def negation : Nat → Bool → Reading Bool
  | 0, negated => return negated
  | n + 1, negated => do
    let _ ← span isSpace
    match ← peek with
    | some '!' =>
      let _ ← next?
      if negated then refuse "multiple \x60!'s"
      negation n true
    | _ => return negated

/-- Read the lines that a command is for. -/
def selector (extended : Bool) : Reading Selector := do
  match ← address? extended false with
  | none => return { negated := ← negation 3 false }
  | some first =>
    let _ ← span isBlank
    let second ← match ← peek with
      | some ',' =>
        let _ ← next?
        let _ ← span isBlank
        match ← address? extended true with
        | some second => pure (some second)
        | none =>
          let _ ← next?
          refuse "unexpected \x60,'"
      | _ => pure none
    let isZero := match first, second with
      | .line 0, some (.lineWith _ _) => false
      | .line 0, _ => true
      | _, _ => false
    if isZero then
      let _ ← next?
      refuse "invalid usage of line address 0"
    return { first := some first, last := second, negated := ← negation 3 false }

/-- Read the end of a command. -/
def ending : Reading Unit := do
  let _ ← span isBlank
  match ← peek with
  | none | some '}' | some '#' => return ()
  | some c =>
    let _ ← next?
    if c != '\n' && c != ';' && c != '\r' then refuse "extra characters after command"

/-- Read a label. -/
def label (stopsAtBrace : Bool) : Reading String := do
  let _ ← span isBlank
  let cs ← span fun c => !isSpace c && c != ';' && !(stopsAtBrace && c == '}')
  return String.ofList cs

/-- Read the name of a file. -/
def fileName : Reading String := do
  let _ ← span isBlank
  let cs ← span (· != '\n')
  if cs.isEmpty then refuse "missing filename in r/R/w/W commands"
  return String.ofList cs

/-- Read a text of lines, each but the last one with a backslash at its end. The number is at
least the length of what is left. -/
def textLines : Nat → List Char → Reading (List Char)
  | 0, found => return found.reverse
  | n + 1, found => do
    match ← next? with
    | none => return found.reverse
    | some '\n' => return found.reverse
    | some '\\' =>
      match ← next? with
      | none => return found.reverse
      | some c => textLines n (c :: found)
    | some c => textLines n (c :: found)

/-- Read the text that a command is to add. -/
def addedText : Reading (List Char) := do
  let _ ← span isBlank
  let size := (← get).rest.length + 1
  match ← peek with
  | none => refuse ("expected \\ after \x60" ++ "a', \x60" ++ "c' or \x60" ++ "i'")
  | some '\\' =>
    let _ ← next?
    let blanks ← span isBlank
    match ← peek with
    | some '\n' =>
      let _ ← next?
      return (← textLines size []) ++ ['\n']
    | none => return []
    | some _ => return (← textLines size (if blanks.isEmpty then [] else blanks.reverse)) ++ ['\n']
  | some _ => return (← textLines size []) ++ ['\n']

/-- The parts of a replacement. The number is at least its length. -/
def partsOf : Nat → List Char → List Char → List Part
  | 0, found, _ | _, found, [] => if found.isEmpty then [] else [.text found.reverse]
  | n + 1, found, c :: rest =>
    let flushed : List Part := if found.isEmpty then [] else [.text found.reverse]
    if c == '&' then flushed ++ .group 0 :: partsOf n [] rest
    else if c != '\\' then partsOf n (c :: found) rest
    else
      match rest with
      | [] => flushed
      | d :: more =>
        if d.isDigit then flushed ++ .group (d.toNat - 48) :: partsOf n [] more
        else
          let changing (form : Case) (onlyFirst : Bool) : List Part :=
            flushed ++ .change form onlyFirst :: partsOf n [] more
          match d with
          | 'U' => changing .upper false
          | 'L' => changing .lower false
          | 'E' => changing .kept false
          | 'u' => changing .upper true
          | 'l' => changing .lower true
          | 'n' => partsOf n ('\n' :: found) more
          | _ =>
            match escaped? rest with
            | some (e, behind) => partsOf n (e :: found) behind
            | none => partsOf n (d :: found) more

/-- Read the letters behind a replacement. -/
def options : Nat → Replacement → Bool → Reading Replacement
  | 0, r, _ => return r
  | n + 1, r, counted => do
    match ← peek with
    | none | some '}' | some '#' => return r
    | some c =>
      if c.isDigit then
        let digits ← number
        if counted then refuse "multiple number options to \x60s' command"
        if digits == 0 then refuse "number option to \x60s' command may not be zero"
        options n { r with first := digits } true
      else
        let _ ← next?
        match c with
        | '\n' | ';' => return r
        | '\r' => return r
        | 'i' | 'I' => options n { r with manner := { r.manner with folds := true } } counted
        | 'm' | 'M' => options n { r with manner := { r.manner with byLine := true } } counted
        | 'p' =>
          if r.prints then refuse "multiple \x60p' options to \x60s' command"
          options n { r with prints := true } counted
        | 'g' =>
          if r.all then refuse "multiple \x60g' options to \x60s' command"
          options n { r with all := true } counted
        | 'w' => return { r with target := some (← fileName) }
        | ' ' | '\t' => options n r counted
        | _ => refuse "unknown option to \x60s'"

/-- Read a replacement behind its letter. -/
def replacement (extended : Bool) : Reading Deed := do
  let size := (← get).rest.length + 2
  match ← next? with
  | none | some '\n' | some '\\' => refuse "unterminated \x60s' command"
  | some sign =>
    match ← upTo sign true size [] with
    | none => refuse "unterminated \x60s' command"
    | some pattern =>
      match ← upTo sign false size [] with
      | none => refuse "unterminated \x60s' command"
      | some text =>
        let parts := partsOf (text.length + 1) [] text
        let r ← options size { expression := none, manner := {}, parts } false
        let (e, groups) ← expression extended pattern
        let highest := parts.foldl (fun n p => match p with
          | .group k => max n k
          | _ => n) 0
        if groups < highest then
          refuse ("invalid reference \\" ++ toString highest ++ " on \x60s' command's RHS")
        return .replace { r with expression := e }

/-- The characters that are exchanged, without escapes. -/
def plainChars : List Char → List Char
  | '\\' :: 'n' :: rest => '\n' :: plainChars rest
  | '\\' :: '\\' :: rest => '\\' :: plainChars rest
  | '\\' :: 't' :: rest => '\t' :: plainChars rest
  | c :: rest => c :: plainChars rest
  | [] => []

/-- Read characters that are exchanged behind their letter. -/
def exchange : Reading Deed := do
  let size := (← get).rest.length + 2
  match ← next? with
  | none => refuse "unterminated \x60y' command"
  | some sign =>
    match ← upTo sign false size [] with
    | none => refuse "unterminated \x60y' command"
    | some a =>
      match ← upTo sign false size [] with
      | none => refuse "unterminated \x60y' command"
      | some b =>
        let (a, b) := (plainChars a, plainChars b)
        if a.length != b.length then
          let _ ← next?
          refuse "strings for \x60y' command are different lengths"
        ending
        return .exchange (a.zip b)

/-- Read what a command does. -/
def deed (extended : Bool) (s : Selector) : Reading Deed := do
  match ← next? with
  | none => refuse "missing command"
  | some c =>
    match c with
    | '{' =>
      modify fun p => { p with depth := p.depth + 1 }
      return .opened
    | '}' =>
      if (← get).depth == 0 then refuse "unexpected \x60\x7d'"
      if s.first.isSome then refuse "\x7d doesn't want any addresses"
      modify fun p => { p with depth := p.depth - 1 }
      ending
      return .closed
    | ':' =>
      if s.first.isSome then refuse ": doesn't want any addresses"
      let name ← label false
      if name.isEmpty then refuse "\":\" lacks a label"
      ending
      return .label name
    | 'b' => jumping .jump
    | 't' => jumping (.jumpIfReplaced true)
    | 'T' => jumping (.jumpIfReplaced false)
    | 'a' => return .append (← addedText)
    | 'i' => return .insert (← addedText)
    | 'c' => return .change (← addedText)
    | 'r' => return .appendFile (← fileName)
    | 'R' => return .appendLine (← fileName)
    | 'w' => return .write (← fileName) false
    | 'W' => return .write (← fileName) true
    | 's' => replacement extended
    | 'y' => exchange
    | 'q' | 'Q' =>
      if s.last.isSome then refuse "command only uses one address"
      let _ ← span isBlank
      let status ← number
      ending
      return .quit (c == 'q') status
    | _ =>
      if "=dDFgGhHlnNpPxz".toList.contains c then
        if c == 'l' then
          let _ ← span isBlank
          let _ ← number
        ending
        return .simple c
      else refuse ("unknown command: \x60" ++ String.singleton c ++ "'")
where
  jumping (f : String → Deed) : Reading Deed := do
    let name ← label true
    ending
    return f name

/-- Read commands. The number is more than the length of what is left. -/
def commands (extended : Bool) : Nat → Reading Unit
  | 0 => return ()
  | n + 1 => do
    let _ ← span fun c => isSpace c || c == ';'
    match ← peek with
    | none => return ()
    | some '#' =>
      let _ ← span (· != '\n')
      commands extended n
    | some _ =>
      let s ← selector extended
      let d ← deed extended s
      modify fun p => { p with found := ⟨s, d⟩ :: p.found }
      commands extended n

/-- The commands of scripts that follow one another and stand under names, or what is wrong with
one of them. -/
def read (extended : Bool) (scripts : List (String × List Char)) : Except String (List Command) :=
  go { rest := [] } scripts
where
  go (before : Progress) : List (String × List Char) → Except String (List Command)
    | [] =>
      if before.depth == 0 then .ok before.found.reverse
      else .error ((scripts.head?.map (·.1)).getD "" ++ "char 0: unmatched \x60\x7b'")
    | (name, cs) :: rest =>
      let start := { before with rest := cs, position := 0 }
      match (commands extended (2 * cs.length + 2)).run.run start with
      | (.ok (), s) => go s rest
      | (.error (message, position), _) =>
        .error (name ++ "char " ++ toString position ++ ": " ++ message)

end EmbeddedSolidity.Utility.EditScript
