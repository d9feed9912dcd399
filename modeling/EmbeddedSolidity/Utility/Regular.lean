import EmbeddedSolidity.Shell.Charset
import EmbeddedSolidity.Utility.Quotation

/-!
# Regular expressions

Expressions of the basic and of the extended kind, and what they match in a text: the longest part
of those that begin first. Texts are lists of characters; a byte that is no text is a character of
its own.

* `Regular.parse` : the expression that a text is;
* `Regular.search` : the first match in a text.
-/

namespace EmbeddedSolidity.Utility.Regular

open Shell

/-! ## Characters -/

/-- The first character that stands for a byte that is no text. -/
def strayBase : Nat := 0x10FF00

/-- The characters that bytes encode. -/
def decode (cs : List Char) : List Char :=
  (Quotation.parts cs.length cs).flatMap fun
    | .shown bytes => if bytes.length == 1 then bytes
        else (Bytes.toText (String.ofList bytes)).toList
    | .hidden c => if c.toNat < 128 then [c] else [Char.ofNat (strayBase + c.toNat)]

/-- The bytes that characters encode. -/
def encode (cs : List Char) : List Char :=
  cs.flatMap fun c =>
    if c.toNat < 128 then [c]
    else if strayBase ≤ c.toNat && c.toNat < strayBase + 256 then [Char.ofNat (c.toNat - strayBase)]
    else (Bytes.ofText (String.singleton c)).toList

/-! ## Expressions -/

/-- A condition on where a match stands. -/
inductive Anchor where
  | lineStart
  | lineEnd
  | textStart
  | textEnd
  | wordStart
  | wordEnd
  | wordEdge
  | noWordEdge
  /-- No word goes on to here. -/
  | behindNoWord
  /-- No word begins or goes on here. -/
  | beforeNoWord
deriving DecidableEq

/-- An expression. -/
inductive Expression where
  | empty
  | one (set : Charset)
  | anchor (a : Anchor)
  | group (number : Nat) (body : Expression)
  /-- What a group has matched. -/
  | back (number : Nat)
  | sequence (first second : Expression)
  | either (first second : Expression)
  | many (body : Expression) (least : Nat) (most : Option Nat)

/-- Where a match has come to. -/
structure Cursor where
  /-- The characters in front, the last one first. -/
  front : List Char
  rest : List Char
  groups : List (Nat × List Char) := []

/-- How a text is matched. -/
structure Manner where
  /-- Whether letters are large or small does not count. -/
  folds : Bool := false
  /-- Lines within the text have a start and an end too. -/
  byLine : Bool := false

/-- The character belongs to words. -/
def isWordChar (c : Char) : Bool :=
  isNameChar c || 127 < c.toNat
where
  isNameChar (c : Char) : Bool := c.isAlphanum || c == '_'

/-- The condition holds at a cursor. -/
def Anchor.holds (manner : Manner) (s : Cursor) : Anchor → Bool
  | .lineStart => s.front.isEmpty || (manner.byLine && s.front.head? == some '\n')
  | .lineEnd => s.rest.isEmpty || (manner.byLine && s.rest.head? == some '\n')
  | .textStart => s.front.isEmpty
  | .textEnd => s.rest.isEmpty
  | .wordStart => !s.front.head?.any isWordChar && s.rest.head?.any isWordChar
  | .wordEnd => s.front.head?.any isWordChar && !s.rest.head?.any isWordChar
  | .wordEdge => s.front.head?.any isWordChar != s.rest.head?.any isWordChar
  | .noWordEdge => s.front.head?.any isWordChar == s.rest.head?.any isWordChar
  | .behindNoWord => !s.front.head?.any isWordChar
  | .beforeNoWord => !s.rest.head?.any isWordChar

/-- The set has a character, in one of its cases. -/
def accepts (manner : Manner) (set : Charset) (c : Char) : Bool :=
  set.contains c || (manner.folds && (set.contains c.toLower || set.contains c.toUpper))

/-- Go on behind a text, if it is what follows. -/
def Cursor.past? (manner : Manner) (s : Cursor) : List Char → Option Cursor
  | [] => some s
  | c :: cs =>
    match s.rest with
    | d :: rest =>
      if c == d || (manner.folds && c.toLower == d.toLower) then
        Cursor.past? manner { s with front := d :: s.front, rest } cs
      else none
    | [] => none

/-- Match something again and again, as often as possible. The first number bounds how often. -/
def again (body : (Cursor → Option Cursor) → Cursor → Option Cursor) :
    Nat → Nat → Option Nat → (Cursor → Option Cursor) → Cursor → Option Cursor
  | 0, _, _, next, s => next s
  | n + 1, least, most, next, s =>
    let once (onward : Cursor → Option Cursor) : Option Cursor :=
      if most == some 0 then none else body onward s
    let onward (s' : Cursor) : Option Cursor :=
      if least == 0 && s'.rest.length == s.rest.length then none
      else again body n (least - 1) (most.map (· - 1)) next s'
    match once onward with
    | some found => some found
    | none => if least == 0 then next s else none

/-- Match an expression and what follows it. -/
def Expression.run (manner : Manner) :
    Expression → (Cursor → Option Cursor) → Cursor → Option Cursor
  | .empty, next, s => next s
  | .one set, next, s =>
    match s.rest with
    | c :: rest =>
      if accepts manner set c then next { s with front := c :: s.front, rest } else none
    | [] => none
  | .anchor a, next, s => if a.holds manner s then next s else none
  | .group n body, next, s =>
    body.run manner (fun s' =>
      let taken := s.rest.take (s.rest.length - s'.rest.length)
      next { s' with groups := (n, taken) :: s'.groups.filter (·.1 != n) }) s
  | .back n, next, s =>
    match s.groups.lookup n with
    | some cs => (s.past? manner cs).bind next
    | none => none
  | .sequence a b, next, s => a.run manner (b.run manner next) s
  | .either a b, next, s =>
    match a.run manner next s with
    | some found => some found
    | none => b.run manner next s
  | .many body least most, next, s =>
    again (body.run manner) (s.rest.length + least + 1) least most next s

/-- The longest match at a cursor. -/
def Expression.longest (manner : Manner) (e : Expression) (s : Cursor) : Option Cursor :=
  match e.run manner some s with
  | none => none
  | some found =>
    let longer := (List.range found.rest.length).findSome? fun left =>
      e.run manner (fun s' => if s'.rest.length == left then some s' else none) s
    some (longer.getD found)

/-- A match: what is in front of it, what it is, what follows, and what its groups are. -/
structure Found where
  front : List Char
  text : List Char
  rest : List Char
  groups : List (Nat × List Char)

/-- The first match in a text behind another one, whose last character comes first; `passed` are
the characters that have been passed over, the last one first. -/
def searchFrom (manner : Manner) (e : Expression) (passed front : List Char) :
    List Char → Option Found
  | [] => attempt []
  | c :: rest =>
    match attempt (c :: rest) with
    | some found => some found
    | none => searchFrom manner e (c :: passed) (c :: front) rest
where
  /-- The match that begins at a text. -/
  attempt (rest : List Char) : Option Found :=
    (e.longest manner { front, rest }).map fun s =>
      ⟨passed.reverse, rest.take (rest.length - s.rest.length), s.rest, s.groups⟩

/-- The first match in a text. -/
def search (manner : Manner) (e : Expression) (text : List Char) : Option Found :=
  searchFrom manner e [] [] text

/-- All matches in a text behind another one, each but the last one with what is between it and
the next one. The number is more than the length of the text. -/
def searchAll (manner : Manner) (e : Expression) : Nat → List Char → List Char → List (List Char)
  | 0, _, _ => []
  | n + 1, front, rest =>
    match searchFrom manner e [] front rest with
    | none => []
    | some found =>
      let passed := found.text.reverse ++ found.front.reverse ++ front
      if !found.text.isEmpty then found.text :: searchAll manner e n passed found.rest
      else
        match found.rest with
        | [] => []
        | c :: rest => searchAll manner e n (c :: passed) rest

/-! ## Reading expressions -/

/-- A sign in the text of an expression. -/
inductive Sign where
  | opened
  | closed
  | bar
  | star
  | plus
  | question
  | brace
  | caret
  | dollar
  | dot
  | bracket
  | anchor (a : Anchor)
  | set (s : Charset)
  | back (number : Nat)
  | char (c : Char)
  | broken

/-- The characters of words, or all others. -/
def wordSet (negated : Bool) : Charset :=
  .oneOf negated [.ofClass "alnum", .range '_' '_']

/-- What a letter behind a backslash stands for in both kinds of expressions. -/
def letterSign (c : Char) : Sign :=
  match c with
  | 'w' => .set (wordSet false)
  | 'W' => .set (wordSet true)
  | 's' => .set (.oneOf false [.ofClass "space"])
  | 'S' => .set (.oneOf true [.ofClass "space"])
  | 'b' => .anchor .wordEdge
  | 'B' => .anchor .noWordEdge
  | '<' => .anchor .wordStart
  | '>' => .anchor .wordEnd
  | '\x60' => .anchor .textStart
  | '\'' => .anchor .textEnd
  | _ => if '1' ≤ c && c ≤ '9' then .back (c.toNat - 48) else .char c

/-- The sign of a character that has a meaning in extended expressions. -/
def extendedSign? : Char → Option Sign
  | '(' => some .opened
  | ')' => some .closed
  | '|' => some .bar
  | '+' => some .plus
  | '?' => some .question
  | '{' => some .brace
  | _ => none

/-- The first sign of a text, and what follows. -/
def sign (extended : Bool) : List Char → Option (Sign × List Char)
  | [] => none
  | ['\\'] => some (.broken, [])
  | '\\' :: c :: rest =>
    match if extended then none else extendedSign? c with
    | some s => some (s, rest)
    | none => some (letterSign c, rest)
  | c :: rest =>
    match c with
    | '*' => some (.star, rest)
    | '^' => some (.caret, rest)
    | '$' => some (.dollar, rest)
    | '.' => some (.dot, rest)
    | '[' => some (.bracket, rest)
    | _ => some (((if extended then extendedSign? c else none).getD (.char c)), rest)

/-- The counts in braces, behind the opening one; `none` if there are none. -/
def counts? (extended : Bool) (cs : List Char) : Option (Nat × Option Nat × List Char) :=
  let value (ds : List Char) : Nat := ds.foldl (fun n c => n * 10 + (c.toNat - 48)) 0
  let low := cs.takeWhile Char.isDigit
  let rest := cs.drop low.length
  let (high, rest) := match rest with
    | ',' :: more =>
      let high := more.takeWhile Char.isDigit
      (if high.isEmpty then none else some (value high), more.drop high.length)
    | _ => (some (value low), rest)
  let hasCount := !low.isEmpty || (cs.head? == some ',')
  let behind := match extended, rest with
    | true, '}' :: more => some more
    | false, '\\' :: '}' :: more => some more
    | _, _ => none
  match hasCount, behind with
  | true, some more => some (value low, high, more)
  | _, _ => none

/-- A number of counts in braces do not end, behind the opening brace. -/
def isUnclosed (extended : Bool) : Nat → List Char → Bool
  | _, [] => true
  | 0, _ => false
  | n + 1, ',' :: rest => isUnclosed extended n rest
  | n + 1, '\\' :: c :: rest => (extended || c != '}') && isUnclosed extended (n + 1) rest
  | n + 1, c :: rest => !(extended && c == '}') && isUnclosed extended (n + 1) rest

/-- The kind of an expression: extended or basic, and whether signs that mean nothing where they
stand are characters. -/
structure Kind where
  extended : Bool := false
  loose : Bool := false

/-- What is left of the text of an expression, and how many groups have begun. -/
structure Progress where
  rest : List Char
  groups : Nat := 0
  /-- The groups that have ended. -/
  closed : List Nat := []

/-- What reads an expression, or says what is wrong with it. -/
abbrev Reading := StateT Progress (Except String)

/-- Repeat an expression as the signs behind it tell. The number bounds how many there are. -/
def repeated (kind : Kind) : Nat → Expression → Reading Expression
  | 0, e => return e
  | n + 1, e => do
    let s ← get
    let onward (e : Expression) (rest : List Char) : Reading Expression := do
      set { s with rest }
      repeated kind n e
    match sign kind.extended s.rest with
    | some (.star, rest) => onward (.many e 0 none) rest
    | some (.plus, rest) => onward (.many e 1 none) rest
    | some (.question, rest) => onward (.many e 0 (some 1)) rest
    | some (.brace, rest) =>
      match counts? kind.extended rest with
      | some (low, high, rest) =>
        if high.any (· < low) then throw "Invalid content of \\\x7b\\\x7d"
        if 32767 < max low (high.getD 0) then throw "Regular expression too big"
        onward (.many e low high) rest
      | none =>
        if kind.extended && kind.loose then return e
        else if isUnclosed kind.extended 2 rest then throw "Unmatched \\\x7b"
        else throw "Invalid content of \\\x7b\\\x7d"
    | _ => return e

/-- The sign ends a branch. -/
def endsBranch (inGroup : Bool) : Option (Sign × List Char) → Bool
  | none | some (.bar, _) => true
  | some (.closed, _) => inGroup
  | _ => false

mutual

/-- Read branches with bars between them. The number bounds how long they are. -/
def branches (kind : Kind) (inGroup : Bool) : Nat → Reading Expression
  | 0 => throw "Regular expression too big"
  | n + 1 => do
    let first ← branch kind inGroup n true .empty
    let s ← get
    match sign kind.extended s.rest with
    | some (.bar, rest) =>
      set { s with rest }
      return .either first (← branches kind inGroup n)
    | _ => return first

/-- Read a branch behind its beginning. -/
def branch (kind : Kind) (inGroup : Bool) : Nat → Bool → Expression → Reading Expression
  | 0, _, _ => throw "Regular expression too big"
  | n + 1, isFirst, before => do
    let s ← get
    let found := sign kind.extended s.rest
    if endsBranch inGroup found then return before
    match found with
    | none => return before
    | some (next, rest) =>
      set { s with rest }
      let (e, repeats) ← atom kind n isFirst s.rest next
      let e ← if repeats then repeated kind n e else pure e
      branch kind inGroup n (isFirst && !repeats) (.sequence before e)

/-- Read what a sign begins, and tell whether it may be repeated. -/
def atom (kind : Kind) : Nat → Bool → List Char → Sign → Reading (Expression × Bool)
  | 0, _, _, _ => throw "Regular expression too big"
  | n + 1, isFirst, whole, next => do
    let s ← get
    let literal : Expression := .one (.only (whole.head?.getD ' '))
    match next with
    | .char c => return (.one (.only c), true)
    | .set set => return (.one set, true)
    | .dot => return (.one .all, true)
    | .anchor a => return (.anchor a, true)
    | .caret =>
      if kind.extended || isFirst then return (.anchor .lineStart, false) else return (literal, true)
    | .dollar =>
      if kind.extended || endsBranch true (sign false s.rest) then
        return (.anchor .lineEnd, false)
      else return (literal, true)
    | .star | .plus | .question | .brace =>
      if isFirst && !kind.extended then return (literal, true)
      else if isFirst && kind.loose then return (.empty, true)
      else throw "Invalid preceding regular expression"
    | .bracket =>
      match Charset.bracket? '^' false (s.rest.map fun c => (c, false)) with
      | some (set, rest) =>
        modify fun s => { s with rest := rest.map (·.1) }
        return (.one set, true)
      | none => throw "Unmatched [, [^, [:, [., or [="
    | .back k =>
      if s.closed.contains k then return (.back k, true) else throw "Invalid back reference"
    | .opened =>
      let k := s.groups + 1
      set { s with groups := k }
      let body ← branches kind true n
      let s ← get
      match sign kind.extended s.rest with
      | some (.closed, rest) =>
        set { s with rest, closed := k :: s.closed }
        return (.group k body, true)
      | _ => throw "Unmatched ( or \\("
    | .closed | .bar => return (literal, true)
    | .broken => throw "Trailing backslash"

end

/-- The expression that a text is and how many groups it has, or what is wrong with it. -/
def parse (kind : Kind) (text : List Char) : Except String (Expression × Nat) := do
  let isStrict := !(kind.extended && kind.loose)
  let (e, s) ← (branches kind isStrict (3 * text.length + 4)).run { rest := text }
  if s.rest.isEmpty then .ok (e, s.groups) else .error "Unmatched ) or \\)"

end EmbeddedSolidity.Utility.Regular
