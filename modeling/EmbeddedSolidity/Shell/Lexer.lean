import EmbeddedSolidity.Shell.Token

/-!
# Reading words

Scripts are read character by character; a backslash in front of a line end joins two lines. A
word is read in one pass over its characters, in which quotes, braces and parentheses open and
close frames, and is then put together from what the pass has found. Texts of redirections that
stand in the lines below are read at the end of the line.

* `Lexer.token` : the next token.

The numbers among the arguments bound the recursion; the number of characters that are left is
always enough.
-/

namespace EmbeddedSolidity.Shell.Lexer

/-- A text of a redirection that is still to be read: its number, the line that ends it, whether
tabs in front of lines do not count, and whether values in it do not. -/
structure Pending where
  number : Nat
  stop : List Char
  tabs : Bool
  quoted : Bool

/-- What is left of a script, and the number of the line. -/
structure Source where
  rest : List Char
  line : Nat := 1
  /-- The last token is to be read again. -/
  again : Bool := false
  last : Token := .endOfFile
  pending : List Pending := []
  documents : Array Word := #[]
  /-- The texts that stand for names of commands, and the names whose texts are being read, each
  with how much is left behind its text. -/
  aliases : List (String × String) := []
  expanding : List (String × Nat) := []

/-- What is wrong with a script, and in which line. -/
structure Fault where
  line : Nat
  message : String

/-- A reader of scripts. -/
abbrev Reader := StateT Source (Except Fault)

/-- Nothing can be made of the script. -/
def refuse {α : Type} (message : String) : Reader α := fun s =>
  .error ⟨s.line, message⟩

/-- How many line ends a backslash hides at the front, and what follows them. -/
def joined : List Char → Nat × List Char
  | '\\' :: '\n' :: rest =>
    let (n, rest) := joined rest
    (n + 1, rest)
  | cs => (0, cs)

/-- Read over hidden line ends. -/
def join : Reader Unit :=
  modify fun s =>
    let (n, rest) := joined s.rest
    { s with rest, line := s.line + n }

/-- The next character. -/
def peek : Reader (Option Char) := do
  return (← get).rest.head?

/-- Read a character as it is. -/
def readRaw : Reader (Option Char) := do
  let s ← get
  match s.rest with
  | [] => return none
  | c :: rest =>
    set { s with rest, line := if c == '\n' then s.line + 1 else s.line }
    return some c

/-- Leave a character out, without counting lines. -/
def leaveOut : Reader Unit :=
  modify fun s => { s with rest := s.rest.drop 1 }

/-- The next character behind hidden line ends. -/
def look : Reader (Option Char) := do
  join
  peek

/-- Read a character behind hidden line ends. -/
def read : Reader (Option Char) := do
  join
  readRaw

/-- Read a character if it comes next. -/
def accept (c : Char) : Reader Bool := do
  if (← look) == some c then
    let _ ← readRaw
    return true
  return false

/-- Read the characters as long as they pass a test. -/
def readWhile (p : Char → Bool) : Nat → List Char → Reader (List Char)
  | 0, found => return found.reverse
  | n + 1, found => do
    match ← look with
    | some c =>
      if p c then
        let _ ← readRaw
        readWhile p n (c :: found)
      else return found.reverse
    | none => return found.reverse

/-! ## What a pass finds -/

/-- A part of a word as it is found. -/
inductive Item where
  | char (c : Char) (escaped : Bool)
  /-- A quotation mark. -/
  | mark
  /-- A parameter that ends with its name. -/
  | value (name : String)
  /-- A parameter with an operand, which an `endOperand` ends. -/
  | operand (name : String) (use : ParameterUse)
  | endOperand
  | arithmetic
  | endArithmetic
  | substitution (body : Script)

/-- A character behind a text that has been put together. -/
def addChar (c : Char) (quoted : Bool) : Word → Word
  | .text cs q :: rest =>
    if q == quoted && !cs.isEmpty then .text (c :: cs) q :: rest
    else .text [c] quoted :: .text cs q :: rest
  | pieces => .text [c] quoted :: pieces

/-- The word in order, of which the parts and their characters have been found last first. -/
def inOrder (pieces : Word) : Word :=
  pieces.reverse.map fun
    | .text cs q => .text cs.reverse q
    | piece => piece

/-- Put the items of a word together up to the end of an operand; gives what follows. All is
quoted if `outer` is set, or between two marks. -/
def assemble (outer : Bool) : Nat → Bool → Word → List Item → Word × List Item
  | 0, _, pieces, items => (inOrder pieces, items)
  | _ + 1, _, pieces, [] => (inOrder pieces, [])
  | n + 1, inside, pieces, item :: rest =>
    let quoted := outer || inside
    match item with
    | .char c escaped => assemble outer n inside (addChar c (quoted || escaped) pieces) rest
    | .mark =>
      match inside, rest with
      | false, .value "@" :: .mark :: rest =>
        assemble outer n false (.parameter "@" .plain [] true :: pieces) rest
      | _, _ => assemble outer n (!inside) (.text [] true :: pieces) rest
    | .value name => assemble outer n inside (.parameter name .plain [] quoted :: pieces) rest
    | .operand name use =>
      let keeps :=
        match use with
        | .orElse _ | .alternative _ => quoted
        | _ => false
      let (operand, rest) := assemble keeps n false [] rest
      assemble outer n inside (.parameter name use operand quoted :: pieces) rest
    | .arithmetic =>
      let (expression, rest) := assemble false n false [] rest
      assemble outer n inside (.arithmetic expression quoted :: pieces) rest
    | .substitution body => assemble outer n inside (.substitution body quoted :: pieces) rest
    | .endOperand | .endArithmetic => (inOrder pieces, rest)

/-- The word of items. -/
def wordOf (outer : Bool) (items : List Item) : Word :=
  (assemble outer (items.length + 1) false [] items).1

/-! ## Frames -/

/-- In which way characters count. -/
inductive Quoting where
  | none
  | double
  | single
  | arithmetic
deriving DecidableEq

/-- What quotes and braces are open since a frame was opened. -/
structure Frame where
  quoting : Quoting
  /-- Backslashes count as in quotes. -/
  doubled : Bool := false
  braces : Nat := 0
  /-- How many of the braces were opened in quotes. -/
  doubledBraces : Nat := 0
  /-- Quotes are open inside the braces. -/
  inner : Bool := false
  /-- The frame ends with its last brace. -/
  ofBrace : Bool := false
  parentheses : Nat := 0

/-- What a pass over a word has found, the last item first. -/
structure Scan where
  top : Frame
  below : List Frame := []
  items : List Item := []
  quoted : Bool := false

/-- What is read: a word, the line that ends a text, or a text up to such a line. -/
inductive Purpose where
  | word
  | stop
  | document (stop : List Char) (tabs : Bool)
deriving DecidableEq

namespace Scan

/-- The scan with an item more. -/
def add (s : Scan) (item : Item) : Scan :=
  { s with items := item :: s.items }

/-- The scan in the frame below. -/
def pop (s : Scan) : Scan :=
  match s.below with
  | [] => s
  | frame :: below => { s with top := frame, below }

/-- The scan in a new frame. -/
def push (s : Scan) (frame : Frame) : Scan :=
  { s with top := frame, below := s.top :: s.below }

/-- The scan with a quotation mark, which a document does not have. -/
def mark (s : Scan) : Purpose → Scan
  | .document _ _ => s
  | _ => s.add .mark

/-- The scan behind a double quote. -/
def toggled (s : Scan) (purpose : Purpose) : Scan :=
  let s := if s.top.braces == 0 then s
    else { s with top := { s.top with inner := !s.top.inner } }
  s.mark purpose

end Scan

/-! ## Parameters -/

/-- The parameters that are one sign. -/
def isSpecial (c : Char) : Bool :=
  c.isDigit || ['#', '*', '@', '?', '$', '!', '-'].contains c

/-- The character begins a name. -/
def beginsName (c : Char) : Bool :=
  c.isAlpha || c == '_'

/-- What is read of a parameter in braces: the name, and the length if it is asked for. -/
structure Parameter where
  name : List Char
  isLength : Bool := false
  /-- A use may follow the name. -/
  isOpen : Bool := true

/-- Read a name or a number. -/
def readName (first : Char) : Reader (List Char) := do
  let n := (← get).rest.length
  readWhile (if first.isDigit then Char.isDigit else isNameChar) n []

/-- Read the name of a parameter in braces; `none` if it is no name. -/
def parameterName : Reader (Option Parameter) := do
  match ← look with
  | none => return none
  | some '\x7d' => return none
  | some c =>
    if beginsName c || c.isDigit then return some { name := ← readName c }
    leaveOut
    if c == '#' then
      match ← look with
      | some d =>
        if isNameChar d then return some { name := ← readName d, isLength := true, isOpen := false }
        let before ← get
        leaveOut
        if d != '\x7d' && (← look) == some '\x7d' then
          return if isSpecial d then some { name := [d], isLength := true, isOpen := false } else none
        set before
      | none => pure ()
    return if isSpecial c then some { name := [c] } else none

/-- The use that a sign behind the name of a parameter asks for. -/
def signUse? (colon : Bool) : Char → Option ParameterUse
  | '-' => some (.orElse colon)
  | '+' => some (.alternative colon)
  | '?' => some (.orFail colon)
  | '=' => some (.orAssign colon)
  | '\x7d' => some .plain
  | _ => none

/-- Read what a parameter in braces does with its value. A character that asks for no use is read
over. The second result is set where the brace is closed already. -/
def parameterUse : Reader (ParameterUse × Bool) := do
  let sign ← peek
  leaveOut
  match sign with
  | some ':' =>
    let sign ← look
    leaveOut
    return ((sign.bind (signUse? true)).getD .invalid, false)
  | some '#' => return (.without true (← accept '#'), false)
  | some '%' => return (.without false (← accept '%'), false)
  | some c => return ((signUse? false c).getD .invalid, c == '\x7d')
  | none => return (.invalid, false)

/-- Read a parameter in braces behind the opening one. -/
def braces (s : Scan) : Reader Scan := do
  let found ← parameterName
  let (use, isClosed) ←
    match found with
    | none => pure (ParameterUse.invalid, false)
    | some parameter =>
      if parameter.isLength then
        pure (if (← look) == some '\x7d' then .length else .invalid, false)
      else do
        join
        parameterUse
  let name := String.ofList ((found.map (·.name)).getD [])
  if isClosed then return s.add (.value name)
  let isPattern :=
    match use with
    | .without _ _ => true
    | _ => false
  let quoting : Quoting :=
    if isPattern then .none
    else if s.top.quoting == .arithmetic then .double
    else s.top.quoting
  let s :=
    if quoting != s.top.quoting || s.top.inner then
      s.push { quoting, doubled := quoting != .none, ofBrace := true }
    else s
  let top :=
    { s.top with
      braces := s.top.braces + 1
      doubledBraces := s.top.doubledBraces + if s.top.doubled then 1 else 0 }
  return { s with top, items := .operand name use :: s.items }

/-! ## Substitutions -/

/-- The text between backquotes, behind the first one. -/
def backquoted (doubled : Bool) : Nat → List Char → Reader (List Char)
  | 0, found => return found.reverse
  | n + 1, found => do
    match ← read with
    | none => refuse "EOF in backquote substitution"
    | some '\x60' => return found.reverse
    | some '\\' =>
      match ← readRaw with
      | none => refuse "EOF in backquote substitution"
      | some c =>
        let isPlain := ['\\', '\x60', '$'].contains c || (doubled && c == '"')
        backquoted doubled n (if isPlain then c :: found else c :: '\\' :: found)
    | some c => backquoted doubled n (c :: found)

/-- Read a substitution between backquotes behind the first one; `commands` reads the commands in
it. -/
def backquote (commands : Reader Script) (s : Scan) : Reader Scan := do
  let text ← backquoted s.top.doubled ((← get).rest.length + 1) []
  let outer ← get
  set { rest := text, documents := outer.documents : Source }
  let body ← commands
  let documents := (← get).documents
  set { outer with documents, again := false }
  return s.add (.substitution body)

/-- The complaint about the last token, where another one may have been expected. -/
def unexpected {α : Type} (expected : Option Token) : Reader α := do
  let found := (← get).last.text ++ " unexpected"
  let wanted := expected.map fun t => " (expecting " ++ t.text ++ ")"
  refuse (String.ofList ((found ++ wanted.getD "").toList.take 63))

/-- Read a substitution in parentheses behind the opening one. -/
def substitution (commands : Reader Script) (s : Scan) : Reader Scan := do
  let outer ← get
  set { outer with pending := [], again := false }
  let body ← commands
  match (← get).last with
  | .closing => pure ()
  | _ => unexpected (some .closing)
  modify fun inner => { inner with pending := outer.pending, again := false }
  return s.add (.substitution body)

/-- Read what a dollar sign begins, behind it. -/
def dollar (commands : Reader Script) (purpose : Purpose) (s : Scan) : Reader Scan := do
  let next ← look
  match purpose, next with
  | .stop, _ | _, none => return s.add (.char '$' false)
  | _, some '(' =>
    let _ ← readRaw
    if ← accept '(' then
      return (s.push { quoting := .arithmetic, doubled := true }).add .arithmetic
    substitution commands s
  | _, some '\x7b' =>
    let _ ← readRaw
    join
    braces s
  | _, some c =>
    if beginsName c then return s.add (.value (String.ofList (← readName c)))
    if isSpecial c then
      let _ ← readRaw
      return s.add (.value (String.singleton c))
    return s.add (.char '$' false)

/-! ## Words -/

/-- A character that ends a word. -/
def endsWord (c : Char) : Bool :=
  [' ', '\t', ';', '&', '|', '<', '>', '(', ')'].contains c

/-- A character that quotes keep from being special. -/
def isGuarded (c : Char) : Bool :=
  ['!', '*', '?', '[', '=', '~', ':', '/', '-', ']', '\\'].contains c

/-- The line that ends a document comes next; it is read. -/
def atStop (stop : List Char) (tabs : Bool) : Reader Bool := do
  if tabs then modify fun s => { s with rest := s.rest.dropWhile (· == '\t') }
  let s ← get
  if stop.isPrefixOf s.rest then
    match s.rest.drop stop.length with
    | [] =>
      set { s with rest := [], line := s.line + 1 }
      return true
    | '\n' :: rest =>
      set { s with rest, line := s.line + 1 }
      return true
    | _ => return false
  else return false

/-- Read what a backslash does, behind it. -/
def backslash (purpose : Purpose) (s : Scan) : Reader Scan := do
  match ← readRaw with
  | none => return s.add (.char '\\' true)
  | some c =>
    let inDocument :=
      match purpose with
      | .document _ _ => true
      | _ => false
    let isPlain := ['\\', '\x60', '$'].contains c ||
      (c == '"' && !(inDocument && s.top.braces == 0)) || (c == '\x7d' && s.top.braces != 0)
    let s := if s.top.doubled && !isPlain then s.add (.char '\\' true) else s
    return { s.add (.char c true) with quoted := true }

/-- The scan behind a quote that closes. -/
def closeQuote (purpose : Purpose) (c : Char) (s : Scan) : Scan :=
  let inDocument :=
    match purpose with
    | .document _ _ => true
    | _ => false
  if inDocument && s.top.braces == 0 then s.add (.char c false)
  else
    let s := if s.top.doubledBraces == 0 then
        { s with top := { s.top with quoting := .none, doubled := false } }
      else s
    let s := { s with quoted := true }
    if c == '"' then s.toggled purpose else s.mark purpose

/-- The scan behind a closing brace. -/
def closeBrace (purpose : Purpose) (s : Scan) : Scan :=
  if s.top.inner || s.top.braces == 0 then s.add (.char '\x7d' false)
  else
    let top := { s.top with braces := s.top.braces - 1 }
    let s' := { s with top }
    let s' :=
      if top.braces == 0 && top.ofBrace then s'.pop
      else { s' with top := { top with doubledBraces := top.doubledBraces - 1 } }
    if purpose == .stop then s'.add (.char '\x7d' false) else s'.add .endOperand

/-- Read on in a word, up to its end. -/
def scan (commands : Reader Script) (purpose : Purpose) : Nat → Bool → Scan → Reader Scan
  | 0, _, s => return s
  | n + 1, isLineStart, s => do
    if s.top.quoting != .single then join
    if isLineStart then
      if let .document stop tabs := purpose then
        if ← atStop stop tabs then return s
    match ← peek with
    | none => return s
    | some '\n' =>
      if s.top.quoting == .none && s.top.braces == 0 then return s
      let _ ← readRaw
      scan commands purpose n true (s.add (.char '\n' false))
    | some c =>
      match s.top.quoting, c with
      | .none, '\'' =>
        let _ ← readRaw
        scan commands purpose n false
          ({ s with top := { s.top with quoting := .single } }.mark purpose)
      | .none, '"' =>
        let _ ← readRaw
        scan commands purpose n false
          ({ s with top := { s.top with quoting := .double, doubled := true } }.toggled purpose)
      | .single, '\'' | .double, '"' =>
        let _ ← readRaw
        scan commands purpose n false (closeQuote purpose c s)
      | .single, _ =>
        let _ ← readRaw
        scan commands purpose n false (s.add (.char c (isGuarded c)))
      | _, '\\' =>
        let _ ← readRaw
        scan commands purpose n false (← backslash purpose s)
      | _, '$' =>
        let _ ← readRaw
        scan commands purpose n false (← dollar commands purpose s)
      | _, '\x60' =>
        let _ ← readRaw
        if purpose == .stop then scan commands purpose n false (s.add (.char c false))
        else scan commands purpose n false (← backquote commands s)
      | _, '\x7d' =>
        let _ ← readRaw
        scan commands purpose n false (closeBrace purpose s)
      | .arithmetic, '(' =>
        let _ ← readRaw
        let top := { s.top with parentheses := s.top.parentheses + 1 }
        scan commands purpose n false ({ s with top }.add (.char c false))
      | .arithmetic, ')' =>
        let _ ← readRaw
        if s.top.parentheses != 0 then
          let top := { s.top with parentheses := s.top.parentheses - 1 }
          scan commands purpose n false ({ s with top }.add (.char c false))
        else if ← accept ')' then scan commands purpose n false (s.pop.add .endArithmetic)
        else scan commands purpose n false (s.add (.char c false))
      | .none, _ =>
        if endsWord c && s.top.braces == 0 then return s
        let _ ← readRaw
        scan commands purpose n false (s.add (.char c false))
      | _, _ =>
        let _ ← readRaw
        scan commands purpose n false (s.add (.char c (s.top.quoting == .double && isGuarded c)))

/-- Read all that a frame opens, and complain if something is left open. -/
def scanAll (commands : Reader Script) (purpose : Purpose) (quoting : Quoting) : Reader Scan := do
  let n := (← get).rest.length + 2
  let s ← scan commands purpose n true { top := { quoting, doubled := quoting == .double } }
  let inDocument :=
    match purpose with
    | .document _ _ => true
    | _ => false
  if s.top.quoting == .arithmetic then refuse "Missing '))'"
  if s.top.quoting != .none && !inDocument then refuse "Unterminated quoted string"
  if s.top.braces != 0 then refuse "Missing '\x7d'"
  return s

/-- Read the texts of redirections that are still to be read. -/
def readDocuments (commands : Reader Script) : List Pending → Reader Unit
  | [] => return ()
  | p :: rest => do
    let purpose := Purpose.document p.stop p.tabs
    let s ← scanAll commands purpose (if p.quoted then .single else .double)
    let body := wordOf true s.items.reverse
    modify fun s => { s with documents := s.documents.set! p.number body }
    readDocuments commands rest

/-- Read the texts of redirections that the lines below the current one hold. -/
def documents (commands : Reader Script) : Reader Unit := do
  let pending := (← get).pending
  modify fun s => { s with pending := [] }
  readDocuments commands pending

/-- Read the sign of a redirection. -/
def redirectSign (stream : Option Nat) : Reader Token := do
  if ← accept '>' then
    let stream := stream.getD 1
    if ← accept '>' then return .redirect stream .append false
    if ← accept '|' then return .redirect stream .overwrite false
    if ← accept '&' then return .redirect stream .duplicate false
    return .redirect stream .write false
  else
    let _ ← read
    let stream := stream.getD 0
    if ← accept '<' then return .redirect stream .here (← accept '-')
    if ← accept '&' then return .redirect stream .duplicate false
    if ← accept '>' then return .redirect stream .readWrite false
    return .redirect stream .read false

/-- Read a word, or a redirection if that is what comes next. -/
def wordToken (commands : Reader Script) (purpose : Purpose) : Reader Token := do
  let s ← scanAll commands purpose .none
  let isSign := (← peek) == some '<' || (← peek) == some '>'
  match isSign && !s.quoted, s.items with
  | true, [] => redirectSign none
  | true, [.char c false] =>
    if c.isDigit then redirectSign (some (c.toNat - 48))
    else return .word (wordOf false s.items.reverse) s.quoted
  | _, _ => return .word (wordOf false s.items.reverse) s.quoted

/-- Read over blanks and comments. -/
def blanks : Nat → Reader Unit
  | 0 => return ()
  | n + 1 => do
    match ← look with
    | some ' ' | some '\t' =>
      let _ ← readRaw
      blanks n
    | some '#' =>
      modify fun s => { s with rest := s.rest.dropWhile (· != '\n') }
      blanks n
    | _ => return ()

/-- Read a token, whatever the last one was. -/
def freshToken (commands : Reader Script) (purpose : Purpose) : Reader Token := do
  blanks ((← get).rest.length + 1)
  match ← look with
  | none => return .endOfFile
  | some '\n' =>
    let _ ← readRaw
    return .newline
  | some '&' =>
    let _ ← readRaw
    return if ← accept '&' then .both else .ampersand
  | some '|' =>
    let _ ← readRaw
    return if ← accept '|' then .either else .pipe
  | some ';' =>
    let _ ← readRaw
    return if ← accept ';' then .endCase else .semicolon
  | some '(' =>
    let _ ← readRaw
    return .opening
  | some ')' =>
    let _ ← readRaw
    return .closing
  | some _ => wordToken commands purpose

/-- Read a token, or the last one again. -/
def rawToken (commands : Reader Script) (purpose : Purpose) : Reader Token := do
  let s ← get
  if s.again then
    set { s with again := false }
    return s.last
  let t ← freshToken commands purpose
  modify fun s => { s with last := t }
  return t

/-- Read a token behind line ends, with the texts below them. -/
def behindLines (commands : Reader Script) (purpose : Purpose) : Nat → Reader Token
  | 0 => return .endOfFile
  | n + 1 => do
    match ← rawToken commands purpose with
    | .newline =>
      documents commands
      behindLines commands purpose n
    | t => return t

/-- The text that stands for a token, unless it is being read. `before` is how much was left in
front of the token. -/
def aliasOf? (before : Nat) : Token → Reader (Option (String × String))
  | .word [.text cs false] _ => do
    let s ← get
    let name := String.ofList cs
    let isBusy := s.expanding.any fun e => e.1 == name && e.2 < before
    return if isBusy then none else (s.aliases.lookup name).map fun text => (name, text)
  | _ => return none

/-- Read a token: behind line ends if `lines` is set, and as a reserved word, if it is one, with
`reserved`; other texts may stand for words if `named` is set. The number bounds how many do for
one another. -/
def tokenWithin (commands : Reader Script) (purpose : Purpose) (lines reserved named : Bool) :
    Nat → Reader Token
  | 0 => return .endOfFile
  | k + 1 => do
    let before ← get
    let n := before.rest.length + 2
    let t ← if lines then behindLines commands purpose n else rawToken commands purpose
    let t := if reserved then t.reserve else t
    modify fun s => { s with last := t }
    if !named || before.again then return t
    match ← aliasOf? before.rest.length t with
    | none => return t
    | some (name, text) =>
      modify fun s =>
        let busy := s.expanding.filter (·.2 < before.rest.length)
        { s with
          rest := text.toList ++ s.rest
          expanding := (name, s.rest.length) :: busy }
      tokenWithin commands purpose lines reserved named k

/-- Read a token: behind line ends if `lines` is set, and as a reserved word, if it is one, with
`reserved`. -/
def token (commands : Reader Script) (purpose : Purpose) (lines reserved : Bool) :
    Reader Token := do
  tokenWithin commands purpose lines reserved reserved ((← get).aliases.length + 2)

/-- Read a token that may be the name of a command. -/
def nameToken (commands : Reader Script) (purpose : Purpose) : Reader Token := do
  tokenWithin commands purpose false false true ((← get).aliases.length + 2)

end EmbeddedSolidity.Shell.Lexer
