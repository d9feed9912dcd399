import EmbeddedSolidity.Utility.EditScript

/-!
# The stream editor

The commands of a script are carried out on each line of the input in turn, and what they make of
it is written.

* `Edit.sed` : edit files.
-/

namespace EmbeddedSolidity.Utility.Edit

open FileSystem (Fault FileTree)
open Shell EditScript

/-! ## State -/

/-- A line of the input. -/
structure Line where
  text : List Char
  /-- It ends with a line feed. -/
  ends : Bool
  path : String

/-- What is written behind the line at hand. -/
inductive Behind where
  | text (cs : List Char)
  | file (path : String)

/-- The state of the editor. Texts that have been written come last piece first. -/
structure Editor where
  pattern : Line := ⟨[], true, "-"⟩
  hold : Line := ⟨[], true, "-"⟩
  number : Nat := 0
  input : List Line
  behind : List Behind := []
  replaced : Bool := false
  /-- The ranges that have begun, by the numbers of their commands, with the line at which they
  end if that is known. -/
  ranges : List (Nat × Option Nat) := []
  /-- The last expression that was used. -/
  used : Option Regular.Expression := none
  /-- The last expression was to be used again, and there was none. -/
  lacks : Bool := false
  output : List (List Char) := []
  /-- The last line that was written lacks its line feed. -/
  owes : Bool := false
  written : List (String × List (List Char)) := []

/-- How the editor works. -/
structure Manner where
  commands : Array Command
  silent : Bool

/-- What the editor does. -/
abbrev Editing := StateT Editor Action

/-- Write a text. -/
def emit (cs : List Char) : Editing Unit :=
  modify fun s =>
    { s with output := cs :: (if s.owes then ['\n'] :: s.output else s.output), owes := false }

/-- Write a line. -/
def emitLine (line : Line) : Editing Unit := do
  emit (Regular.encode line.text)
  if line.ends then emit ['\n'] else modify fun s => { s with owes := true }

/-- Write a text to a file. -/
def emitTo (path : String) (cs : List Char) : Editing Unit := do
  match path with
  | "/dev/stdout" => emit cs
  | "/dev/stderr" =>
    let _ ← writeBytes 2 (Bytes.write (String.ofList cs))
  | _ =>
    modify fun s => { s with written := assign path (cs :: (s.written.lookup path).getD []) s.written }

/-- Write what stands behind the line at hand. -/
def emitBehind : Editing Unit := do
  let s ← get
  set { s with behind := [] }
  for b in s.behind do
    match b with
    | .text cs => emit cs
    | .file path =>
      if let .ok cs := ← textOf path then
        if !cs.isEmpty then
          emit (if endsWithinLine cs then cs.dropLast ++ cs.drop (cs.length - 1) else cs)

/-- Take the next line of the input; tells whether there was one. -/
def takeLine : Editing (Option Line) := do
  emitBehind
  let s ← get
  match s.input with
  | [] => return none
  | line :: rest =>
    set { s with input := rest, number := s.number + 1, replaced := false }
    return some line

/-! ## Which lines are meant -/

/-- The expression, or the last one used. -/
def expressionOr (e : Option Regular.Expression) : Editing Regular.Expression := do
  match e with
  | some e =>
    modify fun s => { s with used := some e }
    return e
  | none =>
    let s ← get
    set { s with lacks := s.used.isNone }
    return s.used.getD .empty

/-- The line at hand is one that is meant. -/
def meets (a : Address) : Editing Bool := do
  let s ← get
  match a with
  | .line n => return s.number == n
  | .last => return s.input.isEmpty
  | .step first size =>
    if size == 0 then return s.number == first
    return first ≤ s.number && (s.number - first) % size == 0
  | .lineWith e manner =>
    let e ← expressionOr e
    return (Regular.search manner e s.pattern.text).isSome
  | .behind _ | .multiple _ => return false

/-- Where a range that begins at the line at hand ends, if a number tells. -/
def endOf (a : Address) : Editing (Option Nat) := do
  let number := (← get).number
  match a with
  | .line n => return some n
  | .behind n => return some (number + n)
  | .multiple n => return some (if n == 0 then number else (number + n - 1) / n * n)
  | _ => return none

/-- The command of a number is for the line at hand. -/
def selects (index : Nat) (s : Selector) : Editing Bool := do
  match s.first, s.last with
  | none, _ => return !s.negated
  | some first, none => return (← meets first) != s.negated
  | some first, some final => return (← inRange first final) != s.negated
where
  inRange (first final : Address) : Editing Bool := do
    let state ← get
    let isZero := match first with
      | .line 0 => true
      | _ => false
    let close : Editing Unit :=
      modify fun e => { e with ranges := e.ranges.filter (·.1 != index) }
    match state.ranges.lookup index, isZero && state.number == 1 with
    | some (some n), _ =>
      if n ≤ state.number then close
      return state.number ≤ n
    | some none, _ | none, true =>
      if isZero then modify fun e => { e with ranges := assign index none e.ranges }
      if ← meets final then close
      return true
    | none, false =>
      if !(← meets first) then return false
      match ← endOf final with
      | some n =>
        if state.number < n then
          modify fun e => { e with ranges := assign index (some n) e.ranges }
        return true
      | none =>
        modify fun e => { e with ranges := assign index none e.ranges }
        return true

/-! ## Replacing -/

/-- Change the letters of a text, the first one in a way of its own. -/
def changeLetters (all : Case) (once : Option Case) : List Char → List Char
  | [] => []
  | c :: cs => (once.getD all).letter c :: cs.map all.letter

/-- The text that a replacement gives for a match. The cases are for all letters that follow, and
for the next one. -/
def expand (found : Regular.Found) : Case → Option Case → List Part → List Char
  | _, _, [] => []
  | all, once, part :: rest =>
    let put (cs : List Char) : List Char :=
      changeLetters all once cs ++ expand found all (if cs.isEmpty then once else none) rest
    match part with
    | .change form true => expand found all (some form) rest
    | .change form false => expand found form none rest
    | .group n => put (if n == 0 then found.text else (found.groups.lookup n).getD [])
    | .text cs => put cs

/-- Replace matches in what is left of a text; `front` are the characters before it, the last one
first, and `count` is the number of matches before. `adjoins` is set right behind a match. The
first number is more than the length of what is left. -/
def replaceFrom (r : Replacement) (e : Regular.Expression) :
    Nat → Nat → Bool → List Char → List Char → List Char × Bool
  | 0, _, _, _, rest => (rest, false)
  | n + 1, count, adjoins, front, rest =>
    match Regular.searchFrom r.manner e [] front rest with
    | none => (rest, false)
    | some found =>
      let passed := found.text.reverse ++ found.front.reverse ++ front
      let isEmpty := found.text.isEmpty
      let repeats := isEmpty && adjoins && found.front.isEmpty
      let counts := !repeats
      let count := if counts then count + 1 else count
      let isReplaced := counts && (count == r.first || (r.all && r.first ≤ count))
      let text := if isReplaced then expand found .kept none r.parts else found.text
      let (more, changed) :=
        if isReplaced && !r.all then (found.rest, false)
        else if isEmpty then
          match found.rest with
          | [] => ([], false)
          | c :: rest =>
            let (more, changed) := replaceFrom r e n count false (c :: passed) rest
            (c :: more, changed)
        else replaceFrom r e n count true passed found.rest
      (found.front ++ text ++ more, isReplaced || changed)

/-! ## Carrying out commands -/

/-- How the commands for a line came to their end. -/
inductive Outcome where
  /-- The line is written. -/
  | done
  | deleted
  /-- The commands begin again with what is left of the line. -/
  | again
  | quit (prints : Bool) (status : Nat)

/-- What comes behind a command. -/
inductive Onward where
  | next
  | at (index : Nat)
  | stop (outcome : Outcome)

/-- The index behind the end of the block that begins at an index. -/
def blockEnd (commands : Array Command) (start : Nat) : Nat :=
  go (start + 1) 0 (commands.toList.drop (start + 1))
where
  go (index depth : Nat) : List Command → Nat
    | [] => index
    | c :: rest =>
      match c.deed with
      | .opened => go (index + 1) (depth + 1) rest
      | .closed => if depth == 0 then index + 1 else go (index + 1) (depth - 1) rest
      | _ => go (index + 1) depth rest

/-- The index of a label; an empty one is the end. -/
def labelIndex? (commands : Array Command) (name : String) : Option Nat :=
  if name.isEmpty then some commands.size
  else commands.findIdx? fun c => match c.deed with
    | .label n => n == name
    | _ => false

/-- The text up to the first line feed, and what follows it. -/
def firstLine (cs : List Char) : List Char × Option (List Char) :=
  let first := cs.takeWhile (· != '\n')
  (first, if first.length < cs.length then some (cs.drop (first.length + 1)) else none)

/-- A line so that all of its characters can be seen, folded. -/
def visible (cs : List Char) : List Char :=
  let letters := [('\\', '\\'), ('\x07', 'a'), ('\x08', 'b'), ('\x0c', 'f'), ('\n', 'n'), ('\r', 'r'),
    ('\t', 't'), ('\x0b', 'v')]
  let shown (c : Char) : List Char :=
    match letters.lookup c with
    | some letter => ['\\', letter]
    | none =>
      if ' ' ≤ c && c ≤ '~' then [c]
      else
        let digit (n : Nat) : Char := Char.ofNat (48 + c.toNat / n % 8)
        ['\\', digit 64, digit 8, digit 1]
  let folded := cs.foldl (fun (text, width) c =>
    let next := shown c
    if 69 < width + next.length then (text ++ ['\\', '\n'] ++ next, next.length)
    else (text ++ next, width + next.length)) (([] : List Char), 0)
  folded.1 ++ ['$', '\n']

/-- Change the text of the line at hand. -/
def changeText (f : List Char → List Char) : Editing Unit :=
  modify fun s => { s with pattern := { s.pattern with text := f s.pattern.text } }

/-- Carry out a command that is a letter only. -/
def carryOutLetter (m : Manner) (letter : Char) : Editing Onward := do
  let s ← get
  match letter with
  | '=' =>
    emit ((toString s.number).toList ++ ['\n'])
    return .next
  | 'd' => return .stop .deleted
  | 'D' =>
    match (firstLine s.pattern.text).2 with
    | none => return .stop .deleted
    | some rest =>
      changeText fun _ => rest
      return .stop .again
  | 'F' =>
    emit (s.pattern.path.toList ++ ['\n'])
    return .next
  | 'g' =>
    changeText fun _ => s.hold.text
    return .next
  | 'G' =>
    changeText (· ++ '\n' :: s.hold.text)
    return .next
  | 'h' =>
    set { s with hold := { s.pattern with ends := true } }
    return .next
  | 'H' =>
    set { s with hold := { s.hold with text := s.hold.text ++ '\n' :: s.pattern.text } }
    return .next
  | 'x' =>
    set { s with hold := s.pattern, pattern := { s.hold with path := s.pattern.path } }
    return .next
  | 'l' =>
    emit (visible (Regular.encode s.pattern.text))
    return .next
  | 'n' =>
    if s.input.isEmpty then return .stop .done
    if !m.silent then emitLine s.pattern
    match ← takeLine with
    | some line =>
      modify fun s => { s with pattern := line }
      return .next
    | none => return .stop .done
  | 'N' =>
    if s.input.isEmpty then return .stop .done
    match ← takeLine with
    | some line =>
      modify fun after => { after with
        pattern := { line with text := s.pattern.text ++ '\n' :: line.text } }
      return .next
    | none => return .stop .done
  | 'p' =>
    emitLine s.pattern
    return .next
  | 'P' =>
    emit (Regular.encode (firstLine s.pattern.text).1 ++ ['\n'])
    return .next
  | _ =>
    changeText fun _ => []
    return .next

/-- Carry out a command. -/
def carryOut (m : Manner) (index : Nat) (c : Command) : Editing Onward := do
  match c.deed with
  | .opened | .closed | .label _ => return .next
  | .jump name => return .at ((labelIndex? m.commands name).getD m.commands.size)
  | .jumpIfReplaced whether name =>
    let s ← get
    set { s with replaced := false }
    if s.replaced == whether then return .at ((labelIndex? m.commands name).getD m.commands.size)
    return .next
  | .replace r =>
    let s ← get
    let e ← expressionOr r.expression
    let size := s.pattern.text.length + 2
    let (text, changed) := replaceFrom r e size 0 false [] s.pattern.text
    if changed then
      modify fun s => { s with pattern := { s.pattern with text }, replaced := true }
      if r.prints then emitLine { s.pattern with text }
      if let some path := r.target then emitTo path (Regular.encode text ++ ['\n'])
    return .next
  | .exchange pairs =>
    changeText fun cs => cs.map fun c => (pairs.lookup c).getD c
    return .next
  | .append text =>
    modify fun s => { s with behind := s.behind ++ [.text text] }
    return .next
  | .insert text =>
    emit text
    return .next
  | .change text =>
    let isWithin := ((← get).ranges.lookup index).isSome && !c.selector.negated
    if !isWithin then emit text
    return .stop .deleted
  | .appendFile path =>
    modify fun s => { s with behind := s.behind ++ [.file path] }
    return .next
  | .appendLine path =>
    if let .ok cs := ← textOf path then
      if let line :: _ := linesOf cs then
        modify fun s => { s with behind := s.behind ++ [.text (line ++ ['\n'])] }
    return .next
  | .write path onlyFirst =>
    let text := (← get).pattern.text
    let text := if onlyFirst then (firstLine text).1 else text
    emitTo path (Regular.encode text ++ ['\n'])
    return .next
  | .quit prints status => return .stop (.quit prints status)
  | .simple letter => carryOutLetter m letter

/-- Carry out commands from an index on. The number bounds how many there are. -/
def carryOutFrom (m : Manner) : Nat → Nat → Editing Outcome
  | 0, _ => throw Jump.timedOut
  | n + 1, index => do
    match m.commands[index]? with
    | none => return .done
    | some c =>
      let isMeant ← selects index c.selector
      if (← get).lacks then return .quit false 1
      if isMeant then
        let onward ← carryOut m index c
        if (← get).lacks then return .quit false 1
        match onward with
        | .next => carryOutFrom m n (index + 1)
        | .at i => carryOutFrom m n i
        | .stop o => return o
      else
        match c.deed with
        | .opened => carryOutFrom m n (blockEnd m.commands index)
        | _ => carryOutFrom m n (index + 1)

/-- How many commands are carried out for a line. -/
def maxCommands : Nat := 1000000

/-- Edit the lines that are left; gives the status if the editor quits. `begun` is set if there is
a line at hand. The number is more than the number of lines. -/
def editAll (m : Manner) : Nat → Bool → Editing (Option Nat)
  | 0, _ => return none
  | n + 1, begun => do
    if !begun then
      match ← takeLine with
      | none => return none
      | some line => modify fun s => { s with pattern := line }
    let outcome ← carryOutFrom m maxCommands 0
    let print : Editing Unit := do
      if !m.silent then emitLine (← get).pattern
    match outcome with
    | .done =>
      print
      emitBehind
      editAll m n false
    | .deleted =>
      emitBehind
      editAll m n false
    | .again =>
      emitBehind
      editAll m n true
    | .quit prints status =>
      if prints then
        print
        emitBehind
      return some status

/-! ## Files -/

/-- The lines of a file. -/
def linesIn (path : String) (cs : List Char) : List Line :=
  let lines := (linesOf cs).map fun line => Line.mk (Regular.decode line) true path
  if endsWithinLine cs then
    lines.dropLast ++ (lines.getLast?.map fun line => { line with ends := false }).toList
  else lines

/-- The lines of files that can be read, and the status. -/
def readLines (c : Call) : List String → Action (Nat × List (String × List Line))
  | [] => return (0, [])
  | path :: rest => do
    match ← textOf path with
    | .ok cs =>
      let (status, more) ← readLines c rest
      return (status, (path, linesIn path cs) :: more)
    | .error fault =>
      let isDirectory := fault == .isDirectory
      Shell.complain (c.name ++ ": " ++
        (if isDirectory then "read error on " else "can't read ") ++ path ++ ": " ++ fault.words)
      let (_, more) ← readLines c rest
      return (2, more)

/-- Edit lines; gives what is written and the status if the editor quits. -/
def editLines (c : Call) (m : Manner) (lines : List Line) (hold : Line) :
    Action (List Char × Option Nat × Editor) := do
  let start : Editor := { input := lines, hold }
  let (status, s) ← (editAll m (2 * lines.length + maxCommands) false).run start
  if s.lacks then Shell.complain (c.name ++ ": -e expression #1, char 0: no previous regular expression")
  return (s.output.reverse.flatten, status, s)

/-- The files that commands write to. -/
def targetsOf (commands : List Command) : List String :=
  commands.filterMap fun c => match c.deed with
    | .write path _ => some path
    | .replace r => r.target
    | _ => none

/-- Put what commands have written to files there. -/
def putWritten (s : Editor) : Action Unit := do
  for (path, pieces) in s.written do
    let old := (← readFile path).toOption.getD ByteArray.empty
    let bytes := old ++ Bytes.write (String.ofList pieces.reverse.flatten)
    let _ ← change fun t current => t.write current (Machine.path path) bytes

/-- Edit a file in its place, and keep the old one under a name with an ending if there is one. -/
def editInPlace (c : Call) (m : Manner) (ending : Option String) (path : String) : Action Nat := do
  match ← readFile path with
  | .error .isDirectory =>
    Shell.complain (c.name ++ ": couldn't edit " ++ path ++ ": not a regular file")
    return 4
  | .error fault =>
    Shell.complain (c.name ++ ": can't read " ++ path ++ ": " ++ fault.words)
    return 2
  | .ok bytes =>
    let lines := linesIn path (Bytes.read bytes).toList
    let (text, status, s) ← editLines c m lines ⟨[], true, "-"⟩
    let left := s.input.flatMap fun line =>
      Regular.encode line.text ++ (if line.ends then ['\n'] else [])
    let text := if status.isSome then text ++ left else text
    putWritten s
    if let some ending := ending then
      let saved := if ending.toList.contains '*' then
          String.ofList (ending.toList.flatMap fun c => if c == '*' then path.toList else [c])
        else path ++ ending
      let _ ← change fun t current => t.write current (Machine.path saved) bytes
    let written := Bytes.write (String.ofList text)
    let _ ← change fun t current => t.write current (Machine.path path) written
    return status.getD 0

/-- The scripts that options and arguments give, with the words that complaints about them begin
with, and the files. -/
def scriptsOf (c : Call) (chosen : List Chosen) (words : List String) :
    Action (Except String (List (String × List Char) × List String)) := do
  let given := chosen.filter fun o => o.1 == 'e' || o.1 == 'f'
  match given, words with
  | [], [] => return .ok ([], [])
  | [], word :: rest => return .ok ([("-e expression #1, ", word.toList)], rest)
  | given, words => do
    let texts ← given.mapM fun o => do
      let text := o.2.getD ""
      if o.1 == 'e' then return (some 'e', Except.ok text.toList)
      else return (none, (← textOf text).mapError fun fault =>
        c.name ++ ": couldn't open file " ++ text ++ ": " ++ fault.words)
    match texts.findSome? fun t => match t.2 with
        | .error message => some message
        | .ok _ => none with
    | some message => return .error message
    | none =>
      let texts := texts.map fun t => (t.1, t.2.toOption.getD [])
      return .ok (joined 1 texts, words)
where
  /-- Scripts of which one that ends with a backslash goes on in the next one. -/
  joined (n : Nat) : List (Option Char × List Char) → List (String × List Char)
    | [] => []
    | (kind, cs) :: rest =>
      let name := if kind.isSome then "-e expression #" ++ toString n ++ ", " else ""
      match cs.getLast?, joined (n + 1) rest with
      | some '\\', (_, next) :: more => (name, cs ++ '\n' :: next) :: more
      | _, more => (name, cs) :: more

/-- Edit files. -/
def sed (c : Call) : Action Nat :=
  c.read [⟨'n', "quiet", false, false⟩, ⟨'n', "silent", false, false⟩, ⟨'e', "expression", true, false⟩,
      ⟨'f', "file", true, false⟩, ⟨'i', "in-place", false, true⟩, ⟨'E', "regexp-extended", false, false⟩,
      ⟨'r', "", false, false⟩, ⟨'s', "separate", false, false⟩, ⟨'u', "unbuffered", false, false⟩,
      ⟨'z', "null-data", false, false⟩, ⟨'p', "posix", false, false⟩, ⟨'l', "line-length", true, false⟩,
      ⟨'b', "binary", false, false⟩, ⟨'S', "sandbox", false, false⟩,
      ⟨'L', "follow-symlinks", false, false⟩] fun chosen words => do
    match ← scriptsOf c chosen words with
    | .error message =>
      Shell.complain message
      return 1
    | .ok ([], _) =>
      Shell.complain ("Usage: " ++ c.name ++
        " [OPTION]... \x7bscript-only-if-no-other-script\x7d [input-file]...")
      return 1
    | .ok (scripts, paths) =>
      let extended := Chosen.has 'E' chosen || Chosen.has 'r' chosen
      let scripts := scripts.map fun (name, cs) => (name, Regular.decode cs)
      match EditScript.read extended scripts with
      | .error message => c.refuse message
      | .ok commands =>
        let names := commands.filterMap fun command => match command.deed with
          | .jump name | .jumpIfReplaced _ name => some name
          | _ => none
        let isNote := (scripts.head?.map fun s => s.2.take 3 == "#n\n".toList || s.2 == "#n".toList)
        let manner : Manner :=
          { commands := commands.toArray, silent := Chosen.has 'n' chosen || isNote == some true }
        match names.find? fun name => (labelIndex? manner.commands name).isNone with
        | some name => c.refuse ("can't find label for jump to \x60" ++ name ++ "'")
        | none =>
          for path in targetsOf commands do
            if !path.startsWith "/dev/" then
              let _ ← change fun t current => t.write current (Machine.path path) ByteArray.empty
          if Chosen.has 'i' chosen then
            forEach (editInPlace c manner (Chosen.last? 'i' chosen)) paths
          else
            let (status, files) ← readLines c (orInput paths)
            let parts := if Chosen.has 's' chosen then files.map (·.2) else [files.flatMap (·.2)]
            editParts manner status parts
where
  /-- Edit parts of the input one after the other. -/
  editParts (m : Manner) (status : Nat) : List (List Line) → Action Nat
    | [] => return status
    | lines :: rest => do
      let (text, quit, s) ← editLines c m lines ⟨[], true, "-"⟩
      say (String.ofList text)
      putWritten s
      match quit with
      | some status => return status
      | none => editParts m status rest

end EmbeddedSolidity.Utility.Edit
