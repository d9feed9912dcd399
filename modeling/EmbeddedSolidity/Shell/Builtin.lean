import EmbeddedSolidity.Shell.Condition
import EmbeddedSolidity.Shell.Expansion
import EmbeddedSolidity.Shell.Format
import EmbeddedSolidity.Shell.Setting
import EmbeddedSolidity.Shell.Signal
import EmbeddedSolidity.Shell.Token

/-!
# Commands of the shell itself

The commands that a shell carries out itself because they change it, and those that it carries
out itself to be quick.

* `Builtin.all` : these commands by their names;
* `setVariable` : give a variable a value.
-/

namespace EmbeddedSolidity.Shell

open FileSystem (FileTree Place)

/-! ## Variables -/

/-- The complaint about a name that no variable can have. -/
def checkName (name : String) : Action Unit := do
  if !isName name.toList then fail (name ++ ": bad variable name")

/-- A variable must not change if it is fixed. -/
def checkFixed (name : String) : Action Unit := do
  if ((← get).bindings.lookup name).any (·.fixed) then fail (name ++ ": is read only")

/-- Give a variable a value. -/
def setVariable (name value : String) : Action Unit := do
  checkName name
  checkFixed name
  modify fun m =>
    let m := m.withValue name value
    let m := if name == "OPTIND" then { m with optionOffset := 0 } else m
    if name == "PATH" then { m with tracked := [] } else m

/-- Change what is known of a variable besides its value. -/
def markVariable (name : String) (f : Variable → Variable) : Action Unit := do
  checkName name
  modify fun m =>
    m.withVariable name (f ((m.bindings.lookup name).getD {}))

/-- Take the value of a variable away. -/
def unsetVariable (name : String) : Action Unit := do
  checkName name
  checkFixed name
  modify fun m => { m with bindings := m.bindings.filter (·.1 != name) }

/-- The variables as they were before, of those that were saved. -/
def restored (saved : List (String × Option Variable)) (m : Machine) : Machine :=
  saved.foldl (fun m (name, old) =>
    match old with
    | some v => m.withVariable name v
    | none => { m with bindings := m.bindings.filter (·.1 != name) }) m

/-- The name and the value of an assignment, or a name alone. -/
def cutAssignment (word : String) : String × Option String :=
  let name := word.toList.takeWhile (· != '=')
  match word.toList.drop name.length with
  | [] => (word, none)
  | _ :: value => (String.ofList name, some (String.ofList value))

/-- A text in quotes, from which it can be read again. -/
def quotedText (s : String) : String :=
  String.ofList (go (s.length + 1) s.toList)
where
  go : Nat → List Char → List Char
    | 0, _ => []
    | n + 1, cs =>
      let plain := cs.takeWhile (· != '\'')
      let rest := cs.drop plain.length
      let quotes := rest.takeWhile (· == '\'')
      let behind := rest.drop quotes.length
      ('\'' :: plain) ++ '\'' ::
        (if quotes.isEmpty then [] else '"' :: quotes ++ ['"']) ++
        (if behind.isEmpty then [] else go n behind)

/-- Show variables in order, behind a text. -/
def showVariables (front : String) (shown : Variable → Bool) : Action Unit := do
  let found := (← get).bindings.filter fun v => shown v.2
  for (name, v) in found.mergeSort fun a b => decide (a.1 ≤ b.1) do
    let value := (v.value.map fun s => "=" ++ quotedText s).getD ""
    say (front ++ name ++ value ++ "\n")

/-! ## Numbers -/

/-- The count that an argument is. -/
def count (word : String) : Action Nat := do
  match Arithmetic.whole? Arithmetic.decimal? word with
  | some x => if 0 ≤ x && x < (1 <<< 31 : Nat) then return x.toNat else fail (Condition.illegal word)
  | none => fail (Condition.illegal word)

/-- The count that the first argument is, or another one if there is none. -/
def countOr (other : Nat) : List String → Action Nat
  | [] => return other
  | word :: _ => count word

namespace Builtin

/-! ## Where commands go on -/

/-- End the script. -/
def exit (words : List String) : Action Nat := do
  let m ← get
  exitWith (← countOr (m.kept.getD m.status) words)

/-- Leave a function, or a script that is read into another one. -/
def back (words : List String) : Action Nat := do
  finishWith (← countOr (← get).status words)
  throw .back

/-- Leave loops, or go on with their next round. -/
def jump (f : Nat → Jump) (words : List String) : Action Nat := do
  let n ← countOr 1 words
  if n == 0 then fail (Condition.illegal (words.head?.getD ""))
  let n := min n (← get).loops
  if n == 0 then return 0
  finishWith 0
  throw (f n)

/-- Leave arguments out at the front. -/
def shift (words : List String) : Action Nat := do
  let n ← countOr 1 words
  if (← get).arguments.length < n then fail "can't shift that many"
  modify fun m => { m with arguments := m.arguments.drop n, optionOffset := 0 }
  return 0

/-! ## Settings and variables -/

/-- Change the settings and the arguments, or show all variables. -/
def change (words : List String) : Action Nat := do
  if words.isEmpty then showVariables "" fun v => v.value.isSome
  else
    let (_, ends, rest) ← Setting.read false (words.length + 1) words
    if ends || !rest.isEmpty then
      modify fun m => { m with arguments := rest, optionOffset := 0 }
  return 0

/-- Mark variables, which may get values at the same time, or show those that are marked. -/
def mark (name : String) (shown : Variable → Bool) (f : Variable → Variable)
    (words : List String) : Action Nat := do
  let (options, words) ← Setting.options [('p', false)] words
  if !options.isEmpty || words.isEmpty then showVariables (name ++ " ") shown
  else
    for word in words do
      let (name, value) := cutAssignment word
      if let some value := value then setVariable name value
      markVariable name f
  return 0

/-- Take variables or functions away. -/
def unset (words : List String) : Action Nat := do
  let (options, words) ← Setting.options [('v', false), ('f', false)] words
  for word in words do
    if (options.getLast?.map (·.1)) == some 'f' then
      modify fun m => { m with functions := m.functions.filter (·.1 != word) }
    else unsetVariable word
  return 0

/-- Let a function have variables of its own. -/
def ownVariables (words : List String) : Action Nat := do
  for word in words do
    let (name, value) := cutAssignment word
    let m ← get
    match m.locals with
    | none => fail "not in a function"
    | some saved =>
      if (saved.lookup name).isNone then
        set { m with locals := some ((name, m.bindings.lookup name) :: saved) }
    match value with
    | some value => setVariable name value
    | none => checkName name
  if (← get).locals.isNone then fail "not in a function"
  return 0

/-- What the next option is among arguments: what is left of them, and the text of the option from
its letter on; `none` if there is no option any more. -/
def nextOption (offset index : Nat) (words : List String) :
    Nat × Option (List Char) :=
  let rest :=
    if index ≤ 1 || offset == 0 then []
    else ((words[index - 2]?).getD "").toList.drop offset
  if !rest.isEmpty then (index, some rest)
  else
    match (words[index - 1]?).map String.toList with
    | some ['-', '-'] => (index + 1, none)
    | some ('-' :: c :: cs) => (index + 1, some (c :: cs))
    | _ => (index, none)

/-- The option letters, each with whether it takes a text. -/
def optionTable : List Char → List (Char × Bool)
  | [] => []
  | c :: ':' :: rest => (c, true) :: optionTable rest
  | c :: rest => (c, false) :: optionTable rest

/-- Give variables the next option among arguments. -/
def getopts (words : List String) : Action Nat := do
  match words with
  | letters :: target :: words =>
    let m ← get
    let words := if words.isEmpty then m.arguments else words
    let silent := letters.toList.head? == some ':'
    let table := optionTable letters.toList
    let index := max 1 ((Signal.decimal? ((m.valueOf? "OPTIND").getD "1")).getD 1)
    let (index, offset) :=
      if words.length + 1 < index then (1, 0) else (index, m.optionOffset)
    let (index, found) := nextOption offset index words
    let finish (letter : String) (index : Nat) (left : List Char) : Action Unit := do
      setVariable "OPTIND" (toString index)
      let length := ((words[index - 2]?).getD "").length
      let offset := if left.isEmpty then 0 else length - left.length
      checkName target
      setVariable target letter
      modify fun m => { m with optionOffset := offset }
    let refuse (c : Char) (letter message : String) (index : Nat) (left : List Char) :
        Action Unit := do
      if silent then setVariable "OPTARG" (String.singleton c)
      else
        complain message
        unsetVariable "OPTARG"
      finish (if silent then letter else "?") index left
    match found with
    | none =>
      finish "?" index []
      return 1
    | some [] => return 1
    | some (c :: left) =>
      match table.lookup c with
      | none =>
        refuse c "?" ("Illegal option -" ++ String.singleton c) index left
      | some false =>
        setVariable "OPTARG" ""
        finish (String.singleton c) index left
      | some true =>
        match left, words[index - 1]? with
        | [], none =>
          refuse c ":" ("No arg for -" ++ String.singleton c ++ " option") index []
        | [], some text =>
          setVariable "OPTARG" text
          finish (String.singleton c) (index + 1) []
        | _, _ =>
          setVariable "OPTARG" (String.ofList left)
          finish (String.singleton c) index []
      return 0
  | _ => fail "Usage: getopts optstring var [arg...]"

/-! ## Reading -/

/-- The characters of a line, each with whether it is quoted by a backslash, and whether the line
has an end; gives how many bytes it takes. A line end behind a backslash is left out. -/
def lineOf (raw : Bool) : Marked → Nat → List Char → Marked × Nat × Bool
  | found, n, [] => (found.reverse, n, false)
  | found, n, '\n' :: _ => (found.reverse, n + 1, true)
  | found, n, '\\' :: c :: rest =>
    if raw then lineOf raw (('\\', false) :: found) (n + 1) (c :: rest)
    else if c == '\n' then lineOf raw found (n + 2) rest
    else lineOf raw ((c, true) :: found) (n + 2) rest
  | found, n, c :: rest => lineOf raw (if c == '\x00' then found else (c, false) :: found) (n + 1) rest

/-- The first field of a text, and what follows it with the separators between. -/
def firstField (separators : List Char) (cs : Marked) : Marked × Marked :=
  let isSeparator (c : Char × Bool) : Bool := !c.2 && separators.contains c.1
  let isBlank (c : Char × Bool) : Bool := isSeparator c && Mark.isBlank c.1
  let field := cs.takeWhile (!isSeparator ·)
  let rest := (cs.drop field.length).dropWhile isBlank
  match rest with
  | c :: more => (field, if isSeparator c then more.dropWhile isBlank else rest)
  | [] => (field, [])

/-- Share a line out to variables; the last one gets what is left. -/
def shareOut (separators : List Char) : List String → Marked → List (String × String)
  | [], _ => []
  | [name], cs =>
    let isBlank (c : Char × Bool) : Bool :=
      !c.2 && separators.contains c.1 && Mark.isBlank c.1
    let (field, rest) := firstField separators cs
    let value := if rest.isEmpty then field else (cs.reverse.dropWhile isBlank).reverse
    [(name, Marked.text value)]
  | name :: names, cs =>
    let (field, rest) := firstField separators cs
    (name, Marked.text field) :: shareOut separators names rest

/-- Read a line of the input into variables. -/
def readLine (words : List String) : Action Nat := do
  let (options, names) ← Setting.options [('p', true), ('r', false)] words
  if names.isEmpty then fail "arg count"
  let m ← get
  match m.openFile? 0 with
  | none => return 1
  | some (number, file) =>
    let raw := options.any (·.1 == 'r')
    let (line, taken, ended) := lineOf raw [] 0 (Bytes.read (m.unread file)).toList
    set (m.afterReading number file taken)
    let separators := m.separators
    let front := line.dropWhile fun c => !c.2 && separators.contains c.1 && Mark.isBlank c.1
    for (name, value) in shareOut separators names front do
      setVariable name value
    return if ended then 0 else 1

/-! ## Directories -/

/-- The names of a path without dots, and without those that two dots lead out of; the last one
first. -/
def plainNames (found : List String) : List String → List String
  | [] => found
  | name :: rest =>
    if name == "." then plainNames found rest
    else if name == ".." then plainNames (found.drop 1) rest
    else plainNames (name :: found) rest

/-- A path from a directory without dots. -/
def plainPath (directory path : String) : String :=
  let whole := if path.toList.head? == some '/' then path else directory ++ "/" ++ path
  "/" ++ "/".intercalate (plainNames [] (Path.parts whole)).reverse

/-- The path of a directory that is looked for by its name, and whether it is to be shown. -/
def findDirectory (m : Machine) (target : String) : String × Bool :=
  let isAlone := match Path.parts target with
    | first :: _ => first == "." || first == ".." || target.toList.head? == some '/'
    | [] => true
  let isDirectory (path : String) : Bool :=
    match m.tree.entryAt m.current true (Machine.path path) with
    | .ok (_, .directory) => true
    | _ => false
  let places := ((m.valueOf? "CDPATH").map fun s => (Text.cut ':' s.toList).map String.ofList).getD []
  let paths := places.map fun place =>
    (if place.isEmpty then target else place ++ "/" ++ target, !place.isEmpty)
  if isAlone then (target, false)
  else (paths.find? fun p => isDirectory p.1).getD (target, false)

/-- Go to another directory. -/
def changeDirectory (words : List String) : Action Nat := do
  let (options, words) ← Setting.options [('L', false), ('P', false)] words
  let m ← get
  let physical := (options.getLast?.map (·.1)) == some 'P'
  let target? := match words with
    | [] => m.valueOf? "HOME"
    | "-" :: _ => some ((m.valueOf? "OLDPWD").getD m.directory)
    | word :: _ => some word
  match target? with
  | none => return 0
  | some target =>
    let (found, shows) := findDirectory m target
    let path := if target.isEmpty then m.directory
      else if physical then found
      else plainPath m.directory found
    match m.tree.entryAt m.current true (Machine.path path) with
    | .ok (place, .directory) =>
      let directory := if physical then Bytes.ofText (FileTree.textOf place) else path
      set { m with current := place, directory }
      setVariable "OLDPWD" m.directory
      setVariable "PWD" directory
      markVariable "OLDPWD" fun v => { v with exported := true }
      markVariable "PWD" fun v => { v with exported := true }
      if shows || words.head? == some "-" then say (directory ++ "\n")
      return 0
    | _ => fail ("can't cd to " ++ target)

/-- Write the path of the current directory. -/
def printDirectory (words : List String) : Action Nat := do
  let (options, _) ← Setting.options [('L', false), ('P', false)] words
  let m ← get
  say ((if (options.getLast?.map (·.1)) == some 'P' then Bytes.ofText (FileTree.textOf m.current)
    else m.directory) ++ "\n")
  return 0

/-! ## Processes -/

/-- Send a signal to a process; tells whether there is such a process. -/
def send (signal process : Nat) : Action Bool := do
  let m ← get
  if process != m.process then return m.background.any (·.1 == process)
  match (if m.isMain then m.traps else m.shellTraps).lookup (Signal.name signal) with
  | some "" => return true
  | some _ =>
    if signal == 9 then throw (.killed signal process)
    modify fun m =>
      if m.isMain then { m with signals := m.signals ++ [signal] }
      else { m with raised := m.raised ++ [signal] }
    return true
  | none => if Signal.isHarmless signal then return true else throw (.killed signal process)

/-- How `kill` is to be used. -/
def killUsage : String :=
  "Usage: kill [-s sigspec | -signum | -sigspec] [pid | job]... or\nkill -l [exitstatus]"

/-- Write the names of signals, or the name of one. -/
def listSignals : List String → Action Nat
  | [] => do
    say "0\n"
    for n in (List.range 65).drop 1 do
      say (Signal.name n ++ "\n")
    return 0
  | word :: _ => do
    let n ← count word
    let n := if 128 < n then n - 128 else n
    if 0 < n && n < 65 then
      say (Signal.name n ++ "\n")
      return 0
    else fail ("invalid signal number or exit status: " ++ word)

/-- Send signals to processes. -/
def sendAll (signal : Nat) : List String → Action Nat
  | [] => return 0
  | word :: rest => do
    let cs := word.toList
    if cs.head? == some '%' then fail ("No such job: " ++ word)
    let process ← count (if cs.head? == some '-' then String.ofList (cs.drop 1) else word)
    let status ←
      if ← send signal process then pure 0
      else do
        complainHere "No such process\n"
        pure 1
    return max status (← sendAll signal rest)

/-- Send a signal to processes. -/
def kill (words : List String) : Action Nat := do
  let direct := match words with
    | word :: _ =>
      match word.toList with
      | '-' :: cs => Signal.number? 0 (String.ofList cs)
      | _ => none
    | [] => none
  match direct with
  | some signal =>
    if (words.drop 1).isEmpty then fail killUsage
    sendAll signal (words.drop 1)
  | none =>
    let (options, rest) ← Setting.options [('l', false), ('s', true)] words
    if words.isEmpty then fail killUsage
    if options.any (·.1 == 'l') then listSignals rest
    else
      match options.getLast? with
      | some (_, name) =>
        match Signal.number? 0 name with
        | some signal =>
          if rest.isEmpty then fail killUsage
          sendAll signal rest
        | none => fail ("invalid signal number or name: " ++ name)
      | none => sendAll 15 rest

/-- Set what is to be done at signals and at the end, or show it. -/
def trap (words : List String) : Action Nat := do
  let (_, words) ← Setting.options [] words
  match words with
  | [] =>
    let m ← get
    for name in Signal.names do
      if let some action := m.traps.lookup name then
        say ("trap -- " ++ quotedText action ++ " " ++ name ++ "\n")
    return 0
  | first :: rest =>
    let resets := rest.isEmpty || (Signal.decimal? first).any (· < 65)
    let action := if resets || first == "-" then none else some first
    setAll action (if resets then words else rest)
where
  setAll (action : Option String) : List String → Action Nat
    | [] => return 0
    | word :: rest => do
      match Signal.number? 0 word with
      | none =>
        complain ("trap: " ++ word ++ ": bad trap")
        return 1
      | some n =>
        let name := Signal.name n
        modify fun m =>
          let others := m.traps.filter (·.1 != name)
          { m with traps := match action with
            | some a => (name, a) :: others
            | none => others }
        setAll action rest

/-- Wait for processes in the background, which have all come to an end. -/
def wait (words : List String) : Action Nat := do
  let (_, words) ← Setting.options [] words
  let m ← get
  match words.getLast? with
  | none => return 0
  | some word =>
    match Signal.decimal? word with
    | some n => return (m.background.lookup n).getD 127
    | none => return 2

/-- The letters of permissions as bits. -/
def permission (old : Nat) : Char → Nat
  | 'r' => 4
  | 'w' => 2
  | 'x' => 1
  | 'X' => if old % 512 / 64 % 2 + old / 8 % 2 + old % 2 == 0 then 0 else 1
  | _ => 0

/-- The permissions behind a change that is described by letters; `none` if it is not. The number
is at least the length of the text. -/
def changedModes : Nat → Nat → List Char → Option Nat
  | 0, _, _ => none
  | n + 1, old, cs =>
    let who := cs.takeWhile fun c => "ugoa".toList.contains c
    match cs.drop who.length with
    | sign :: rest =>
      if !"+-=".toList.contains sign then none
      else
        let letters := rest.takeWhile fun c => "rwxXstugo".toList.contains c
        let copied (c : Char) : Nat :=
          if c == 'u' then old / 64 % 8 else if c == 'g' then old / 8 % 8
          else if c == 'o' then old % 8 else permission old c
        let bits := letters.foldl (fun n c => n ||| copied c) 0
        let isFor (c : Char) : Bool := who.isEmpty || who.contains c || who.contains 'a'
        let part (c : Char) (shift : Nat) : Nat :=
          let before := old / shift % 8
          let after := if !isFor c then before
            else if sign == '+' then before ||| bits
            else if sign == '-' then before - (before &&& bits)
            else bits
          after * shift
        let next := part 'u' 64 + part 'g' 8 + part 'o' 1
        match rest.drop letters.length with
        | [] => some next
        | ',' :: more => changedModes n next more
        | more => changedModes n next (who ++ more)
    | [] => none

/-- Show or set the permissions that new files are not given. -/
def umask (words : List String) : Action Nat := do
  let (options, words) ← Setting.options [('S', false)] words
  let m ← get
  match words with
  | [] =>
    if options.isEmpty then
      let digits := Nat.toDigits 8 m.mask
      say (String.ofList (List.replicate (4 - digits.length) '0' ++ digits) ++ "\n")
    else
      let part (name : String) (shift : Nat) : String :=
        let kept := 7 - (m.mask / shift) % 8
        let letter (bit : Nat) (c : Char) : List Char := if kept / bit % 2 == 1 then [c] else []
        name ++ "=" ++ String.ofList (letter 4 'r' ++ letter 2 'w' ++ letter 1 'x')
      say (",".intercalate [part "u" 64, part "g" 8, part "o" 1] ++ "\n")
    return 0
  | word :: _ =>
    let cs : List Char := word.toList
    if cs.head?.any Char.isDigit then
      if !cs.all Format.isOctal then fail (Condition.illegal word)
      let digits := cs.map fun (c : Char) => c.toNat - 48
      set { m with mask := Arithmetic.ofDigits 8 digits % 512 }
    else
      match changedModes (cs.length + 1) (511 - m.mask) cs with
      | some modes => set { m with mask := 511 - modes }
      | none => fail ("Illegal mode: " ++ word)
    return 0

/-! ## Texts -/

/-- Write the arguments as a format tells. -/
def printf (words : List String) : Action Nat := do
  let (_, words) ← Setting.options [] words
  match words with
  | [] => fail "usage: printf format [arg ...]"
  | format :: words =>
    let filled := Format.fill format words
    for (argument, extent) in filled.complaints.reverse do
      complainHere (argument ++ match extent with
        | .nothing => ": expected numeric value"
        | .beyond => ": Numerical result out of range"
        | _ => ": not completely converted")
    say (String.ofList filled.written.reverse)
    if let some fault := filled.fault then fail fault
    return if filled.complaints.isEmpty then 0 else 1

/-- Decide a condition. -/
def test (words : List String) : Action Nat := do
  let m ← get
  match Condition.holds m.tree m.current words with
  | .ok true => return 0
  | .ok false => return 1
  | .error message => fail message

/-- Decide a condition in brackets. -/
def bracket (words : List String) : Action Nat := do
  if words.getLast? == some "]" then test words.dropLast else fail "missing ]"

/-! ## What commands are -/

/-- The commands that are looked for before functions. -/
def special : List String :=
  [".", ":", "break", "continue", "eval", "exec", "exit", "export", "readonly", "return", "set",
    "shift", "times", "trap", "unset", "local"]

/-- The other commands of the shell itself. -/
def regular : List String :=
  ["alias", "bg", "cd", "chdir", "command", "echo", "false", "fg", "getopts", "hash", "jobs",
    "kill", "printf", "pwd", "read", "test", "[", "true", "type", "ulimit", "umask", "unalias",
    "wait"]

/-- What a command is, as a sentence, or as a word to call it by; tells whether it is any. -/
def describe (sentence : Bool) (name : String) : Action Bool := do
  let m ← get
  let tell (what : String) : Action Bool := do
    say (if sentence then name ++ " is " ++ what ++ "\n" else name ++ "\n")
    return true
  if Token.reservedWords.contains name then tell "a shell keyword"
  else if let some text := m.aliases.lookup name then
    say (if sentence then name ++ " is an alias for " ++ text ++ "\n"
      else "alias " ++ name ++ "=" ++ quotedText text ++ "\n")
    return true
  else if special.contains name then tell "a special shell builtin"
  else if (m.functions.lookup name).isSome then tell "a shell function"
  else if regular.contains name then tell "a shell builtin"
  else
    let found := if name.toList.contains '/' then
        (if m.tree.isExecutable m.current (Machine.path name) then some name else none)
      else m.locate name
    match found with
    | some path =>
      let isTracked := m.tracked.contains name
      say (if !sentence then path ++ "\n"
        else name ++ (if isTracked then " is a tracked alias for " else " is ") ++ path ++ "\n")
      if !isTracked && !name.toList.contains '/' then
        set { (← get) with tracked := name :: m.tracked }
      return true
    | none =>
      if sentence then say (name ++ ": not found\n")
      return false

/-- The places of programs that have been looked for are shown in the order of a number that a
name has. -/
def trackedOrder (name : String) : Nat :=
  let codes := name.toList.map Char.toNat
  (codes.headD 0 * 16 + codes.foldl (· + ·) 0) % 32768 % 31

/-- Look for programs, and show where those are that have been found. -/
def rememberAll (words : List String) : Action Nat := do
  let (options, words) ← Setting.options [('r', false)] words
  if !options.isEmpty then
    modify fun m => { m with tracked := [] }
    return 0
  let m ← get
  if words.isEmpty then
    for i in List.range 31 do
      for name in m.tracked.reverse do
        if trackedOrder name == i then
          if let some path := m.locate name then say (path ++ "\n")
    return 0
  words.foldlM (fun status name => do
    let m ← get
    let isOwn := special.contains name || regular.contains name ||
      (m.functions.lookup name).isSome || name.toList.contains '/'
    if isOwn then return status
    match m.locate name with
    | some _ =>
      set { m with tracked := if m.tracked.contains name then m.tracked else name :: m.tracked }
      return status
    | none =>
      complainHere (name ++ ": not found")
      return 1) 0

/-- What commands are. -/
def describeAll (sentence : Bool) : List String → Action Nat
  | [] => return 0
  | name :: rest => do
    let isKnown ← describe sentence name
    let status ← describeAll sentence rest
    return if isKnown then status else 127

/-! ## Aliases -/

/-- Let texts stand for names of commands, or show those that do. -/
def defineAliases (words : List String) : Action Nat := do
  let m ← get
  let shown (name text : String) : String := name ++ "=" ++ quotedText text ++ "\n"
  if words.isEmpty then
    for (name, text) in m.aliases.reverse do
      say (shown name text)
    return 0
  define words
where
  define : List String → Action Nat
    | [] => return 0
    | word :: rest => do
      let (name, value) := cutAssignment word
      let m ← get
      match value, m.aliases.lookup name with
      | some text, _ =>
        set { m with aliases := assign name text m.aliases }
        define rest
      | none, some text =>
        say (name ++ "=" ++ quotedText text ++ "\n")
        define rest
      | none, none =>
        complain ("alias: " ++ word ++ " not found")
        return max 1 (← define rest)

/-- Let nothing stand for names of commands any more. -/
def removeAliases (words : List String) : Action Nat := do
  let (options, words) ← Setting.options [('a', false)] words
  if !options.isEmpty then
    modify fun m => { m with aliases := [] }
    return 0
  remove words
where
  remove : List String → Action Nat
    | [] => return 0
    | word :: rest => do
      let m ← get
      if (m.aliases.lookup word).isSome then
        set { m with aliases := m.aliases.filter (·.1 != word) }
        remove rest
      else
        complain ("unalias: " ++ word ++ " not found")
        return max 1 (← remove rest)

/-! ## All commands -/

/-- The commands that need no others, by their names. -/
def all : List (String × (List String → Action Nat)) :=
  [(":", fun _ => return 0), ("true", fun _ => return 0), ("false", fun _ => return 1),
    ("exit", exit), ("return", back), ("break", jump .leave), ("continue", jump .again),
    ("shift", shift), ("set", change),
    ("export", mark "export" (·.exported) fun v => { v with exported := true }),
    ("readonly", mark "readonly" (·.fixed) fun v => { v with fixed := true }),
    ("unset", unset), ("local", ownVariables), ("getopts", getopts), ("read", readLine),
    ("cd", changeDirectory), ("chdir", changeDirectory), ("pwd", printDirectory), ("kill", kill),
    ("trap", trap), ("wait", wait), ("umask", umask), ("printf", printf), ("test", test),
    ("[", bracket), ("type", describeAll true),
    ("echo", fun words => do
      say (Format.echo words)
      return 0),
    ("times", fun _ => do
      say "0m0.000000s 0m0.000000s\n0m0.000000s 0m0.000000s\n"
      return 0),
    ("ulimit", fun _ => do
      say "unlimited\n"
      return 0),
    ("hash", rememberAll), ("jobs", fun _ => return 0),
    ("bg", fun _ => fail "No current job"), ("fg", fun _ => fail "No current job"),
    ("alias", defineAliases), ("unalias", removeAliases)]

end Builtin

end EmbeddedSolidity.Shell
