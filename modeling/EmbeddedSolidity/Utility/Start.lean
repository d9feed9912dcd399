import EmbeddedSolidity.Utility.Basic

/-!
# Starting programs

Starting a program with other variables, with arguments from the input, or for some time.
-/

namespace EmbeddedSolidity.Utility.Start

open FileSystem (Fault FileTree)
open Shell

/-- A switch without a text. -/
def plain (letter : Char) (long : String) : Switch :=
  ⟨letter, long, false, false⟩

/-- A switch with a text. -/
def withText (letter : Char) (long : String) : Switch :=
  ⟨letter, long, true, false⟩

/-- Become a program, or complain that it cannot be started. -/
def becoming (c : Call) (name : String) (arguments : List String) : Action Nat := do
  match ← c.become name arguments with
  | .ok status => return status
  | .error fault =>
    c.refuse (Quotation.word name ++ ": " ++ fault.words)
      (if fault == .notFound then 127 else 126)

/-! ## Variables -/

/-- What has been read of a text that holds arguments. -/
structure Splitting where
  /-- The arguments so far, the last one first. -/
  found : List String := []
  /-- The characters of the argument at hand, the last one first. -/
  current : Option (List Char) := none
  /-- The quotation mark that is open. -/
  quote : Option Char := none

/-- Add a character to the argument at hand. -/
def Splitting.add (s : Splitting) (c : Char) : Splitting :=
  { s with current := some (c :: s.current.getD []) }

/-- End the argument at hand. -/
def Splitting.finish (s : Splitting) : Splitting :=
  match s.current with
  | some cs => { s with found := String.ofList cs.reverse :: s.found, current := none }
  | none => s

/-- The arguments that a text holds, or what is wrong with it. The number is at least its
length. -/
def splitFrom (valueOf : String → String) :
    Nat → Splitting → List Char → Except String (List String)
  | 0, s, _ | _, s, [] =>
    if s.quote.isSome then .error "no terminating quote in -S string"
    else .ok s.finish.found.reverse
  | n + 1, s, c :: rest =>
    let isBlank := c == ' ' || ('\t' ≤ c && c ≤ '\r')
    match s.quote with
    | some q =>
      if c == q then splitFrom valueOf n { s with quote := none } rest
      else if c == '\\' then escaped n s rest
      else if c == '$' && q == '"' then named n s (c :: rest)
      else splitFrom valueOf n (s.add c) rest
    | none =>
      if c == '\'' || c == '"' then
        splitFrom valueOf n { s with quote := some c, current := some (s.current.getD []) } rest
      else if isBlank then splitFrom valueOf n s.finish rest
      else if c == '#' && s.current.isNone then .ok s.found.reverse
      else if c == '\\' then escaped n s rest
      else if c == '$' then named n s (c :: rest)
      else splitFrom valueOf n (s.add c) rest
where
  /-- Go on behind a backslash. -/
  escaped (n : Nat) (s : Splitting) : List Char → Except String (List String)
    | [] => .error "invalid backslash at end of string in -S"
    | c :: rest =>
      let letters := [('f', '\x0c'), ('n', '\n'), ('r', '\r'), ('t', '\t'), ('v', '\x0b'),
        ('#', '#'), ('$', '$'), ('\\', '\\'), ('"', '"'), ('\'', '\'')]
      if s.quote == some '\'' && c != '\\' && c != '\'' then
        splitFrom valueOf n ((s.add '\\').add c) rest
      else if c == '_' then
        if s.quote.isSome then splitFrom valueOf n (s.add ' ') rest
        else splitFrom valueOf n s.finish rest
      else if c == 'c' then
        if s.quote.isSome then .error "'\\c' must not appear in double-quoted -S string"
        else .ok s.finish.found.reverse
      else
        match letters.lookup c with
        | some d => splitFrom valueOf n (s.add d) rest
        | none => .error ("invalid sequence '\\" ++ String.singleton c ++ "' in -S")
  /-- Go on at the name of a variable. -/
  named (n : Nat) (s : Splitting) (cs : List Char) : Except String (List String) :=
    let wrong : Except String (List String) :=
      .error ("only $\x7bVARNAME\x7d expansion is supported, error at: " ++ String.ofList cs)
    match cs with
    | '$' :: '\x7b' :: rest =>
      let name := rest.takeWhile (· != '}')
      match rest.drop name.length with
      | _ :: more =>
        if Shell.isName name then
          let value := valueOf (String.ofList name)
          let s := { s with current := some (value.toList.reverse ++ s.current.getD []) }
          splitFrom valueOf n s more
        else wrong
      | [] => wrong
    | _ => wrong

/-- The options. -/
def switches : List Switch :=
  [plain 'i' "ignore-environment", withText 'u' "unset", plain '0' "null", withText 'C' "chdir",
    plain 'v' "debug", withText 'S' "split-string"]

/-- Read options, of which some hold further arguments. The number bounds how many do. -/
def readAll (m : Machine) : Nat → List String → Call.Options
  | 0, words => .ok ([], words)
  | n + 1, words =>
    match Call.readOptions switches false words with
    | .error message => .error ("\x00" ++ message)
    | .ok (chosen, rest) =>
      match chosen.findIdx? (·.1 == 'S') with
      | none => .ok (chosen, rest)
      | some i =>
        let text := ((chosen[i]?).bind (·.2)).getD ""
        let before := chosen.take i
        let behind := (chosen.drop (i + 1)).flatMap fun (letter, text) =>
          ("-" ++ String.singleton letter) :: text.toList
        match splitFrom (fun name => (m.valueOf? name).getD "") (text.length + 1) {} text.toList with
        | .error message => .error message
        | .ok more => Call.withOptions before (readAll m n (more ++ behind ++ rest))

/-- The assignments in front of a command, and the command. -/
def assignments : List String → List (String × String) × List String
  | [] => ([], [])
  | word :: rest =>
    let name := word.toList.takeWhile (· != '=')
    if name.length == word.length then ([], word :: rest)
    else
      let (more, command) := assignments rest
      ((String.ofList name, String.ofList (word.toList.drop (name.length + 1))) :: more, command)

/-- Start a program with other variables, or show them. -/
def env (c : Call) : Action Nat := do
  let m ← get
  match readAll m 8 c.arguments with
  | .error message =>
    match message.toList with
    | '\x00' :: rest => c.misused (String.ofList rest) 125
    | _ => c.refuse message 125
  | .ok (chosen, words) =>
    let (isEmpty, words) := match words with
      | "-" :: rest => (true, rest)
      | words => (Chosen.has 'i' chosen, words)
    if isEmpty then modify fun m => { m with bindings := [] }
    for (letter, text) in chosen do
      if letter == 'u' then
        let name := text.getD ""
        modify fun m => { m with bindings := m.bindings.filter (·.1 != name) }
    let (values, command) := assignments words
    for (name, value) in values do
      modify fun m => m.withVariable name { value := some value, exported := true }
    match Chosen.last? 'C' chosen, command with
    | some _, [] => c.misused "must specify command with --chdir (-C)" 125
    | directory, command =>
      if let some path := directory then
        let m ← get
        match m.tree.entryAt m.current true (Machine.path path) with
        | .ok (place, .directory) => set { m with current := place }
        | .ok _ =>
          return ← c.refuse ("cannot change directory to " ++ Quotation.quotedPath path ++ ": " ++
            Fault.notDirectory.words) 125
        | .error fault =>
          return ← c.refuse ("cannot change directory to " ++ Quotation.quotedPath path ++ ": " ++
            fault.words) 125
      match command with
      | [] =>
        let ending := if Chosen.has '0' chosen then "\x00" else "\n"
        for (name, value) in (← get).environment do
          say (name ++ "=" ++ value ++ ending)
        return 0
      | name :: arguments =>
        if Chosen.has '0' chosen then
          return ← c.misused "cannot specify --null (-0) with command" 125
        match ← c.become name arguments with
        | .ok status => return status
        | .error fault =>
          let isMissing := fault == .notFound
          c.complain (Quotation.word name ++ ": " ++ fault.words)
          if isMissing && name.toList.any (fun c => c == ' ' || c == '\t') then
            c.complain "use -[v]S to pass options in shebang lines"
          return if isMissing then 127 else 126

/-- Show the values of variables, or all of them with their names. -/
def printenv (c : Call) : Action Nat :=
  c.read [plain '0' "null"] (fun _ words => do
    let all := (← get).environment
    if words.isEmpty then
      for (name, value) in all do
        say (name ++ "=" ++ value ++ "\n")
      return 0
    forEach (fun name => do
      match all.lookup name with
      | some value =>
        say (value ++ "\n")
        return 0
      | none => return 1) words) 2 false

/-! ## Arguments from the input -/

/-- The arguments in a text, each with the number of its line, or what is wrong with it. The number
is at least the length of the text. -/
def itemsFrom : Nat → Nat → Splitting → List Nat → List Char →
    Except String (List (String × Nat))
  | 0, line, s, lines, _ | _, line, s, lines, [] =>
    match s.quote with
    | some q =>
      .error ("unmatched " ++ (if q == '"' then "double" else "single") ++
        " quote; by default quotes are special to xargs unless you use the -0 option")
    | none =>
      let lines := if s.current.isSome then line :: lines else lines
      .ok (s.finish.found.reverse.zip lines.reverse)
  | n + 1, line, s, lines, c :: rest =>
    match s.quote with
    | some q =>
      if c == q then itemsFrom n line { s with quote := none } lines rest
      else if c == '\n' then
        .error ("unmatched " ++ (if q == '"' then "double" else "single") ++
          " quote; by default quotes are special to xargs unless you use the -0 option")
      else itemsFrom n line (s.add c) lines rest
    | none =>
      if c == '\'' || c == '"' then
        itemsFrom n line { s with quote := some c, current := some (s.current.getD []) } lines rest
      else if c == '\\' then
        match rest with
        | d :: rest => itemsFrom n line (s.add d) lines rest
        | [] => itemsFrom n line s lines []
      else if c == ' ' || c == '\t' || c == '\n' then
        let lines := if s.current.isSome then line :: lines else lines
        itemsFrom n (if c == '\n' then line + 1 else line) s.finish lines rest
      else itemsFrom n line (s.add c) lines rest

/-- Cut a list into parts of a size. The number bounds how many there are. -/
def groups {α : Type} (size : Nat) : Nat → List α → List (List α)
  | 0, _ | _, [] => []
  | n + 1, all => all.take size :: groups size n (all.drop size)

/-- The arguments of each line, of which some number are put together. -/
def byLines (size : Nat) (items : List (String × Nat)) : List (List String) :=
  let lines := (items.map (·.2)).eraseDups
  (groups size lines.length lines).map fun some' =>
    (items.filter fun i => some'.contains i.2).map (·.1)

/-- Run a program with arguments from the input. -/
def xargs (c : Call) : Action Nat :=
  c.read [withText 'n' "max-args", withText 'I' "", ⟨'i', "replace", false, true⟩,
      withText 'L' "max-lines", plain '0' "null", withText 'd' "delimiter",
      plain 'r' "no-run-if-empty", plain 't' "verbose", withText 'P' "max-procs",
      withText 's' "max-chars", withText 'a' "arg-file", plain 'x' "exit", withText 'E' "",
      plain 'p' "interactive"] (fun chosen words => do
    let bad := chosen.find? fun o =>
      ['n', 'L', 'P', 's'].contains o.1 && (o.2.bind countOf?).isNone
    if let some (letter, text) := bad then
      return ← c.misused ("invalid number \"" ++ text.getD "" ++ "\" for -" ++
        String.singleton letter ++ " option")
    let bytes ← match Chosen.last? 'a' chosen with
      | some path => textOf path
      | none => textOf "-"
    let cs := bytes.toOption.getD []
    let cutAt (separator : Char) : List (String × Nat) :=
      let parts := Text.cut separator cs
      let parts := if parts.getLast? == some [] then parts.dropLast else parts
      (parts.map String.ofList).zipIdx
    let replaced := match Chosen.last? 'I' chosen with
      | some text => some text
      | none => if Chosen.has 'i' chosen then some ((Chosen.last? 'i' chosen).getD "\x7b\x7d") else none
    let items : Except String (List (String × Nat)) :=
      if Chosen.has '0' chosen then .ok (cutAt '\x00')
      else
        match Chosen.last? 'd' chosen with
        | some text =>
          let separator := match text.toList with
            | ['\\', 'n'] => '\n'
            | ['\\', 't'] => '\t'
            | ['\\', '0'] => '\x00'
            | c :: _ => c
            | [] => '\n'
          .ok (cutAt separator)
        | none =>
          if replaced.isSome then
            .ok (((linesOf cs).map fun line =>
              String.ofList (line.dropWhile fun c => c == ' ' || c == '\t')).filter (!·.isEmpty)
              |>.zipIdx)
          else itemsFrom (cs.length + 1) 0 {} [] cs
    let command := if words.isEmpty then ["echo"] else words
    let size (letter : Char) : Option Nat := (Chosen.last? letter chosen).bind countOf?
    match items with
    | .error message => c.refuse message
    | .ok items =>
      let texts := items.map (·.1)
      let all : List (List String) :=
        match replaced, size 'n', size 'L' with
        | some mark, _, _ =>
          texts.map fun item => command.map fun word =>
            if mark.isEmpty then word else item.intercalate (word.splitOn mark)
        | none, some n, _ => (groups (max n 1) texts.length texts).map (command ++ ·)
        | none, none, some n => (byLines (max n 1) items).map (command ++ ·)
        | none, none, none => if texts.isEmpty then [] else [command ++ texts]
      let all := if all.isEmpty && !Chosen.has 'r' chosen && replaced.isNone then [command] else all
      runAll (Chosen.has 't' chosen) all) 1 false
where
  /-- Run commands one after the other. -/
  runAll (told : Bool) : List (List String) → Action Nat
    | [] => return 0
    | [] :: rest => runAll told rest
    | (name :: arguments) :: rest => do
      if told then
        Shell.complain (" ".intercalate ((name :: arguments).map Quotation.path))
      match ← c.start name arguments with
      | .error fault =>
        c.refuse (name ++ ": " ++ fault.words) (if fault == .notFound then 127 else 126)
      | .ok status =>
        if status == 255 then
          c.refuse (name ++ ": exited with status 255; aborting") 124
        else
          let more ← runAll told rest
          return if more != 0 then more else if status == 0 then 0 else 123

/-! ## Time -/

/-- The text is a time to wait. -/
def isTime (text : String) : Bool :=
  let cs := text.toList
  let cs := if cs.getLast?.any fun c => "smhd".toList.contains c then cs.dropLast else cs
  let digits := cs.filter (· != '.')
  !digits.isEmpty && digits.all Char.isDigit && cs.length ≤ digits.length + 1

/-- Wait. -/
def sleep (c : Call) : Action Nat :=
  c.read [] fun _ words => do
    if words.isEmpty then return ← c.missing
    match words.filter fun word => !isTime word with
    | [] => return 0
    | bad =>
      for word in bad do
        c.complain ("invalid time interval " ++ Quotation.word word)
      c.refer
      return 1

/-- Run a program that does not take too long. -/
def timeout (c : Call) : Action Nat :=
  c.read [withText 's' "signal", withText 'k' "kill-after", plain 'f' "foreground",
      plain 'p' "preserve-status", plain 'v' "verbose"] (fun _ words => do
    match words with
    | [] | [_] =>
      c.refer
      return 125
    | time :: name :: arguments =>
      if !isTime time then
        return ← c.misused ("invalid time interval " ++ Quotation.word time) 125
      match ← c.start name arguments with
      | .ok status => return status
      | .error fault =>
        c.refuse ("failed to run command " ++ Quotation.word name ++ ": " ++ fault.words)
          (if fault == .notFound then 127 else 126)) 125 false

/-- Run a program that goes on by itself. -/
def nohup (c : Call) : Action Nat :=
  c.read [] (fun _ words => do
    match words with
    | [] => c.misused "missing operand" 125
    | name :: arguments =>
      match ← c.become name arguments with
      | .ok status => return status
      | .error fault =>
        c.refuse ("failed to run command " ++ Quotation.word name ++ ": " ++ fault.words)
          (if fault == .notFound then 127 else 126)) 125 false

/-- Run a program that makes way for others. -/
def nice (c : Call) : Action Nat :=
  c.read [withText 'n' "adjustment"] (fun _ words => do
    match words with
    | [] =>
      say "0\n"
      return 0
    | name :: arguments => becoming c name arguments) 125 false

end EmbeddedSolidity.Utility.Start
