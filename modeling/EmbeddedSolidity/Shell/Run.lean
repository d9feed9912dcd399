import EmbeddedSolidity.Shell.Parser
import EmbeddedSolidity.Shell.Words
import EmbeddedSolidity.Utility.All

/-!
# Running commands

Commands change the machine of a shell and leave a status. Each function here takes a runner for
what is nested in what it runs; `run` ties the knot, bounded in depth.

* `perform` : run a command;
* `evaluate` : run the commands of a text;
* `run` : run a task.
-/

namespace EmbeddedSolidity.Shell

open FileSystem (Fault FileTree Place)

/-- How often a loop may go round. -/
def maxRounds : Nat := 10000000

/-- How many functions may call one another. -/
def maxCalls : Nat := 1000

/-! ## Texts of commands -/

/-- The commands of a source, one after the other. `hasRun` is set if there have been some. The
number bounds how many there are. -/
def evaluateAll (run : Runner) (tested : Bool) : Nat → Bool → Lexer.Source → Action Unit
  | 0, _, _ => return ()
  | n + 1, hasRun, source => do
    let m ← get
    match Script.next { source with documents := m.documents, aliases := m.aliases } with
    | .error fault =>
      set { m with line := fault.line }
      fail ("Syntax error: " ++ fault.message)
    | .ok (script, source') =>
      set { m with documents := source'.documents, readLine := source'.line }
      if m.settings.contains 'v' then
        let read := source.rest.take (source.rest.length - source'.rest.length)
        let _ ← writeBytes 2 (Bytes.write (String.ofList read))
      match script with
      | none => if !hasRun then finishWith 0
      | some (.sequence []) => evaluateAll run tested n hasRun source'
      | some script =>
        if !m.settings.contains 'n' then run (.commands tested script)
        evaluateAll run tested n true source'

/-- Run the commands of a text. -/
def evaluate (run : Runner) (tested : Bool) (text : String) : Action Unit := do
  let before := (← get).readLine
  restoring (fun m => { m with readLine := before }) do
    evaluateAll run tested (text.length + 2) false { rest := text.toList }

/-- Run the commands that stand for an event, which keep the status. -/
def evaluateEvent (run : Runner) (text : String) : Action Unit := do
  let m ← get
  set { m with kept := some m.status }
  evaluate run false text
  modify fun after => { after with status := m.status, kept := m.kept }

/-- Run what is to be done at the signals that have come. -/
def answerSignals (run : Runner) : Action Unit := do
  let m ← get
  if m.signals.isEmpty then return
  set { m with signals := [] }
  for signal in m.signals do
    if let some text := m.traps.lookup (Signal.name signal) then evaluateEvent run text

/-! ## Processes -/

/-- Run commands up to the end of the process, and then what is to be done at the end. -/
def toTheEnd (run : Runner) (body : Action Unit) : Action Unit := do
  contained body
  let m ← get
  if let some text := m.traps.lookup "EXIT" then
    set { m with traps := m.traps.filter (·.1 != "EXIT") }
    contained (evaluateEvent run text)
where
  /-- Only the end of the process by force goes on. -/
  contained (body : Action Unit) : Action Unit := do
    try
      body
    catch
      | .killed signal process => throw (.killed signal process)
      | .timedOut => throw .timedOut
      | _ => return ()

/-- Run commands as a process of their own: all but the files, what was written and the status is
as it was before. -/
def apart (run : Runner) (body : Action Unit) : Action Unit := do
  let before ← get
  modify fun m =>
    { m with
      traps := m.traps.filter (·.2.isEmpty), signals := [], kept := none, isMain := false
      shellTraps := if m.isMain then m.traps else m.shellTraps }
  let ended ← (do
    try
      toTheEnd run body
      return none
    catch jump => return some jump : Action (Option Jump))
  let child := (← get).process
  modify before.leaving
  match ended with
  | some (.killed signal process) =>
    if process == before.process || process != child then throw (.killed signal process)
    finishWith (128 + signal)
    if let some words := Signal.ending? signal then complain words
  | some jump => throw jump
  | none => modify fun m => { m with status := m.status % 256 }

/-- The machine of a program that is started with arguments. -/
def Machine.forProgram (m : Machine) : Machine :=
  { m with
    functions := [], aliases := [], line := 0, readLine := 1, settings := [], loops := 0, depth := 0, acting := none,
    locals := none, background := [], optionOffset := 0, tracked := [], dialect := .plain
    isMain := true
    process := m.nextProcess, nextProcess := m.nextProcess + 1,
    bindings := m.bindings.filter fun v => v.2.exported && v.2.value.isSome }

/-- Become the program at a path. -/
def startFile (run : Runner) (path : String) (arguments : List String) :
    Action (Except Fault Unit) := do
  let m ← get
  match Program.carrier m.tree m.current Program.maxPrograms path arguments with
  | .ok (utility, arguments) =>
    run (.utility utility arguments)
    return .ok ()
  | .error .badFormat =>
    run (.utility "sh" ("/bin/sh" :: path :: arguments.drop 1))
    return .ok ()
  | .error fault => return .error fault

/-- Complain that a program cannot be started. -/
def complainOfStart (name : String) (fault : Fault) : Action Unit := do
  let isMissing :=
    [Fault.notFound, .notDirectory, .tooManyLinks, .nameTooLong].contains fault
  let words := if fault == .notFound || fault == .notDirectory then "not found" else fault.words
  complainHere (name ++ ": " ++ words)
  finishWith (if isMissing then 127 else 126)

/-- Something is at one of the paths at which a program is looked for. -/
def isSomewhere (name : String) : Action Bool := do
  let m ← get
  return m.search.any fun d =>
    (m.tree.entryAt m.current true (Machine.path (d ++ "/" ++ name))).isOk

/-- The path of a program, or the status behind a complaint. -/
def find (name : String) : Action (Except Nat String) := do
  let m ← get
  match m.locate name with
  | some path =>
    if !name.toList.contains '/' && !m.tracked.contains name then
      set { m with tracked := name :: m.tracked }
    return .ok path
  | none =>
    let words :=
      if ← isSomewhere name then Fault.denied.words
      else match m.dialect with
        | .plain => "not found"
        | .extended => "command not found"
    complainHere (name ++ ": " ++ words)
    return .error 127

/-- Run a program. -/
def runProgram (run : Runner) (name : String) (arguments : List String) : Action Unit := do
  match ← find name with
  | .error status => finishWith status
  | .ok path =>
    apart run do
      modify fun m => { m with bindings := Machine.grouped m.bindings }
      match ← startFile run path (name :: arguments) with
      | .ok () => return ()
      | .error fault => complainOfStart name fault

/-- Become a program. -/
def becomeProgram (run : Runner) (name : String) (arguments : List String) : Action Unit := do
  let m ← get
  match m.locate name with
  | none =>
    let fault := if ← isSomewhere name then Fault.denied else .notFound
    complainOfStart name fault
  | some path =>
    modify fun m => { m with bindings := Machine.grouped m.bindings }
    match ← startFile run path (name :: arguments) with
    | .ok () => modify fun m => { m with traps := [] }
    | .error fault => complainOfStart name fault
  throw .exit

/-! ## Simple commands -/

/-- End the script if a command failed and that is asked for. -/
def stopOnFailure (tested : Bool) : Action Unit := do
  let m ← get
  if m.settings.contains 'e' && !tested && m.status != 0 then throw .exit

/-- Call a function. -/
def callFunction (run : Runner) (tested : Bool) (body : Script) (arguments : List String) :
    Action Unit := do
  let m ← get
  if maxCalls ≤ m.depth then
    fail ("Maximum function recursion depth (" ++ toString maxCalls ++ ") reached")
  let restore (after : Machine) : Machine :=
    { restored (after.locals.getD []) after with
      arguments := m.arguments, loops := m.loops, depth := m.depth, locals := m.locals
      optionOffset := m.optionOffset }
  restoring restore do
    set { m with arguments, loops := 0, depth := m.depth + 1, locals := some [], optionOffset := 0 }
    try
      run (.commands tested body)
    catch
      | .back => return ()
      | jump => throw jump

/-- Run a command of the shell itself: its complaints name it, and what it has said is passed on
behind it. A complaint that ends scripts ends only the command, unless the command is special. -/
def runBuiltin (name : String) (isSpecial : Bool) (body : Action Nat) : Action Unit := do
  let before := (← get).acting
  restoring (fun m => { m with acting := before }) do
    modify fun m => { m with acting := some name }
    try
      let status ← body
      finishWith status
    catch jump =>
      let _ ← flush
      if jump != .failed || isSpecial then throw jump
    if !(← flush) then
      complainHere (name ++ ": I/O error")
      modify fun m => { m with status := if m.status == 0 then 1 else m.status }

/-- The file that is read into a script: one at a path, or one that is found by its name. -/
def findText (name : String) : Action String := do
  let m ← get
  if name.toList.contains '/' then return name
  let candidates := m.search.map fun d => if d.isEmpty then name else d ++ "/" ++ name
  let isFile (path : String) : Bool :=
    match m.tree.entryAt m.current true (Machine.path path) with
    | .ok (_, .file _ _) => true
    | _ => false
  match candidates.find? isFile with
  | some path => return path
  | none => fail (name ++ ": not found")

/-- Run the commands of a file. -/
def runText (run : Runner) (words : List String) : Action Nat := do
  let (_, words) ← Setting.options [] words
  match words with
  | [] => return 0
  | name :: _ =>
    let path ← findText name
    match ← readFile path with
    | .error fault => fail (openFault false path fault)
    | .ok bytes =>
      modify fun m => { m with acting := some path }
      try
        evaluate run false (Bytes.read bytes)
      catch
        | .back => return (← get).status
        | jump => throw jump
      return (← get).status

/-- What a command is. -/
inductive Kind where
  | builtin (isSpecial : Bool)
  | function (body : Script)
  | program

/-- What the command of a name is; functions count if `functions` is set. -/
def kindOf (functions : Bool) (name : String) : Action Kind := do
  let m ← get
  if Builtin.special.contains name then return .builtin true
  match functions, m.functions.lookup name with
  | true, some body => return .function body
  | _, _ => return if Builtin.regular.contains name then .builtin false else .program

/-- The command behind `command`, if it is to be run and not to be described. -/
def behindCommand : List String → Option (List String)
  | "-p" :: rest | "--" :: rest => behindCommand rest
  | name :: rest => if name.toList.head? == some '-' then none else some (name :: rest)
  | [] => none

/-- Describe commands as the options of `command` tell. -/
def runDescription (words : List String) : Action Nat := do
  let (options, words) ← Setting.options [('p', false), ('v', false), ('V', false)] words
  if words.isEmpty || options.isEmpty then return 0
  else Builtin.describeAll (options.any (·.1 == 'V')) (words.take 1)

/-- Run a command by its name. The number bounds how many commands are put in front of it. -/
def runCommand (run : Runner) (tested : Bool) :
    Nat → (functions isSpecial : Bool) → String → List String → Action Unit
  | 0, _, _, _, _ => throw .timedOut
  | n + 1, functions, maySpecial, name, arguments => do
    match ← kindOf functions name with
    | .function body => callFunction run tested body arguments
    | .program => runProgram run name arguments
    | .builtin isSpecial =>
      let isSpecial := isSpecial && maySpecial
      match name with
      | "eval" =>
        runBuiltin name isSpecial do
          if arguments.isEmpty then return 0
          evaluate run tested (" ".intercalate arguments)
          return (← get).status
      | "." => runBuiltin name isSpecial (runText run arguments)
      | "exec" =>
        match arguments with
        | [] => finishWith 0
        | "--" :: name' :: rest | name' :: rest =>
          runBuiltin name isSpecial do
            becomeProgram run name' rest
            return 0
      | "command" =>
        match behindCommand arguments with
        | some (name :: rest) => runCommand run tested n false false name rest
        | _ => runBuiltin name isSpecial (runDescription arguments)
      | _ =>
        match Builtin.all.lookup name with
        | some body => runBuiltin name isSpecial (body arguments)
        | none => finishWith 0

/-- The text that the commands of a substitution write. -/
def substitute (run : Runner) (body : Script) : Action String :=
  capture (apart run) (run (.commands false body))

/-- The arguments of words, of which assignments are not split behind a command that makes
them. -/
def argumentsOfAll (run : Runner) : Bool → List Word → Action (List String)
  | _, [] => return []
  | assigns, w :: rest => do
    let found ←
      match ← (if assigns then assignmentOf? (substitute run) w else pure none) with
      | some a => pure [a]
      | none => argumentsOf (substitute run) w
    return found ++ (← argumentsOfAll run assigns rest)

/-- The arguments of the words of a command, whose first one is its name. -/
def commandArguments (run : Runner) : List Word → Action (List String)
  | [] => return []
  | w :: rest => do
    match ← argumentsOf (substitute run) w with
    | [] => commandArguments run rest
    | name :: more =>
      let assigns := ["export", "readonly", "local"].contains name
      return name :: more ++ (← argumentsOfAll run assigns rest)

/-- Carry assignments out; gives the variables as they were, the first one that changed last, and
the assignments as they are traced. -/
def assignEach (run : Runner) : List (String × Word) →
    Action (List (String × Option Variable) × List String)
  | [] => return ([], [])
  | (name, w) :: rest => do
    let value ← valueOf (substitute run) w
    let old := (← get).bindings.lookup name
    setVariable name value
    let (saved, shown) ← assignEach run rest
    return (saved ++ [(name, old)], (name ++ "=" ++ value) :: shown)

/-- The text in front of the words of a command that is traced. -/
def traceSign (run : Runner) : Action String := do
  let m ← get
  let text := (m.valueOf? "PS4").getD ""
  match Script.wordOf? text with
  | none => return text
  | some w =>
    restoring (fun after => { after with settings := m.settings, status := m.status }) do
      set { m with settings := m.settings.filter (· != 'x') }
      textOf (substitute run) w

/-- Write the words of a command to the errors, if commands are traced. -/
def trace (run : Runner) (errors : Option Nat) (words : List String) : Action Unit := do
  if !(← get).settings.contains 'x' then return
  let line := (← traceSign run) ++ " ".intercalate words ++ "\n"
  let m ← get
  if let some number := errors then
    if let some file := m.opened[number]? then
      if file.writable then set (m.write number file (Bytes.write line))

/-- Run a simple command. -/
def runSimple (run : Runner) (tested : Bool) (assigned : List (String × Word))
    (words : List Word) (redirects : List Redirect) : Action Unit := do
  modify fun m => { m with substituted := 0 }
  let arguments ← commandArguments run words
  let kind ←
    match arguments with
    | [] => pure none
    | name :: _ => do pure (some (← kindOf true name))
  let isSpecial := match kind with
    | some (.builtin s) => s
    | _ => false
  let redirections ← redirects.mapM (redirectionOf (substitute run))
  let before ← get
  let keepsStreams := arguments == ["exec"]
  let errors := before.streams.lookup 2
  restoring (fun m => if keepsStreams then m else { m with streams := before.streams }) do
    if !(← redirectAll redirections) then
      finishWith 2
      if isSpecial then throw .failed
    else
      let (saved, shown) ← assignEach run assigned
      let keeps := isSpecial || arguments.isEmpty
      if !keeps || (arguments.head? == some "exec" && 1 < arguments.length) then
        for (name, _) in saved do
          markVariable name fun v => { v with exported := true }
      if !(shown.isEmpty && arguments.isEmpty) then trace run errors (shown ++ arguments)
      match arguments with
      | [] => finishWith (← get).substituted
      | name :: rest =>
        if keeps || saved.isEmpty then
          runCommand run tested (arguments.length + 1) true true name rest
        else
          restoring (restored saved) do
            runCommand run tested (arguments.length + 1) true true name rest

/-! ## Commands of all kinds -/

/-- How a round of a loop came to its end. -/
inductive Round where
  | done
  | again
  | left
deriving DecidableEq

/-- Run the body of a loop once. -/
def round (body : Action Unit) : Action Round := do
  try
    body
    return .done
  catch
    | .leave loops => if loops ≤ 1 then return .left else throw (.leave (loops - 1))
    | .again loops => if loops ≤ 1 then return .again else throw (.again (loops - 1))
    | jump => throw jump

/-- Run something as the inside of a loop. -/
def inLoop (body : Action Unit) : Action Unit := do
  let loops := (← get).loops
  restoring (fun m => { m with loops }) do
    modify fun m => { m with loops := loops + 1 }
    body

/-- Go round a loop, whose status so far is given. -/
def loopFrom (condition body : Action Unit) (whileTrue : Bool) : Nat → Nat → Action Unit
  | 0, _ => throw .timedOut
  | n + 1, status => do
    match ← round condition with
    | .left => finishWith status
    | .again => loopFrom condition body whileTrue n status
    | .done =>
      if ((← get).status == 0) != whileTrue then finishWith status
      else
        match ← round body with
        | .left => return ()
        | _ => loopFrom condition body whileTrue n (← get).status

/-- Run commands for each value of a variable. -/
def loopOver (name : String) (body : Action Unit) : List String → Action Unit
  | [] => return ()
  | value :: rest => do
    setVariable name value
    match ← round body with
    | .left => return ()
    | _ => loopOver name body rest

/-- Run commands, each with the output of the one before as its input. -/
def pipe (run : Runner) (tested : Bool) : Option Nat → List Script → Action Unit
  | _, [] => return ()
  | input, [last] =>
    apart run do
      if let some number := input then connect 0 number
      run (.commands tested last)
  | input, first :: rest => do
    let (_, number) ← openBuffer ByteArray.empty
    apart run do
      if let some number := input then connect 0 number
      connect 1 number
      run (.commands tested first)
    pipe run tested (some number) rest

/-- Run commands in the background, of which the status is known at once. -/
def runBehind (run : Runner) (body : Script) : Action Unit := do
  let process := (← get).nextProcess
  modify fun m => { m with nextProcess := process + 1 }
  let number ← openNew { target := .nothing }
  apart run do
    connect 0 number
    run (.commands false body)
  modify fun m => { m with background := (process, m.status) :: m.background, status := 0 }

/-- The first case with a pattern that matches. -/
def choose (run : Runner) (subject : List Char) :
    List (List Word × Script) → Action (Option Script)
  | [] => return none
  | (patterns, body) :: rest => do
    if ← anyFits patterns then return some body else choose run subject rest
where
  /-- Some pattern matches. -/
  anyFits : List Word → Action Bool
    | [] => return false
    | w :: rest => do
      let pattern ← patternOf (substitute run) w
      if Pattern.fits pattern subject then return true else anyFits rest

/-- Run something with streams led elsewhere. -/
def redirected (run : Runner) (redirects : List Redirect) (body : Action Unit) : Action Unit := do
  let redirections ← redirects.mapM (redirectionOf (substitute run))
  let streams := (← get).streams
  restoring (fun m => { m with streams }) do
    if ← redirectAll redirections then body else finishWith 2

/-- Run a command. Nothing is made of a failure that is `tested`. -/
def perform (run : Runner) (tested : Bool) (script : Script) : Action Unit := do
  if (← get).settings.contains 'n' then return
  match script with
  | .simple line assigned words redirects =>
    modify fun m => { m with line }
    runSimple run tested assigned words redirects
    stopOnFailure tested
  | .sequence commands =>
    for command in commands do
      run (.commands tested command)
  | .both first second =>
    run (.commands true first)
    if (← get).status == 0 then run (.commands tested second)
  | .either first second =>
    run (.commands true first)
    if (← get).status != 0 then run (.commands tested second)
  | .negated body =>
    run (.commands true body)
    modify fun m => { m with status := if m.status == 0 then 1 else 0 }
  | .pipeline commands =>
    pipe run tested none commands
    stopOnFailure tested
  | .background body => runBehind run body
  | .subshell line body =>
    modify fun m => { m with line }
    apart run (run (.commands tested body))
    stopOnFailure tested
  | .redirected line (.subshell _ body) redirects =>
    modify fun m => { m with line }
    let redirections ← redirects.mapM (redirectionOf (substitute run))
    apart run do
      if ← redirectAll redirections then run (.commands tested body) else finishWith 2
    stopOnFailure tested
  | .redirected line body redirects =>
    modify fun m => { m with line }
    redirected run redirects (run (.commands tested body))
  | .branch condition body otherwise =>
    run (.commands true condition)
    if (← get).status == 0 then run (.commands tested body)
    else
      match otherwise with
      | some body => run (.commands tested body)
      | none => finishWith 0
  | .loop whileTrue condition body =>
    inLoop do
      loopFrom (run (.commands true condition)) (run (.commands tested body)) whileTrue maxRounds 0
  | .each line name words body =>
    modify fun m => { m with line }
    let values ← argumentsOfAll run false words
    finishWith 0
    inLoop (loopOver name (run (.commands tested body)) values)
  | .choice line subject cases =>
    modify fun m => { m with line }
    let subject ← textOf (substitute run) subject
    match ← choose run subject.toList cases with
    | some (.sequence []) | none => finishWith 0
    | some body => run (.commands tested body)
  | .define _ name body =>
    modify fun m => { m with functions := assign name body m.functions, status := 0 }

/-! ## Shells -/

/-- Where programs are looked for if nothing else is known. -/
def defaultSearch : String :=
  "/usr/local/sbin:/usr/local/bin:/usr/sbin:/usr/bin:/sbin:/bin"

/-- The variables that a shell sets when it is started. -/
def startVariables : Action Unit := do
  let m ← get
  let parent := toString (m.process - 1)
  let set (name value : String) : Action Unit := modify (·.withValue name value)
  let ensure (name value : String) : Action Unit := do
    if ((← get).valueOf? name).isNone then set name value
  set "IFS" " \t\n"
  set "OPTIND" "1"
  ensure "PATH" defaultSearch
  ensure "PS1" "# "
  ensure "PS2" "> "
  ensure "PS4" "+ "
  set "PPID" parent
  set "PWD" m.directory
  markVariable "PWD" fun v => { v with exported := true }

/-- Run a shell with arguments, the first of which is the name by which it was started. -/
def runShell (run : Runner) (dialect : Dialect) (arguments : List String) : Action Unit := do
  let name := arguments.head?.getD "sh"
  modify fun m =>
    let m := m.forProgram
    { m with name, dialect, arguments := [], directory := Bytes.ofText (FileTree.textOf m.current) }
  toTheEnd run do
    startVariables
    finishWith 0
    let (isCommand, _, rest) ← Setting.read true (arguments.length + 1) (arguments.drop 1)
    match isCommand, (← get).settings.contains 's', rest with
    | true, _, [] => fail "-c requires an argument"
    | true, _, text :: rest =>
      modify fun m =>
        { m with name := rest.head?.getD name, arguments := rest.drop 1, line := 0 }
      evaluate run false text
    | false, false, path :: rest =>
      match ← readFile path with
      | .error .isDirectory => finishWith 0
      | .error fault => fail (openFault false path fault)
      | .ok bytes =>
        modify fun m => { m with name := path, arguments := rest }
        evaluate run false (Bytes.read bytes)
    | false, _, rest =>
      modify fun m => { m with arguments := rest }
      let bytes ← readAll 0
      evaluate run false (Bytes.read bytes)

/-! ## Tasks -/

/-- Run a task by means of a runner for what is nested in it. -/
def runTask (run : Runner) : Task → Action Unit
  | .commands tested script => do
    perform run tested script
    answerSignals run
  | .utility name arguments =>
    match name with
    | "sh" | "dash" => runShell run .plain arguments
    | "bash" => runShell run .extended arguments
    | _ => do
      let startedAs := arguments.head?.getD name
      modify fun m => { m with acting := none, output := ByteArray.empty }
      match Utility.all.lookup name with
      | some utility =>
        let status ← utility
          { name := startedAs, arguments := arguments.drop 1
            start := startProgram run true, become := startProgram run false }
        if !(← flush) then
          complain (startedAs ++ ": write error: Bad file descriptor")
          finishWith 1
        else finishWith status
      | none => finishWith 0
where
  /-- Run a program for a utility, as a process of its own if `isOwn` is set; gives its status, or
  why it cannot be started. -/
  startProgram (run : Runner) (isOwn : Bool) (name : String) (arguments : List String) :
      Action (Except Fault Nat) := do
    let m ← get
    if name.isEmpty then return .error .notFound
    let searched := if (m.valueOf? "PATH").isSome then m else m.withValue "PATH" "/bin:/usr/bin"
    match searched.locate name with
    | none => return .error (if ← isSomewhere name then .denied else .notFound)
    | some path =>
      match Program.carrier m.tree m.current Program.maxPrograms path (name :: arguments) with
      | .ok _ | .error .badFormat =>
        let body : Action Unit := do
          let _ ← startFile run path (name :: arguments)
        if isOwn then apart run body else body
        return .ok (← get).status
      | .error fault => return .error fault

/-- Run a task; the number bounds how deeply tasks are nested. -/
def run : Nat → Runner
  | 0, _ => throw .timedOut
  | n + 1, task => runTask (run n) task

end EmbeddedSolidity.Shell
