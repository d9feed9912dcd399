import EmbeddedSolidity.FileSystem.Search
import EmbeddedSolidity.Shell.Bytes
import EmbeddedSolidity.Shell.Syntax

/-!
# The machine of a shell

What a process reads and changes: the file tree, the current directory, variables, functions, and
the streams that commands read from and write to. A stream is the number of an open file; open
files are shared by all streams that were made from one another, with the offset at which they
are read and written.

* `Action` : what commands do to the machine, unless they jump.

All texts are texts of bytes, except the paths that the file tree is asked for.
-/

namespace EmbeddedSolidity.Shell

open FileSystem (Fault FileTree Place)

/-! ## Parts of a machine -/

/-- What an open file is open on. -/
inductive Target where
  /-- Nothing is read from it, and what is written to it is lost. -/
  | nothing
  /-- What is written to a buffer is read from it once. -/
  | buffer (number : Nat)
  | file (place : Place)
  | directory
deriving DecidableEq

/-- An open file. -/
structure OpenFile where
  target : Target
  offset : Nat := 0
  /-- It is always written at its end. -/
  atEnd : Bool := false
  readable : Bool := true
  writable : Bool := true

/-- A variable. One without a value may still be exported or fixed. -/
structure Variable where
  value : Option String := none
  exported : Bool := false
  fixed : Bool := false

/-- Which shell it is, as far as complaints differ. -/
inductive Dialect where
  | plain
  | extended
deriving DecidableEq

/-- The state of a process that runs commands. -/
structure Machine where
  tree : FileTree
  current : Place
  /-- The path of the current directory by which it was entered. -/
  directory : String
  dialect : Dialect := .plain
  /-- The name under which the script runs. -/
  name : String
  /-- The number of the process, and the number of the next one. -/
  process : Nat := 4242
  nextProcess : Nat := 4243
  arguments : List String
  bindings : List (String × Variable)
  functions : List (String × Script) := []
  /-- The texts that stand for names of commands. -/
  aliases : List (String × String) := []
  /-- The texts of redirections, by their numbers. -/
  documents : Array Word := #[]
  opened : Array OpenFile
  streams : List (Nat × Nat)
  buffers : Array ByteArray
  /-- What the command at hand has written so far, unless it has been passed on. -/
  output : ByteArray := ByteArray.empty
  status : Nat := 0
  /-- The status of the last substitution. -/
  substituted : Nat := 0
  /-- The line of the command at hand, and the line up to which commands have been read. -/
  line : Nat := 0
  readLine : Nat := 1
  /-- The letters of the settings that are on. -/
  settings : List Char := []
  /-- How many loops and functions are under way. -/
  loops : Nat := 0
  depth : Nat := 0
  /-- The command that complaints name. -/
  acting : Option String := none
  /-- The commands to be run at the end or at a signal. -/
  traps : List (String × String) := []
  /-- The signals whose commands are still to be run. -/
  signals : List Nat := []
  /-- The process is the shell itself, and not one that it has made to run commands apart. -/
  isMain : Bool := true
  /-- The commands of the shell at signals, and the signals that it has been sent meanwhile. -/
  shellTraps : List (String × String) := []
  raised : List Nat := []
  /-- What the variables were that the function at hand has made its own. -/
  locals : Option (List (String × Option Variable)) := none
  /-- The status with which a command that runs at a signal or at the end leaves. -/
  kept : Option Nat := none
  /-- The processes in the background, with how they ended. -/
  background : List (Nat × Nat) := []
  /-- Where in the argument at hand the next option is. -/
  optionOffset : Nat := 0
  /-- The programs that have been looked for. -/
  tracked : List String := []
  /-- The permissions that new files are not given. -/
  mask : Nat := 18

/-- Why the commands that follow are not run. -/
inductive Jump where
  | exit
  /-- A complaint that ends a script. -/
  | failed
  /-- Out of a function. -/
  | back
  /-- Out of a number of loops. -/
  | leave (loops : Nat)
  /-- To the next round of a loop, out of the loops in it. -/
  | again (loops : Nat)
  /-- A signal ends the process of a number. -/
  | killed (signal process : Nat)
  | timedOut
deriving DecidableEq

/-- What commands do to the machine, unless they jump. -/
abbrev Action := ExceptT Jump (StateM Machine)

/-- Something to be run: commands, of whose failure nothing is made if it is `tested`, or a
utility with its arguments, the first of which is the name by which it was started. -/
inductive Task where
  | commands (tested : Bool) (script : Script)
  | utility (name : String) (arguments : List String)

/-- What runs tasks. -/
abbrev Runner := Task → Action Unit

/-! ## Variables -/

/-- Put a value in the place of an earlier one of the same name. -/
def assign {κ α : Type} [BEq κ] (name : κ) (value : α) (entries : List (κ × α)) :
    List (κ × α) :=
  (name, value) :: entries.filter (·.1 != name)

namespace Machine

/-- The value of a variable. -/
def valueOf? (m : Machine) (name : String) : Option String :=
  (m.bindings.lookup name).bind (·.value)

/-- The machine in which a variable is one with other properties; a new one stands last. -/
def withVariable (m : Machine) (name : String) (v : Variable) : Machine :=
  let isKnown := m.bindings.any (·.1 == name)
  { m with
    bindings :=
      if isKnown then m.bindings.map fun e => if e.1 == name then (name, v) else e
      else m.bindings ++ [(name, v)] }

/-- The machine in which a variable has a value. -/
def withValue (m : Machine) (name value : String) : Machine :=
  let old := (m.bindings.lookup name).getD {}
  let exported := old.exported || m.settings.contains 'a'
  m.withVariable name { old with value := some value, exported }

/-- The values of the variables that programs are given. -/
def environment (m : Machine) : List (String × String) :=
  m.bindings.filterMap fun (name, v) =>
    if v.exported then v.value.map fun value => (name, value) else none

/-- How many groups of variables a shell keeps. -/
def groupCount : Nat := 39

/-- The group in which a variable of a name is kept. -/
def groupOf (name : String) : Nat :=
  let codes := name.toList.map Char.toNat
  (codes.headD 0 * 16 + codes.foldl (· + ·) 0) % groupCount

/-- The variables as a shell gives them to a program: group by group. -/
def grouped (bindings : List (String × Variable)) : List (String × Variable) :=
  bindings.mergeSort fun a b => decide (groupOf a.1 ≤ groupOf b.1)

/-- The directories in which programs are looked for. -/
def search (m : Machine) : List String :=
  (Text.cut ':' ((m.valueOf? "PATH").getD "").toList).map String.ofList

/-- A path as the file tree knows it. -/
def path (s : String) : String :=
  Bytes.toText s

/-- The path of the program of a name, which may be a path itself. -/
def locate (m : Machine) (name : String) : Option String :=
  if name.toList.contains '/' then some name
  else
    let candidates := m.search.map fun d => if d.isEmpty then name else d ++ "/" ++ name
    candidates.find? fun p => m.tree.isExecutable m.current (path p)

/-- Undo in `m` what a process of its own cannot change in the one that started it. -/
def leaving (before m : Machine) : Machine :=
  { before with
    tree := m.tree, opened := m.opened, buffers := m.buffers, status := m.status
    nextProcess := m.nextProcess, documents := m.documents
    signals := if before.isMain then before.signals ++ m.raised else before.signals
    raised := if before.isMain then [] else m.raised }

end Machine

/-- A setting of the shell is on. -/
def isSet (letter : Char) : Action Bool := do
  return (← get).settings.contains letter

/-! ## Streams -/

/-- The bytes of a file with other ones written at an offset. -/
def overwrite (content : ByteArray) (offset : Nat) (bytes : ByteArray) : ByteArray :=
  if content.size == offset then content ++ bytes
  else
    let gap : ByteArray := ⟨Array.replicate (offset - content.size) 0⟩
    content.extract 0 offset ++ gap ++ bytes ++
      content.extract (offset + bytes.size) content.size

namespace Machine

/-- The open file of a stream. -/
def openFile? (m : Machine) (stream : Nat) : Option (Nat × OpenFile) := do
  let number ← m.streams.lookup stream
  let file ← m.opened[number]?
  return (number, file)

/-- Write to an open file. A file that is gone takes nothing. -/
def write (m : Machine) (number : Nat) (file : OpenFile) (bytes : ByteArray) : Machine :=
  match file.target with
  | .nothing | .directory => m
  | .buffer n => { m with buffers := m.buffers.modify n (· ++ bytes) }
  | .file place =>
    match m.tree.get? place with
    | some (.file content executable) =>
      let offset := if file.atEnd then content.size else file.offset
      let file := { file with offset := offset + bytes.size }
      { m with
        tree := m.tree.put place (.file (overwrite content offset bytes) executable)
        opened := m.opened.set! number file }
    | _ => m

/-- What is left to be read from an open file. -/
def unread (m : Machine) (file : OpenFile) : ByteArray :=
  match file.target with
  | .nothing | .directory => ByteArray.empty
  | .buffer n => m.buffers.getD n ByteArray.empty
  | .file place =>
    match m.tree.get? place with
    | some (.file content _) => content.extract file.offset content.size
    | _ => ByteArray.empty

/-- The machine after a number of bytes have been read from an open file. -/
def afterReading (m : Machine) (number : Nat) (file : OpenFile) (count : Nat) : Machine :=
  match file.target with
  | .nothing | .directory => m
  | .buffer n => { m with buffers := m.buffers.modify n fun b => b.extract count b.size }
  | .file _ => { m with opened := m.opened.set! number { file with offset := file.offset + count } }

end Machine

/-- Write bytes to a stream; tells whether that was possible. -/
def writeBytes (stream : Nat) (bytes : ByteArray) : Action Bool := do
  if bytes.isEmpty then return true
  let m ← get
  match m.openFile? stream with
  | some (number, file) =>
    if !file.writable then return false
    set (m.write number file bytes)
    return true
  | none => return false

/-- Write a text to the output when the command is done. -/
def say (text : String) : Action Unit :=
  modify fun m => { m with output := m.output ++ Bytes.write text }

/-- Write bytes to the output when the command is done. -/
def sayBytes (bytes : ByteArray) : Action Unit :=
  modify fun m => { m with output := m.output ++ bytes }

/-- Pass on what the command has written so far; tells whether that was possible. -/
def flush : Action Bool := do
  let output := (← get).output
  modify fun m => { m with output := ByteArray.empty }
  writeBytes 1 output

/-- Write a line to the errors. -/
def complain (text : String) : Action Unit := do
  let _ ← writeBytes 2 (Bytes.write (text ++ "\n"))

/-- Write a line to the errors that names the script, the line and the command. -/
def complainHere (text : String) : Action Unit := do
  let m ← get
  let acting := (m.acting.map (· ++ ": ")).getD ""
  let line := match m.dialect with
    | .plain => toString m.line
    | .extended => "line " ++ toString m.line
  complain (m.name ++ ": " ++ line ++ ": " ++ acting ++ text)

/-- Commands leave a status. -/
def finishWith (status : Nat) : Action Unit :=
  modify fun m => { m with status }

/-- End the script with a complaint. -/
def fail {α : Type} (text : String) : Action α := do
  complainHere text
  finishWith 2
  throw .failed

/-- Everything that is left on a stream. -/
def readAll (stream : Nat) : Action ByteArray := do
  let m ← get
  match m.openFile? stream with
  | some (number, file) =>
    let bytes := m.unread file
    set (m.afterReading number file bytes.size)
    return bytes
  | none => return ByteArray.empty

/-- Open a file, and give its number. -/
def openNew (file : OpenFile) : Action Nat := do
  let n := (← get).opened.size
  modify fun m => { m with opened := m.opened.push file }
  return n

/-- Make a buffer that holds some bytes, and give the number of the file open on it. -/
def openBuffer (bytes : ByteArray) : Action (Nat × Nat) := do
  let n := (← get).buffers.size
  modify fun m => { m with buffers := m.buffers.push bytes }
  return (n, ← openNew { target := .buffer n })

/-- Take what a buffer holds out of it. -/
def takeBuffer (n : Nat) : Action ByteArray := do
  let bytes := (← get).buffers.getD n ByteArray.empty
  modify fun m => { m with buffers := m.buffers.set! n ByteArray.empty }
  return bytes

/-- Let a stream be an open file. -/
def connect (stream number : Nat) : Action Unit :=
  modify fun m => { m with streams := assign stream number m.streams }

/-- Close a stream. -/
def disconnect (stream : Nat) : Action Unit :=
  modify fun m => { m with streams := m.streams.filter (·.1 != stream) }

/-! ## Files -/

/-- Change the files. -/
def change (operation : FileTree → Place → Except Fault FileTree) :
    Action (Except Fault Unit) := do
  let m ← get
  match operation m.tree m.current with
  | .ok tree =>
    set { m with tree }
    return .ok ()
  | .error fault => return .error fault

/-- Change the files, perhaps in part even if that fails. -/
def changeMany (operation : FileTree → Place → Except Fault Unit × FileTree) :
    Action (Except Fault Unit) := do
  let m ← get
  let (result, tree) := operation m.tree m.current
  set { m with tree }
  return result

/-- The content of a file. -/
def readFile (path : String) : Action (Except Fault ByteArray) := do
  let m ← get
  return m.tree.read m.current (Machine.path path)

/-! ## Jumps -/

/-- Run commands, and undo a change of the machine behind them however they end. -/
def restoring {α : Type} (restore : Machine → Machine) (body : Action α) : Action α := do
  try
    let result ← body
    modify restore
    return result
  catch jump =>
    modify restore
    throw jump

/-- End the script with a status. -/
def exitWith {α : Type} (status : Nat) : Action α := do
  finishWith status
  throw .exit

end EmbeddedSolidity.Shell
