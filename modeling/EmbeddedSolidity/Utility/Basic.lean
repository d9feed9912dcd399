import EmbeddedSolidity.Shell.Machine
import EmbeddedSolidity.Utility.Quotation

/-!
# Utilities

A utility is called by a name with arguments. It works on the files and streams of the machine,
gives a status, and writes what it has to complain about to the errors.

* `Call.read` : the options among the arguments, and the other arguments;
* `Call.contents` : what is in files.
-/

namespace EmbeddedSolidity.Utility

open FileSystem (Fault FileTree Place)
open Shell

/-! ## Calls -/

/-- How a utility is called. -/
structure Call where
  /-- The name by which it was started, which its complaints begin with. -/
  name : String
  arguments : List String
  /-- Run a program with arguments; gives its status, or why it cannot be started. -/
  start : String → List String → Action (Except Fault Nat)
  /-- Become a program with arguments; gives its status, or why it cannot be started. -/
  become : String → List String → Action (Except Fault Nat)

/-- What a utility does; gives its status. -/
abbrev Tool := Call → Action Nat

/-- An option, by its letter and by a long name. -/
structure Switch where
  letter : Char
  long : String := ""
  takes : Bool := false
  /-- The text may be left out; it is then joined to the option if there is one. -/
  mayTake : Bool := false

/-- An option that has been read, with its text. -/
abbrev Chosen := Char × Option String

namespace Call

/-! ## Complaints -/

/-- Complain in the name of the utility, behind what it has written so far. -/
def complain (c : Call) (text : String) : Action Unit := do
  let _ ← flush
  Shell.complain (c.name ++ ": " ++ text)

/-- Complain, and give a status. -/
def refuse (c : Call) (text : String) (status : Nat := 1) : Action Nat := do
  c.complain text
  return status

/-- Refer to the help of the utility. -/
def refer (c : Call) : Action Unit :=
  Shell.complain ("Try '" ++ c.name ++ " --help' for more information.")

/-- Complain about the arguments, and give a status. -/
def misused (c : Call) (text : String) (status : Nat := 1) : Action Nat := do
  c.complain text
  c.refer
  return status

/-- Nothing is given to work on. -/
def missing (c : Call) (status : Nat := 1) : Action Nat :=
  c.misused "missing operand" status

/-- More is given than there may be. -/
def extra (c : Call) (word : String) (status : Nat := 1) : Action Nat :=
  c.misused ("extra operand " ++ Quotation.word word) status

/-- Status zero, or one with a complaint about a file. -/
def check (c : Call) (doing path : String) : Except Fault Unit → Action Nat
  | .ok () => return 0
  | .error fault => c.refuse (doing ++ " " ++ Quotation.quotedPath path ++ ": " ++ fault.words)

/-! ## Options -/

/-- What comes of reading options: them and the other arguments, or what is wrong. -/
abbrev Options := Except String (List Chosen × List String)

/-- Put options in front. -/
def withOptions (chosen : List Chosen) (found : Options) : Options :=
  found.map fun (more, words) => (chosen ++ more, words)

/-- The options that an argument of letters holds, and whether the last one still takes a text. -/
def letters (switches : List Switch) : List Char → Except String (List Chosen × Option Switch)
  | [] => .ok ([], none)
  | c :: rest =>
    match switches.find? (·.letter == c) with
    | none => .error ("invalid option -- '" ++ String.singleton c ++ "'")
    | some s =>
      if s.takes then
        if rest.isEmpty then .ok ([], some s) else .ok ([(c, some (String.ofList rest))], none)
      else if s.mayTake then
        .ok ([(c, if rest.isEmpty then none else some (String.ofList rest))], none)
      else (letters switches rest).map fun (more, last) => ((c, none) :: more, last)

/-- The option of a long name, which may be cut short. -/
def longSwitch (switches : List Switch) (name : String) : Except String Switch :=
  let named := switches.filter fun s => !s.long.isEmpty
  match named.find? (·.long == name), named.filter fun s => name.toList.isPrefixOf s.long.toList with
  | some s, _ => .ok s
  | none, [s] => .ok s
  | none, [] => .error ("unrecognized option '--" ++ name ++ "'")
  | none, several =>
    if several.all fun s => some s.letter == several.head?.map (·.letter) then
      match several with
      | s :: _ => .ok s
      | [] => .error ""
    else
      .error ("option '--" ++ name ++ "' is ambiguous; possibilities:" ++
        String.join (several.map fun s => " '--" ++ s.long ++ "'"))

/-- The options that an argument holds, of which the last one may take the next argument;
`none` if it holds none. -/
def optionsOf? (switches : List Switch) (word : String) :
    Option (Except String (List Chosen × Option Switch)) :=
  match word.toList with
  | '-' :: '-' :: cs =>
    let name := String.ofList (cs.takeWhile (· != '='))
    match longSwitch switches name, cs.drop name.length with
    | .error message, _ => some (.error message)
    | .ok s, _ :: value =>
      if s.takes || s.mayTake then some (.ok ([(s.letter, some (String.ofList value))], none))
      else some (.error ("option '--" ++ s.long ++ "' doesn't allow an argument"))
    | .ok s, [] => some (.ok (if s.takes then ([], some s) else ([(s.letter, none)], none)))
  | '-' :: c :: cs => some (letters switches (c :: cs))
  | _ => none

/-- The complaint about an option without the text that it takes. -/
def lacksText (word : String) (s : Switch) : String :=
  if word.toList.take 2 == ['-', '-'] then "option '--" ++ s.long ++ "' requires an argument"
  else "option requires an argument -- '" ++ String.singleton s.letter ++ "'"

/-- Read options, which may stand behind other arguments if `mixed` is set. -/
def readOptions (switches : List Switch) (mixed : Bool) : List String → Options
  | [] => .ok ([], [])
  | [word] =>
    if word == "--" then .ok ([], [])
    else
      match optionsOf? switches word with
      | none => .ok ([], [word])
      | some (.error message) => .error message
      | some (.ok (chosen, none)) => .ok (chosen, [])
      | some (.ok (_, some s)) => .error (lacksText word s)
  | word :: next :: rest =>
    if word == "--" then .ok ([], next :: rest)
    else
      match optionsOf? switches word with
      | none =>
        if mixed then
          (readOptions switches mixed (next :: rest)).map fun (chosen, words) =>
            (chosen, word :: words)
        else .ok ([], word :: next :: rest)
      | some (.error message) => .error message
      | some (.ok (chosen, none)) =>
        withOptions chosen (readOptions switches mixed (next :: rest))
      | some (.ok (chosen, some s)) =>
        withOptions (chosen ++ [(s.letter, some next)]) (readOptions switches mixed rest)

/-- Work on the options among the arguments and the other arguments, or complain about them. -/
def read (c : Call) (switches : List Switch) (body : List Chosen → List String → Action Nat)
    (status : Nat := 1) (mixed : Bool := true) : Action Nat := do
  let switches := switches ++ [⟨'\x01', "help", false, false⟩, ⟨'\x02', "version", false, false⟩]
  match readOptions switches mixed c.arguments with
  | .ok (chosen, words) =>
    match chosen.find? fun o => o.1 == '\x01' || o.1 == '\x02' with
    | some _ =>
      say ("Usage: " ++ c.name ++ " [OPTION]...\n")
      return 0
    | none => body chosen words
  | .error message => c.misused message status

end Call

/-- The option is among those that have been read. -/
def Chosen.has (letter : Char) (chosen : List Chosen) : Bool :=
  chosen.any (·.1 == letter)

/-- The text of the last option of a letter. -/
def Chosen.last? (letter : Char) (chosen : List Chosen) : Option String :=
  (chosen.reverse.find? (·.1 == letter)).bind (·.2)

/-- The last one of some options. -/
def Chosen.among? (letters : List Char) (chosen : List Chosen) : Option Char :=
  (chosen.reverse.find? fun o => letters.contains o.1).map (·.1)

/-! ## Working on arguments -/

/-- Do something for each argument; the status is the largest one. -/
def forEach {α : Type} (f : α → Action Nat) : List α → Action Nat
  | [] => return 0
  | a :: rest => do
    let first ← f a
    return max first (← forEach f rest)

/-- The bytes of what an argument names; a dash stands for the input. -/
def bytesOf (path : String) : Action (Except Fault ByteArray) := do
  if path == "-" || path == "/dev/stdin" then
    let m ← get
    match m.openFile? 0 with
    | some (_, { target := .directory, .. }) => return .error .isDirectory
    | _ => return .ok (← readAll 0)
  else if path == "/dev/null" then return .ok ByteArray.empty
  else readFile path

/-- The arguments, or the input if there are none. -/
def orInput (paths : List String) : List String :=
  if paths.isEmpty then ["-"] else paths

/-- The characters of what an argument names. -/
def textOf (path : String) : Action (Except Fault (List Char)) := do
  return (← bytesOf path).map fun bytes => (Bytes.read bytes).toList

/-- Do something with the text of each argument, or with the input if there is none; what is
said of an argument that cannot be read is given. -/
def Call.overContents (c : Call) (paths : List String) (fault : String → Fault → String)
    (f : String → List Char → Action Unit) : Action Nat :=
  forEach (fun path => do
    match ← textOf path with
    | .ok cs =>
      f path cs
      return 0
    | .error reason => c.refuse (fault path reason)) (orInput paths)

/-- What is in the arguments that can be read, or in the input if there is none, in order, and
the status. -/
def Call.contents (c : Call) (paths : List String) (fault : String → Fault → String) :
    Action (Nat × List (List Char)) :=
  collect (orInput paths)
where
  collect : List String → Action (Nat × List (List Char))
    | [] => return (0, [])
    | path :: rest => do
      let found ← textOf path
      if let .error reason := found then c.complain (fault path reason)
      let (status, more) ← collect rest
      match found with
      | .ok cs => return (status, cs :: more)
      | .error _ => return (1, more)

/-- A path in front of a fault. -/
def plainFault (path : String) (fault : Fault) : String :=
  Quotation.label path ++ ": " ++ fault.words

/-- What is said of a file that is to be read. -/
def readingFault (path : String) (fault : Fault) : String :=
  if fault == .isDirectory then "error reading " ++ Quotation.quotedPath path ++ ": " ++ fault.words
  else "cannot open " ++ Quotation.quotedPath path ++ " for reading: " ++ fault.words

/-! ## Lines -/

/-- The lines of bytes without their line feeds. -/
def linesOf (cs : List Char) : List (List Char) :=
  match (Text.cut '\n' cs).reverse with
  | [] :: lines => lines.reverse
  | lines => lines.reverse

/-- The text ends within a line. -/
def endsWithinLine (cs : List Char) : Bool :=
  cs.getLast?.any (· != '\n')

/-- Write lines. -/
def sayLines (lines : List (List Char)) : Action Unit :=
  say (String.ofList (lines.flatMap (· ++ ['\n'])))

/-- The count that a text is, with the letter of a power behind it. -/
def countOf? (text : String) : Option Nat :=
  let cs := text.toList
  let digits := cs.takeWhile Char.isDigit
  if digits.isEmpty then none
  else
    let n := digits.foldl (fun n c => n * 10 + (c.toNat - 48)) 0
    let powers := [("", 1), ("b", 512), ("kB", 1000), ("K", 1024), ("k", 1024), ("KiB", 1024),
      ("MB", 1000000), ("M", 1048576), ("m", 1048576), ("G", 1073741824)]
    (powers.lookup (String.ofList (cs.drop digits.length))).map (n * ·)

end EmbeddedSolidity.Utility
