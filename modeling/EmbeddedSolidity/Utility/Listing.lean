import EmbeddedSolidity.Shell.Pattern
import EmbeddedSolidity.Utility.Files

/-!
# Listing files

The names in directories, and the paths below directories for which conditions hold.
-/

namespace EmbeddedSolidity.Utility.Listing

open FileSystem (Entry Fault FileTree Place)
open Shell

/-- A switch without a text. -/
def plain (letter : Char) (long : String) : Switch :=
  ⟨letter, long, false, false⟩

/-- Texts in order. -/
def inOrder (names : List String) : List String :=
  names.mergeSort fun a b => decide (a ≤ b)

/-- The names in a directory, as texts of bytes. -/
def namesIn (m : Machine) (path : String) : List String :=
  ((m.tree.list m.current (Machine.path path)).toOption.getD []).map Bytes.ofText

/-- The entry at a path. -/
def entryOf (m : Machine) (follow : Bool) (path : String) : Except Fault Entry :=
  (m.tree.entryAt m.current follow (Machine.path path)).map (·.2)

/-! ## Directories -/

/-- What is said of an entry in a long list. -/
def details (entry : Entry) : String :=
  let (mode, size) := match entry with
    | .directory => ("drwxr-xr-x", 4096)
    | .file content executable =>
      (if executable then "-rwxr-xr-x" else "-rw-r--r--", content.size)
    | .link target => ("lrwxrwxrwx", target.utf8ByteSize)
  mode ++ " 1 root root " ++ toString size ++ " Jan  1 00:00 "

/-- Write names that lie in a directory, or that are paths if there is none. -/
def sayNames (chosen : List Chosen) (directory : Option String) (names : List String) :
    Action Unit := do
  let m ← get
  let ordered := if Chosen.has 'U' chosen || Chosen.has 'f' chosen then names else inOrder names
  for name in if Chosen.has 'r' chosen then ordered.reverse else ordered do
    let path := (directory.map (· ++ "/" ++ name)).getD name
    let entry := (entryOf m false path).toOption
    let sign := match entry with
      | some .directory => if Chosen.has 'F' chosen || Chosen.has 'p' chosen then "/" else ""
      | some (.file _ true) => if Chosen.has 'F' chosen then "*" else ""
      | some (.link _) => if Chosen.has 'F' chosen && !Chosen.has 'l' chosen then "@" else ""
      | _ => ""
    let front := if Chosen.has 'l' chosen then (entry.map details).getD "" else ""
    let behind := match entry with
      | some (.link target) => if Chosen.has 'l' chosen then " -> " ++ Bytes.ofText target else ""
      | _ => ""
    let shown := if Chosen.has 'Q' chosen then "\"" ++ name ++ "\"" else name
    if Chosen.has 'm' chosen then
      let isFirst := some name == ordered.head?
      say ((if isFirst then "" else ", ") ++ shown ++ sign)
    else say (front ++ shown ++ sign ++ behind ++ "\n")
  if Chosen.has 'm' chosen && !names.isEmpty then say "\n"

/-- Write the names in a directory, and in those below it if asked. `isFirst` is set if nothing
has been written. The number bounds how deep directories lie. -/
def sayDirectory (chosen : List Chosen) (headed : Bool) : Nat → Bool → String → Action Unit
  | 0, _, _ => return ()
  | n + 1, isFirst, path => do
    let m ← get
    if !isFirst then say "\n"
    if headed then say (path ++ ":\n")
    if Chosen.has 'l' chosen then say "total 0\n"
    let hidden := Chosen.has 'a' chosen || Chosen.has 'A' chosen || Chosen.has 'f' chosen
    let dots := if Chosen.has 'a' chosen then [".", ".."] else []
    let names := (namesIn m path).filter fun name => hidden || name.toList.head? != some '.'
    sayNames chosen (some path) (dots ++ names)
    if Chosen.has 'R' chosen then
      for name in inOrder names do
        let below := if path.toList.getLast? == some '/' then path ++ name else path ++ "/" ++ name
        if (entryOf m false below).toOption == some .directory then
          sayDirectory chosen headed n false below

/-- Write the names in directories. -/
def ls (c : Call) : Action Nat :=
  c.read [plain 'a' "all", plain 'A' "almost-all", plain 'd' "directory", plain 'R' "recursive",
      plain 'F' "classify", plain 'p' "", plain 'r' "reverse", plain '1' "", plain 'l' "",
      plain 'U' "", plain 'f' "", plain 'm' "", plain 'Q' "quote-name", plain 't' "", plain 'S' "",
      plain 'C' "", plain 'x' "", plain 'h' "human-readable", plain 'n' "numeric-uid-gid",
      plain 'L' "dereference", plain 'H' "", plain 'g' "", plain 'o' "", plain 'i' "inode",
      plain 's' "size", plain 'N' "literal", plain 'q' "", plain 'b' "escape", plain 'B' "",
      plain 'c' "", plain 'u' "", plain 'v' "", plain 'X' "", plain 'k' "",
      ⟨'Y', "color", false, true⟩] (fun chosen words => do
    let paths := if words.isEmpty then ["."] else words
    let m ← get
    let status ← forEach (fun path => do
      match m.tree.entryAt m.current (Chosen.has 'L' chosen) (Machine.path path) with
      | .ok _ => return 0
      | .error fault =>
        let _ ← c.check "cannot access" path (.error fault)
        return 2) paths
    let found := paths.filter fun path => (entryOf m (Chosen.has 'L' chosen) path).isOk
    let (directories, files) := found.partition fun path =>
      m.tree.isDirectory m.current (Machine.path path) && !Chosen.has 'd' chosen &&
        !(Chosen.has 'l' chosen && (entryOf m false path).toOption != some .directory)
    sayNames chosen none files
    let headed := 1 < paths.length || Chosen.has 'R' chosen
    let directories := if Chosen.has 'U' chosen || Chosen.has 'f' chosen then directories
      else inOrder directories
    let directories := if Chosen.has 'r' chosen then directories.reverse else directories
    for (directory, i) in directories.zipIdx do
      sayDirectory chosen headed 100 (i == 0 && files.isEmpty) directory
    return status) 2

/-! ## Conditions on paths -/

/-- A condition on a path, or what is done with it. -/
inductive Condition where
  | yes
  | no
  | name (pattern : String) (folds : Bool)
  | path (pattern : String)
  | kind (letters : List Char)
  | empty
  | executable
  | newer
  | print (ending : String)
  | delete
  | prune
  | quit
  | each (words : List String)
  | together (words : List String)
  | not (c : Condition)
  | both (a b : Condition)
  | either (a b : Condition)

/-- Something is done with a path, other than leaving what is below it out. -/
def Condition.acts : Condition → Bool
  | print _ | delete | quit | each _ | together _ => true
  | not c => c.acts
  | both a b | either a b => a.acts || b.acts
  | _ => false

/-- The name of a shell pattern matches a text. -/
def fits (folds : Bool) (pattern text : String) : Bool :=
  let lower (cs : List Char) : List Char := if folds then cs.map Char.toLower else cs
  Pattern.fits ((lower pattern.toList).map fun c => (c, false)) (lower text.toList)

/-- How paths are looked for. -/
structure Limits where
  least : Nat := 0
  most : Option Nat := none
  /-- What is in a directory comes before the directory. -/
  deepFirst : Bool := false

/-- What reads conditions, or says what is wrong with them. -/
abbrev Reading := StateT (List String × Limits) (Except String)

/-- The words up to the one that ends a command, whether it ends with a plus, and what follows. -/
def commandWords : List String → Option (List String × Bool × List String)
  | [] => none
  | ";" :: rest => some ([], false, rest)
  | "\x7b\x7d" :: "+" :: rest => some (["\x7b\x7d"], true, rest)
  | word :: rest => (commandWords rest).map fun (words, plus, more) => (word :: words, plus, more)

mutual

/-- Read one condition. -/
def single : Nat → Reading Condition
  | 0 => throw "too many conditions"
  | n + 1 => do
    let (words, limits) ← get
    match words with
    | [] => throw "expected an expression"
    | word :: rest =>
      set (rest, limits)
      let text : Reading String := do
        match rest with
        | [] => throw ("missing argument to \x60" ++ word ++ "'")
        | text :: more =>
          set (more, limits)
          return text
      let limit (f : Nat → Limits) : Reading Condition := do
        let text ← text
        match countOf? text with
        | some k =>
          modify fun s => (s.1, f k)
          return .yes
        | none =>
          throw ("Expected a positive decimal integer argument to " ++ word ++ ", but got " ++
            Quotation.word text)
      let command (f : Bool → List String → Condition) : Reading Condition := do
        match commandWords rest with
        | some (words, plus, more) =>
          set (more, limits)
          return f plus words
        | none => throw ("missing argument to \x60" ++ word ++ "'")
      match word with
      | "(" =>
        let c ← disjunction n
        let (words, limits) ← get
        match words with
        | ")" :: rest =>
          set (rest, limits)
          return c
        | _ => throw "invalid expression; I was expecting to find a ')' somewhere but did not see one."
      | "!" | "-not" => return .not (← single n)
      | "-name" => return .name (← text) false
      | "-iname" => return .name (← text) true
      | "-path" | "-wholename" => return .path (← text)
      | "-type" | "-xtype" =>
        let text ← text
        match text.toList.find? fun c => !"bcdpflsD,".toList.contains c with
        | some c => throw ("Unknown argument to " ++ word ++ ": " ++ String.singleton c)
        | none => return .kind text.toList
      | "-empty" => return .empty
      | "-executable" => return .executable
      | "-newer" | "-size" | "-mtime" | "-mmin" | "-perm" | "-user" | "-group" =>
        let _ ← text
        return .newer
      | "-true" => return .yes
      | "-false" => return .no
      | "-print" => return .print "\n"
      | "-print0" => return .print "\x00"
      | "-delete" =>
        modify fun s => (s.1, { s.2 with deepFirst := true })
        return .delete
      | "-prune" => return .prune
      | "-quit" => return .quit
      | "-depth" | "-d" =>
        modify fun s => (s.1, { s.2 with deepFirst := true })
        return .yes
      | "-maxdepth" => limit fun k => { limits with most := some k }
      | "-mindepth" => limit fun k => { limits with least := k }
      | "-follow" | "-mount" | "-xdev" | "-noleaf" => return .yes
      | "-exec" | "-execdir" | "-ok" =>
        command fun plus words => if plus then .together words else .each words
      | _ =>
        if word.toList.head? == some '-' then throw ("unknown predicate \x60" ++ word ++ "'")
        else throw ("paths must precede expression: \x60" ++ word ++ "'")

/-- Read conditions that are all to hold. -/
def conjunction : Nat → Reading Condition
  | 0 => throw "too many conditions"
  | n + 1 => do
    let first ← single n
    let (words, limits) ← get
    match words with
    | "-a" :: rest | "-and" :: rest =>
      set (rest, limits)
      return .both first (← conjunction n)
    | [] | "-o" :: _ | "-or" :: _ | ")" :: _ => return first
    | _ => return .both first (← conjunction n)

/-- Read conditions of which one is to hold. -/
def disjunction : Nat → Reading Condition
  | 0 => throw "too many conditions"
  | n + 1 => do
    let first ← conjunction n
    let (words, limits) ← get
    match words with
    | "-o" :: rest | "-or" :: rest =>
      set (rest, limits)
      return .either first (← disjunction n)
    | _ => return first

end

/-! ## Walking -/

/-- What has come of a walk. -/
structure Walk where
  status : Nat := 0
  stopped : Bool := false
  /-- What is below the path at hand is left out. -/
  pruned : Bool := false
  /-- The paths that commands are to be run with, the last one first. -/
  kept : List String := []

/-- What is done on a walk. -/
abbrev Walking := StateT Walk Action

/-- The command with a path in the place of braces. -/
def withPath (words : List String) (path : String) : List String :=
  words.map fun word =>
    if word == "\x7b\x7d" then path else path.intercalate (word.splitOn "\x7b\x7d")

/-- Run a command; gives whether it succeeded. -/
def run (c : Call) (words : List String) : Walking Bool := do
  match words with
  | [] => return true
  | name :: arguments =>
    let _ ← (flush : Action Bool)
    match ← (c.start name arguments : Action (Except Fault Nat)) with
    | .ok status => return status == 0
    | .error fault =>
      c.complain (Quotation.word name ++ ": " ++ fault.words)
      return false

/-- Find out whether a condition holds for a path. -/
def holds (c : Call) (path : String) (entry : Entry) : Condition → Walking Bool
  | .yes | .newer => return true
  | .no => return false
  | .name pattern folds => return fits folds pattern (Names.lastName path)
  | .path pattern => return fits false pattern path
  | .kind letters =>
    let letter := match entry with
      | .directory => 'd'
      | .file _ _ => 'f'
      | .link _ => 'l'
    return letters.contains letter
  | .empty =>
    match entry with
    | .directory => return (namesIn (← getThe Machine) path).isEmpty
    | .file content _ => return content.isEmpty
    | .link _ => return false
  | .executable =>
    match entry with
    | .file _ executable => return executable
    | _ => return true
  | .print ending => do
    (say (path ++ ending) : Action Unit)
    return true
  | .delete => do
    let known := Machine.path path
    let result ← (if entry == .directory then
        change fun t current => t.removeDirectory current known
      else change fun t current => t.removeFile current known : Action _)
    match result with
    | .ok () => return true
    | .error fault =>
      c.complain ("cannot delete " ++ Quotation.word path ++ ": " ++ fault.words)
      modify fun w => { w with status := 1 }
      return false
  | .prune => do
    modify fun w => { w with pruned := true }
    return true
  | .quit => do
    modify fun w => { w with stopped := true }
    return true
  | .each words => run c (withPath words path)
  | .together _ => do
    modify fun w => { w with kept := path :: w.kept }
    return true
  | .not a => return !(← holds c path entry a)
  | .both a b => do if ← holds c path entry a then holds c path entry b else return false
  | .either a b => do if ← holds c path entry a then return true else holds c path entry b

/-- Walk over a path and what is below it. The number bounds how deep that is. -/
def walk (c : Call) (limits : Limits) (condition : Condition) :
    Nat → Nat → String → Entry → Walking Unit
  | 0, _, _, _ => return ()
  | n + 1, depth, path, entry => do
    if (← get).stopped then return
    let visit : Walking Unit := do
      if limits.least ≤ depth then
        let _ ← holds c path entry condition
    modify fun w => { w with pruned := false }
    if !limits.deepFirst then visit
    let w ← get
    if entry == .directory && !w.pruned && !w.stopped && limits.most.all (depth < ·) then
      for name in namesIn (← getThe Machine) path do
        let below := if path.toList.getLast? == some '/' then path ++ name else path ++ "/" ++ name
        if let .ok entry := entryOf (← getThe Machine) false below then
          walk c limits condition n (depth + 1) below entry
    if limits.deepFirst && !(← get).stopped then visit

/-- The commands that are to be run with all paths. -/
def commandsTogether : Condition → List (List String)
  | .together words => [words]
  | .not a => commandsTogether a
  | .both a b | .either a b => commandsTogether a ++ commandsTogether b
  | _ => []

/-- Look for paths for which conditions hold. -/
def find (c : Call) : Action Nat := do
  let words := c.arguments.dropWhile fun word => ["-H", "-L", "-P"].contains word
  let starts := words.takeWhile fun word =>
    !(word.toList.head? == some '-' && 1 < word.length) && word != "(" && word != "!"
  let tests := words.drop starts.length
  let read : Except String (Condition × List String × Limits) :=
    if tests.isEmpty then .ok (.yes, [], {})
    else ((disjunction (4 * tests.length + 4)).run (tests, {}))
  match read with
  | .error message => c.refuse message
  | .ok (_, word :: _, _) =>
    if word == ")" then
      c.refuse "invalid expression; you have too many ')'"
    else c.refuse ("paths must precede expression: \x60" ++ word ++ "'")
  | .ok (condition, [], limits) =>
    let condition := if condition.acts then condition else .both condition (.print "\n")
    let ((), w) ← (walkAll limits condition (if starts.isEmpty then ["."] else starts)).run {}
    let status ← forEach (fun words => do
      if w.kept.isEmpty then return 0
      let _ ← flush
      let words := words.dropLast ++ w.kept.reverse
      match words with
      | [] => return 0
      | name :: arguments =>
        match ← c.start name arguments with
        | .ok status => return if status == 0 then 0 else 1
        | .error fault => c.refuse (Quotation.word name ++ ": " ++ fault.words))
      (commandsTogether condition)
    return max status w.status
where
  walkAll (limits : Limits) (condition : Condition) : List String → Walking Unit
    | [] => return ()
    | path :: rest => do
      match entryOf (← getThe Machine) false path with
      | .ok entry => walk c limits condition 100 0 path entry
      | .error fault =>
        c.complain (Quotation.word path ++ ": " ++ fault.words)
        modify fun w => { w with status := 1 }
      walkAll limits condition rest

end EmbeddedSolidity.Utility.Listing
