import EmbeddedSolidity.Shell.Machine
import EmbeddedSolidity.Shell.Program

/-!
# Redirections

Streams are led elsewhere: to files, which are made where they are missing, to other streams, and
to texts.

* `redirectTo` : let a stream lead elsewhere.
-/

namespace EmbeddedSolidity.Shell

open FileSystem (Fault FileTree Place)

/-- A redirection with its target. -/
structure Redirection where
  stream : Nat
  use : RedirectUse
  target : String

/-- The complaint about a file that does not open. -/
def openFault (creating : Bool) (path : String) (fault : Fault) : String :=
  let words :=
    if fault == .notFound || fault == .notDirectory then
      if creating then "Directory nonexistent" else "No such file"
    else fault.words
  "cannot " ++ (if creating then "create " else "open ") ++ path ++ ": " ++ words

/-- The stream that a path of the directory of devices names. -/
def deviceStream? (path : String) : Option Nat :=
  match path with
  | "/dev/stdin" => some 0
  | "/dev/stdout" => some 1
  | "/dev/stderr" => some 2
  | _ =>
    match Path.parts path with
    | ["dev", "fd", n] => n.toNat?
    | _ => none

/-- Open the place of a file. -/
def openPlace (place : Place) (atEnd : Bool) : Action Nat :=
  if place == Program.nothing then openNew { target := .nothing }
  else openNew { target := .file place, atEnd }

/-- Open a file to be read. -/
def openToRead (path : String) : Action (Except Fault Nat) := do
  let m ← get
  match m.tree.entryAt m.current true (Machine.path path) with
  | .ok (place, .file _ _) => return .ok (← openPlace place false)
  | .ok _ => return .ok (← openNew { target := .directory, writable := false })
  | .error fault => return .error fault

/-- Open a file to be written, which is made if it is missing, and is emptied if that is asked
for. -/
def openToWrite (path : String) (empties atEnd : Bool) : Action (Except Fault Nat) := do
  let m ← get
  let known := Machine.path path
  match m.tree.resolve m.current true known with
  | .ok (.entry place (.file content executable)) =>
    if empties && !content.isEmpty then
      set { m with tree := m.tree.put place (.file ByteArray.empty executable) }
    return .ok (← openPlace place atEnd)
  | _ =>
    match m.tree.write m.current known ByteArray.empty with
    | .error fault => return .error fault
    | .ok tree =>
      set { m with tree }
      match tree.entryAt m.current true known with
      | .ok (place, _) => return .ok (← openPlace place atEnd)
      | .error fault => return .error fault

/-- Open what a path names, which may be a stream. -/
def openPath (path : String) (otherwise : Action (Except Fault Nat)) :
    Action (Except Fault Nat) := do
  match deviceStream? path with
  | some n =>
    match (← get).openFile? n with
    | some (number, file) =>
      match file.target with
      | .file place => return .ok (← openPlace place false)
      | _ => return .ok number
    | none => return .error .notFound
  | none => otherwise

/-- Open the target of a redirection; `none` closes the stream. -/
def openTarget (r : Redirection) : Action (Except String (Option Nat)) := do
  let opened (creating : Bool) (result : Except Fault Nat) : Except String (Option Nat) :=
    match result with
    | .ok number => .ok (some number)
    | .error fault => .error (openFault creating r.target fault)
  match r.use with
  | .read => return opened false (← openPath r.target (openToRead r.target))
  | .readWrite => return opened true (← openPath r.target (openToWrite r.target false false))
  | .append => return opened true (← openPath r.target (openToWrite r.target false true))
  | .overwrite => return opened true (← openPath r.target (openToWrite r.target true false))
  | .write =>
    let m ← get
    let isThere :=
      match m.tree.entryAt m.current true (Machine.path r.target) with
      | .ok (place, .file _ _) => place != Program.nothing
      | _ => false
    if isThere && m.settings.contains 'C' then return opened true (.error .exists)
    return opened true (← openPath r.target (openToWrite r.target true false))
  | .here =>
    let (_, number) ← openBuffer (Bytes.write r.target)
    return .ok (some number)
  | .duplicate =>
    if r.target == "-" then return .ok none
    let m ← get
    match r.target.toNat?.bind fun n => m.streams.lookup n with
    | some number => return .ok (some number)
    | none => return .error (r.target ++ ": Bad file descriptor")

/-- Let a stream lead elsewhere; tells whether that was possible. -/
def redirectTo (r : Redirection) : Action Bool := do
  match ← openTarget r with
  | .ok (some number) =>
    connect r.stream number
    return true
  | .ok none =>
    disconnect r.stream
    return true
  | .error message =>
    complainHere message
    return false

/-- Let streams lead elsewhere, in order, as long as that is possible. -/
def redirectAll : List Redirection → Action Bool
  | [] => return true
  | r :: rest => do if ← redirectTo r then redirectAll rest else return false

end EmbeddedSolidity.Shell
