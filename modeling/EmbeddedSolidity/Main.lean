import EmbeddedSolidity.CommandLine.Run
import EmbeddedSolidity.FileSystem.Search

/-!
# The program

The command line on the machine at hand. Files are those of the machine. Starting programs is
left to hosts that bring compilers of their own; here no compiler starts.
-/

namespace EmbeddedSolidity.Main

open FileSystem (Fault)
open FileSystem.FileTree (Kind)

/-- The code of an error; some are given with a sign. -/
def errorCode : IO.Error → UInt32
  | .noFileOrDirectory _ code _ | .interrupted _ code _ => code
  | .alreadyExists _ code _ | .invalidArgument _ code _ | .permissionDenied _ code _
  | .resourceExhausted _ code _ | .inappropriateType _ code _ | .noSuchThing _ code _ => code
  | .otherError code _ | .resourceBusy code _ | .resourceVanished code _
  | .unsupportedOperation code _ | .hardwareFault code _ | .unsatisfiedConstraints code _
  | .illegalOperation code _ | .protocolError code _ | .timeExpired code _ => code
  | .unexpectedEof | .userError _ => 0

/-- The number of an error. -/
def errorNumber (e : IO.Error) : Nat :=
  (errorCode e).toInt32.toInt.natAbs

/-- The faults that have numbers. -/
def numberedFaults : List Fault :=
  [.notFound, .badFormat, .denied, .busy, .exists, .notDirectory, .isDirectory, .invalid,
    .nameTooLong, .notEmpty, .tooManyLinks]

/-- The fault that an error stands for. -/
def faultOf (e : IO.Error) : Fault :=
  (numberedFaults.find? (·.number? == some (errorNumber e))).getD .denied

/-- Do something, and give its fault if it fails. -/
def attempt {α : Type} (action : IO α) : IO (Except Fault α) := do
  try
    return .ok (← action)
  catch e =>
    return .error (faultOf e)

/-- The kind of what is at a path. -/
def kind (path : String) : IO Kind := do
  match (← ((← IO.currentDir) / path).symlinkMetadata).type with
  | .dir => return .directory
  | .symlink => return .link
  | _ => return .file

/-- The names in a directory. -/
def names (path : String) : IO (List String) := do
  let entries ← ((← IO.currentDir) / path).readDir
  return entries.toList.map (·.fileName)

/-- The path leads to a directory. -/
def isDirectory (path : String) : IO Bool := do
  ((← IO.currentDir) / path).isDir

/-- The path of the program of a name. -/
def locate (name : String) : IO (Option String) := do
  let search := ((← IO.getEnv "PATH").getD "").splitOn ":"
  let current := FileSystem.namesOf (← IO.currentDir).toString
  for path in FileSystem.FileTree.candidates current search name do
    let place := (← IO.currentDir) / path
    if (← place.pathExists) && !(← place.isDir) then return some path
  return none

/-- Answer a call on the machine at hand. -/
def answer : (c : Call) → IO c.Answer
  | .kind path => attempt (kind path)
  | .isDirectory path => isDirectory path
  | .list path => attempt (names path)
  | .read path => attempt (IO.FS.readBinFile path)
  | .write path content => attempt (IO.FS.writeBinFile path content)
  | .makeDirectories path => attempt (IO.FS.createDirAll path)
  | .removeFile path => attempt (IO.FS.removeFile path)
  | .removeTree path => attempt (IO.FS.removeDirAll path)
  | .locate name => locate name
  | .execute _ _ _ => return .error .denied

/-- Carry out a plan on the machine at hand. -/
def perform {α : Type} : Plan α → IO α
  | .done a => return a
  | .ask c next => do perform (next (← answer c))

/-- Hundredths of a second as text. -/
def seconds (hundredths : Nat) : String :=
  let rest := toString (hundredths % 100)
  toString (hundredths / 100) ++ "." ++ (if rest.length < 2 then "0" ++ rest else rest) ++ "s"

end EmbeddedSolidity.Main

open EmbeddedSolidity in
/-- Run the command line. -/
def main (words : List String) : IO UInt32 := do
  let start ← IO.monoMsNow
  let temporary := (← IO.getEnv "TMPDIR").getD "/tmp"
  let transcript ← Main.perform (CommandLine.runWords temporary words)
  let elapsed := Main.seconds (((← IO.monoMsNow) - start + 5) / 10)
  (← IO.getStdout).putStr (transcript.outputWith elapsed)
  (← IO.getStderr).putStr transcript.errors
  return transcript.status.toUInt32
