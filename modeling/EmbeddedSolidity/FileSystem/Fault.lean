/-!
# Faults of the file system

Why an operation on files failed, with the words and the number that messages give.
-/

namespace EmbeddedSolidity.FileSystem

/-- Why an operation failed. -/
inductive Fault where
  | notFound
  | badFormat
  | denied
  | busy
  | exists
  | notDirectory
  | isDirectory
  | invalid
  | nameTooLong
  | notEmpty
  | tooManyLinks
  /-- A path holds a NUL character. -/
  | nulInPath
  /-- The bytes of a file are no text. -/
  | notText
deriving DecidableEq, Repr

/-- The words for a fault. -/
def Fault.words : Fault → String
  | notFound => "No such file or directory"
  | badFormat => "Exec format error"
  | denied => "Permission denied"
  | busy => "Device or resource busy"
  | .exists => "File exists"
  | notDirectory => "Not a directory"
  | isDirectory => "Is a directory"
  | invalid => "Invalid argument"
  | nameTooLong => "File name too long"
  | notEmpty => "Directory not empty"
  | tooManyLinks => "Too many levels of symbolic links"
  | nulInPath => "file name contained an unexpected NUL byte"
  | notText => "stream did not contain valid UTF-8"

/-- The number of a fault that the machine reports. -/
def Fault.number? : Fault → Option Nat
  | notFound => some 2
  | badFormat => some 8
  | denied => some 13
  | busy => some 16
  | .exists => some 17
  | notDirectory => some 20
  | isDirectory => some 21
  | invalid => some 22
  | nameTooLong => some 36
  | notEmpty => some 39
  | tooManyLinks => some 40
  | nulInPath | notText => none

/-- The words for a fault with its number. -/
def Fault.text (f : Fault) : String :=
  match f.number? with
  | some n => f.words ++ " (os error " ++ toString n ++ ")"
  | none => f.words

end EmbeddedSolidity.FileSystem
