import EmbeddedSolidity.Plan.Basic
import EmbeddedSolidity.Scan

/-!
# Scanners

A scanner scans one source after the other. It is in one file at a time, and notes what it finds
there; what it has noted is handed over when the source is done, and dropped when the next one
begins.

* `Scanner.scanText`, `Scanner.scanFile` : the scan of a source, and the scanner behind it;
* `Scanner.scanAll` : the scans of sources, one after the other.
-/

namespace EmbeddedSolidity

open Grammar (Invocation)
open Source (sizes)

/-- The file that a scanner is in, and what it has noted. -/
structure Scanner where
  file : String := ""
  noted : Scan := {}
deriving DecidableEq, Repr

namespace Scanner

/-- Note an invocation of the macro, at its place in the file that the scanner is in. -/
def note (source : List Char) (s : Scanner) (v : Naming × Invocation) : Scanner :=
  { s with noted := Scan.add s.file source s.noted v }

/-- Note an invocation if it names the macro, and otherwise `search` it. -/
def noteOr (source : List Char) (search : Invocation → Scanner → Scanner) (s : Scanner)
    (i : Invocation) : Scanner :=
  match Scan.naming? i.path with
  | some naming => s.note source (naming, i)
  | none => search i s

/-- Visit invocations in order; the bodies of other macros are searched on the way. The second
argument bounds how deeply bodies are searched. -/
def visit (source : List Char) : Nat → List Invocation → Scanner → Scanner
  | 0, found, s => found.foldl (noteOr source fun _ s => s) s
  | depth + 1, found, s =>
    found.foldl
      (noteOr source fun i s => visit source depth ((Grammar.invocationsInside? i.body).getD []) s) s

/-- Scan a source text; the name of its file is used only in places and messages. -/
def scanText (s : Scanner) (file source : String) : Except Error Scan × Scanner :=
  let s : Scanner := { s with file, noted := {} }
  match Source.trees? source.toList with
  | none => (.error (.scan file Source.unreadable), s)
  | some trees =>
    match Grammar.invocations trees with
    | .error message => (.error (.scan file message), s)
    | .ok found =>
      let s := visit source.toList (sizes trees) found s
      (.ok s.noted, { s with noted := {} })

/-- Read and scan a source file. A file that cannot be read leaves the scanner as it is. -/
def scanFile (s : Scanner) (file : String) : Plan (Except Error Scan × Scanner) := do
  match ← Plan.readText file with
  | .ok source => return s.scanText file source
  | .error f => return (.error (.scan file f.text), s)

/-- What a scanner is given. -/
inductive Input where
  | text (file source : String)
  | file (path : String)
deriving DecidableEq, Repr

/-- Scan a text or a file. -/
def scan (s : Scanner) : Input → Plan (Except Error Scan × Scanner)
  | .text file source => return s.scanText file source
  | .file path => s.scanFile path

/-- Scan one input after the other. -/
def scanAll : Scanner → List Input → Plan (List (Except Error Scan) × Scanner)
  | s, [] => return ([], s)
  | s, input :: rest => do
    let (result, s) ← s.scan input
    let (results, s) ← s.scanAll rest
    return (result :: results, s)

end Scanner

end EmbeddedSolidity
