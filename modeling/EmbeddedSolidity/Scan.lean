import EmbeddedSolidity.Grammar.File
import EmbeddedSolidity.Report.Basic
import EmbeddedSolidity.Source.Lexer
import EmbeddedSolidity.Source.Position

/-!
# Scanning

Finding the snippets of a source file. A snippet is the string in an invocation of the macro
`sol`, which may be written with the path of its library. With that path an invocation whose
body is not a single string is rejected; without it the macro may be another one of that name,
and the invocation is passed over.

Other invocations are searched if their body is a list of expressions.

* `Scan.ofSource` : the snippets and rejections of a source text.
-/

namespace EmbeddedSolidity

open Grammar (Invocation)
open Source (Tree Position sizes)

/-- A snippet in a source file. -/
structure FoundSnippet where
  text : String
  location : Location
deriving DecidableEq, Repr

/-- The snippets of a source file and the invocations that should have held one, each in the
order in which they were found. -/
structure Scan where
  snippets : List FoundSnippet := []
  rejected : List Diagnostic := []
deriving DecidableEq, Repr

/-- How an invocation names the macro. -/
inductive Naming where
  | bare
  | qualified
deriving DecidableEq, Repr

namespace Scan

/-- The paths of the macro. -/
def naming? : List String → Option Naming
  | ["sol"] => some .bare
  | ["inline_sol", "sol"] => some .qualified
  | ["inline_sol", "prelude", "sol"] => some .qualified
  | _ => none

/-- The invocation itself if it names the macro, and otherwise what `search` finds in its
body. -/
def ownOr (search : Invocation → List (Naming × Invocation)) (i : Invocation) :
    List (Naming × Invocation) :=
  match naming? i.path with
  | some naming => [(naming, i)]
  | none => search i

/-- The invocations of the macro among invocations, with those in the bodies of others. The
first argument bounds how deeply bodies are searched. -/
def reachable : Nat → List Invocation → List (Naming × Invocation)
  | 0, found => found.flatMap (ownOr fun _ => [])
  | depth + 1, found =>
    found.flatMap <| ownOr fun i =>
      reachable depth ((Grammar.invocationsInside? i.body).getD [])

/-- The place of an invocation. -/
def locationOf (file : String) (source : List Char) (i : Invocation) : Location :=
  let p := Position.before source i.place
  ⟨file, p.line, p.column + 1⟩

/-- Add what an invocation of the macro holds. -/
def add (file : String) (source : List Char) (s : Scan) : Naming × Invocation → Scan
  | (naming, i) =>
    let location := locationOf file source i
    match Grammar.stringOf i.body, naming with
    | .ok text, _ => { s with snippets := s.snippets ++ [⟨String.ofList text, location⟩] }
    | .error _, .bare => s
    | .error message, .qualified =>
      { s with
        rejected := s.rejected ++
          [.located location (.scan file ("sol! expects a single string literal: " ++ message))] }

/-- Scan a source text; the name of its file is used only in places and messages. -/
def ofSource (file : String) (source : String) : Except Error Scan :=
  match Source.trees? source.toList with
  | none => .error (.scan file Source.unreadable)
  | some trees =>
    match Grammar.invocations trees with
    | .error message => .error (.scan file message)
    | .ok found =>
      .ok ((reachable (sizes trees) found).foldl (add file source.toList) {})

end Scan

end EmbeddedSolidity
