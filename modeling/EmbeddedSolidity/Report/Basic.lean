import EmbeddedSolidity.Artifact.Basic

/-!
# Reports

What a run produced: the artifacts in the order in which their snippets were met, and every
failure in the order in which it happened, each with the place in a source file that it belongs
to, if there is one.

* `Report.isSuccess`, `Report.fatal?`, `Report.summary`;
* `Report.distinct` : one artifact for each name, in the order of the names.
-/

namespace EmbeddedSolidity

/-- A place in a source file; lines and columns count from one. -/
structure Location where
  file : String
  line : Nat
  column : Nat
deriving DecidableEq, Repr

/-- The text of a place. -/
def Location.text (l : Location) : String :=
  l.file ++ ":" ++ toString l.line ++ ":" ++ toString l.column

/-- A failure and the place it belongs to; failures of the whole run have none. -/
structure Diagnostic where
  location : Option Location
  error : Error
deriving DecidableEq, Repr

namespace Diagnostic

/-- A failure at a place. -/
def located (location : Location) (error : Error) : Diagnostic :=
  ⟨some location, error⟩

/-- A failure of the whole run. -/
def ofRun (error : Error) : Diagnostic :=
  ⟨none, error⟩

/-- The text of a failure with its place and its way out. -/
def text (d : Diagnostic) : String :=
  match d.location with
  | some l => l.text ++ ": " ++ d.error.withHint
  | none => d.error.withHint

end Diagnostic

/-- The artifact of a snippet. -/
structure Compiled where
  id : Snippet.Id
  artifact : Artifact
deriving Repr

/-- An artifact and the place of its snippet. -/
structure LocatedArtifact where
  location : Location
  compiled : Compiled
deriving Repr

/-- What a run produced. -/
structure Report where
  artifacts : List LocatedArtifact := []
  diagnostics : List Diagnostic := []
deriving Repr

namespace Report

/-- Add an artifact. -/
def addArtifact (r : Report) (location : Location) (compiled : Compiled) : Report :=
  { r with artifacts := r.artifacts ++ [⟨location, compiled⟩] }

/-- Add a failure. -/
def addDiagnostic (r : Report) (d : Diagnostic) : Report :=
  { r with diagnostics := r.diagnostics ++ [d] }

/-- Nothing failed. -/
def isSuccess (r : Report) : Bool :=
  r.diagnostics.isEmpty

/-- The first failure that ends a run. -/
def fatal? (r : Report) : Option Error :=
  (r.diagnostics.map (·.error)).find? Error.isFatal

/-- The texts of all failures, joined by line feeds. -/
def summary (r : Report) : String :=
  "\n".intercalate (r.diagnostics.map Diagnostic.text)

/-- The last artifact of each name, in the order of the names. -/
def distinct (r : Report) : List (String × Artifact) :=
  r.artifacts.foldl (fun found e => Json.putMember e.compiled.id.name e.compiled.artifact found) []

end Report

end EmbeddedSolidity
