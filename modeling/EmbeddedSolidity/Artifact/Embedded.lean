import EmbeddedSolidity.Artifact.Basic

/-!
# Embedded artifacts

An artifact that a program carries as text, with the name of its snippet. The text is read when
the artifact is asked for.
-/

namespace EmbeddedSolidity

/-- A name and the text of an artifact. -/
structure EmbeddedArtifact where
  id : String
  json : String
deriving DecidableEq, Repr

namespace EmbeddedArtifact

/-- The artifact in the text. -/
def artifact (e : EmbeddedArtifact) : Except Json.Error Artifact :=
  Artifact.readDirect e.json

/-- The compiled code in the text. -/
def bytecodeObject (e : EmbeddedArtifact) : Except Json.Error String :=
  e.artifact.map (·.bytecode.object)

end EmbeddedArtifact

end EmbeddedSolidity
