import EmbeddedSolidity.Manifest
import EmbeddedSolidity.Path
import EmbeddedSolidity.Snippet.Id

/-!
# The layout of a workspace

Where things are in the directory that the compiler works in. Each snippet has a source file and
an artifact of its own, named by its content.
-/

namespace EmbeddedSolidity

/-- A directory that the compiler works in. -/
structure Workspace where
  root : String
deriving DecidableEq, Repr

namespace Workspace

/-- The manifest. -/
def manifestPath (w : Workspace) : String :=
  Path.join w.root Manifest.fileName

/-- The directory of the sources. -/
def sourceDirectory (w : Workspace) : String :=
  Path.join w.root Manifest.sourceDirectory

/-- The directory that the compiler writes artifacts to. -/
def outputDirectory (w : Workspace) : String :=
  Path.join w.root Manifest.outputDirectory

/-- The source file of a snippet. -/
def sourcePath (w : Workspace) (id : Snippet.Id) : String :=
  Path.join w.sourceDirectory id.sourceFile

/-- The artifact of a snippet, in a directory named like its source file. -/
def artifactPath (w : Workspace) (id : Snippet.Id) : String :=
  Path.join (Path.join w.outputDirectory id.sourceFile) id.artifactFile

end Workspace

end EmbeddedSolidity
