import EmbeddedSolidity.Text.Lines

/-!
# The manifest of a workspace

The five lines that tell the compiler where sources and artifacts are and which version of the
language to use, and the test by which a workspace is known again.

* `Manifest.render` : the text of a manifest;
* `Manifest.isGenerated` : the text begins like a manifest and names the project of this library.
-/

namespace EmbeddedSolidity

/-- The fields of a manifest. -/
structure Manifest where
  name : String
  src : String
  out : String
  solc : String
deriving DecidableEq, Repr

namespace Manifest

/-- The file of the manifest in a workspace. -/
def fileName : String :=
  "foundry.toml"

/-- The name of every project that this library makes. -/
def projectName : String :=
  "inline-sol-forge-project"

/-- The version of the language where none is chosen. -/
def defaultSolc : String :=
  "0.8.17"

/-- The directory of the sources in a workspace. -/
def sourceDirectory : String :=
  "src"

/-- The directory of the artifacts in a workspace. -/
def outputDirectory : String :=
  "dist"

/-- The manifest of a workspace for a version of the language. -/
def ofVersion (solc : String) : Manifest :=
  ⟨projectName, sourceDirectory, outputDirectory, solc⟩

/-- The line that begins a manifest. -/
def header : String :=
  "[project]\n"

/-- A line that gives a key its value. -/
def assignment (key value : String) : String :=
  key ++ " = \"" ++ value ++ "\""

/-- The text of a manifest. -/
def render (m : Manifest) : String :=
  header ++ assignment "name" m.name ++ "\n" ++ assignment "src" m.src ++ "\n" ++
    assignment "out" m.out ++ "\n" ++ assignment "solc" m.solc ++ "\n"

/-- The text begins with the header, and one of its lines, trimmed, is the name of the project. -/
def isGenerated (text : String) : Bool :=
  header.toList.isPrefixOf text.toList &&
    (Text.lines text).any fun line => Text.trim line == assignment "name" projectName

end Manifest

end EmbeddedSolidity
