import EmbeddedSolidity.Digest.Sha256

/-!
# Snippet identity

A snippet is named by its content: the tag `SolSnippet_` and the first eight hexadecimal digits
of the SHA-256 digest of its text. The names of its files follow from the name.

* `Snippet.Id.ofText` : the name of a text.
-/

namespace EmbeddedSolidity.Snippet

/-- The name of a snippet. -/
structure Id where
  name : String
deriving DecidableEq, Repr

namespace Id

/-- What every name begins with. -/
def tag : String :=
  "SolSnippet_"

/-- The digits of a name: the first word of the digest. -/
def digits (text : String) : List Char :=
  Digest.hexOfWord (Digest.sha256 text.toUTF8).a

/-- The name of a text. -/
def ofText (text : String) : Id :=
  ⟨tag ++ String.ofList (digits text)⟩

/-- The file that holds the text for the compiler. -/
def sourceFile (id : Id) : String :=
  id.name ++ ".sol"

/-- The file that holds the artifact. -/
def artifactFile (id : Id) : String :=
  id.name ++ ".json"

end Id

end EmbeddedSolidity.Snippet
