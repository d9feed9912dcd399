import EmbeddedSolidity.Error

/-!
# Snippets

A snippet is a Solidity text with something to compile: at least one character that is not
blank.

* `Snippet.ofText` : the snippet of a text, or the error of a blank one.
-/

namespace EmbeddedSolidity

/-- A text with something to compile. -/
structure Snippet where
  text : String
  not_blank : Text.isBlank text = false

namespace Snippet

/-- The name of a snippet. -/
def id (s : Snippet) : Id :=
  .ofText s.text

/-- The error of a blank text. -/
def blankError (text : String) : Error :=
  .input (.ofText text) "embedded Solidity snippet must contain source text"

/-- The snippet of a text, unless it is blank. -/
def ofText (text : String) : Except Error Snippet :=
  if h : Text.isBlank text = true then .error (blankError text)
  else .ok ⟨text, by simpa using h⟩

theorem ofText_of_blank {text : String} (h : Text.isBlank text = true) :
    ofText text = .error (blankError text) := by
  simp [ofText, h]

theorem ofText_text (s : Snippet) : ofText s.text = .ok s := by
  simp [ofText, s.not_blank]

end Snippet

end EmbeddedSolidity
