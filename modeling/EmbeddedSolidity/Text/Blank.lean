/-!
# Blank text

A character is blank if it has the Unicode property `White_Space`. A text is blank if all its
characters are; trimming removes the blank characters at both ends.

* `trim_eq_empty_iff` : trimming leaves nothing exactly of a blank text.
-/

namespace EmbeddedSolidity.Text

/-- The Unicode property `White_Space`. -/
def isBlankChar (c : Char) : Bool :=
  let n := c.toNat
  (9 ≤ n && n ≤ 13) || n == 0x20 || n == 0x85 || n == 0xA0 || n == 0x1680 ||
    (0x2000 ≤ n && n ≤ 0x200A) || n == 0x2028 || n == 0x2029 || n == 0x202F || n == 0x205F ||
    n == 0x3000

/-- Drop the blank characters at the front. -/
def trimStartChars (cs : List Char) : List Char :=
  cs.dropWhile isBlankChar

/-- Drop the blank characters at both ends. -/
def trimChars (cs : List Char) : List Char :=
  (trimStartChars (trimStartChars cs).reverse).reverse

/-- Drop the blank characters at both ends of a text. -/
def trim (s : String) : String :=
  String.ofList (trimChars s.toList)

/-- The text has no character that is not blank. -/
def isBlank (s : String) : Bool :=
  s.toList.all isBlankChar

theorem isBlankChar_of_isWhitespace {c : Char} (h : c.isWhitespace = true) :
    isBlankChar c = true := by
  simp only [Char.isWhitespace, Bool.or_eq_true, decide_eq_true_eq] at h
  rcases h with ((rfl | rfl) | rfl) | rfl <;> decide

theorem dropWhile_eq_nil_iff {p : Char → Bool} {cs : List Char} :
    cs.dropWhile p = [] ↔ cs.all p = true := by
  induction cs with
  | nil => simp
  | cons c cs ih =>
    by_cases h : p c = true
    · simp [h, ih]
    · simp [h]

theorem trimChars_eq_nil_iff {cs : List Char} :
    trimChars cs = [] ↔ cs.all isBlankChar = true := by
  simp only [trimChars, trimStartChars, List.reverse_eq_nil_iff, dropWhile_eq_nil_iff,
    List.all_reverse]
  constructor
  · intro h
    have split := List.takeWhile_append_dropWhile (p := isBlankChar) (l := cs)
    rw [← split, List.all_append, h, Bool.and_true]
    exact List.all_takeWhile
  · intro h
    rw [dropWhile_eq_nil_iff.2 h]
    rfl

/-- Trimming leaves nothing exactly of a blank text. -/
theorem trim_eq_empty_iff {s : String} : trim s = "" ↔ isBlank s = true := by
  rw [isBlank, ← trimChars_eq_nil_iff, trim]
  constructor
  · intro h
    have := congrArg String.toList h
    simpa using this
  · intro h
    simp [h]

end EmbeddedSolidity.Text
