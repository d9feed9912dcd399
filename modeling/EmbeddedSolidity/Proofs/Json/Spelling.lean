import EmbeddedSolidity.Json.Printer
import Mathlib.Tactic.SplitIfs

/-!
# How strings and numbers are spelled

A character of a string has many spellings in JSON : itself, an escape by one letter, an escape by
the four hexadecimal digits of its code in either case, or two such escapes for the halves of a
surrogate pair. A natural number has one. The spellings are told here without a reader or a printer.

* `CharSpelled`, `StringSpelled` : the spellings of a character and of a string;
* `NaturalSpelled` : the spelling of a natural number;
* `stringSpelled_stringChars` : what the printer writes for a string is a spelling of it.
-/

namespace EmbeddedSolidity.Json

/-! ## Strings -/

/-- A hexadecimal digit of either case, and its value. -/
def HexDigit (n : Nat) (c : Char) : Prop :=
  "0123456789abcdef".toList[n]? = some c ∨ "0123456789ABCDEF".toList[n]? = some c

instance (n : Nat) (c : Char) : Decidable (HexDigit n c) :=
  inferInstanceAs (Decidable (_ ∨ _))

/-- Four hexadecimal digits, and their number. -/
inductive HexSpelled (n : Nat) : List Char → Prop where
  | digits {w x y z : Char} {a b c d : Nat} :
      HexDigit a w → HexDigit b x → HexDigit c y → HexDigit d z →
      n = ((a * 16 + b) * 16 + c) * 16 + d → HexSpelled n [w, x, y, z]

/-- The letters of escapes, and the characters they stand for. -/
def escapes : List (Char × Char) :=
  [('"', '"'), ('\\', '\\'), ('/', '/'), ('b', '\x08'), ('f', '\x0c'), ('n', '\n'), ('r', '\r'),
    ('t', '\t')]

/-- The spellings of a character inside a string. -/
inductive CharSpelled (c : Char) : List Char → Prop where
  | plain : c ≠ '"' → c ≠ '\\' → 32 ≤ c.toNat → CharSpelled c [c]
  | letter {l : Char} : (l, c) ∈ escapes → CharSpelled c ['\\', l]
  | unicode {ds : List Char} : HexSpelled c.toNat ds → CharSpelled c ('\\' :: 'u' :: ds)
  | surrogates {high low : Nat} {ds ds' : List Char} :
      HexSpelled high ds → HexSpelled low ds' → 0xD800 ≤ high → high < 0xDC00 → 0xDC00 ≤ low →
      low < 0xE000 → c.toNat = 0x10000 + (high - 0xD800) * 0x400 + (low - 0xDC00) →
      CharSpelled c ('\\' :: 'u' :: (ds ++ '\\' :: 'u' :: ds'))

/-- Characters one behind the other. -/
inductive CharsSpelled : List Char → List Char → Prop where
  | nil : CharsSpelled [] []
  | cons {c : Char} {s piece cs : List Char} :
      CharSpelled c piece → CharsSpelled s cs → CharsSpelled (c :: s) (piece ++ cs)

/-- A string between its quotes. -/
def StringSpelled (s : String) (cs : List Char) : Prop :=
  ∃ body, CharsSpelled s.toList body ∧ cs = '"' :: (body ++ ['"'])

theorem CharSpelled.length_pos {c : Char} {piece : List Char} (h : CharSpelled c piece) :
    0 < piece.length := by
  cases h <;> simp

theorem CharsSpelled.length_le {s cs : List Char} (h : CharsSpelled s cs) :
    s.length ≤ cs.length := by
  induction h with
  | nil => simp
  | cons hc _ ih =>
    have := hc.length_pos
    simp only [List.length_cons, List.length_append]
    omega

/-! ## Numbers -/

/-- The decimal digits of a natural number, without a sign and without zeros in front. -/
def NaturalSpelled (n : Nat) (cs : List Char) : Prop :=
  cs = (toString n).toList

/-! ## What is printed -/

theorem hexDigit_lowerDigit : ∀ n < 16, HexDigit n (lowerDigit n) := by
  decide

/-- A printed character is a spelling of it. -/
theorem charSpelled_escapeChar (c : Char) : CharSpelled c (escapeChar c) := by
  have letter : ∀ l, (l, c) ∈ escapes → CharSpelled c ['\\', l] := fun _ => .letter
  unfold escapeChar
  split_ifs with hquote hslash hb ht hn hf hr hcontrol
  · exact letter '"' (by simp [eq_of_beq hquote, escapes])
  · exact letter '\\' (by simp [eq_of_beq hslash, escapes])
  · exact letter 'b' (by simp [eq_of_beq hb, escapes])
  · exact letter 't' (by simp [eq_of_beq ht, escapes])
  · exact letter 'n' (by simp [eq_of_beq hn, escapes])
  · exact letter 'f' (by simp [eq_of_beq hf, escapes])
  · exact letter 'r' (by simp [eq_of_beq hr, escapes])
  · refine .unicode (.digits (hexDigit_lowerDigit 0 (by omega)) (hexDigit_lowerDigit 0 (by omega))
      (hexDigit_lowerDigit _ (by omega)) (hexDigit_lowerDigit _ (by omega)) (by omega))
  · exact .plain (by simpa using hquote) (by simpa using hslash) (by omega)

theorem charsSpelled_flatMap (s : List Char) : CharsSpelled s (s.flatMap escapeChar) := by
  induction s with
  | nil => exact .nil
  | cons c s ih => exact .cons (charSpelled_escapeChar c) ih

/-- A printed string is a spelling of it. -/
theorem stringSpelled_stringChars (s : String) : StringSpelled s (stringChars s) :=
  ⟨_, charsSpelled_flatMap s.toList, by simp [stringChars]⟩

end EmbeddedSolidity.Json
