import EmbeddedSolidity.Proofs.Source.LineEndStrings
import EmbeddedSolidity.Source.Lexer
import EmbeddedSolidity.Text.Quoted
import Mathlib.Algebra.Group.Nat.Defs

/-!
# Spellings of strings

How a text can be written as a literal. In quotes a character is written as itself or as one of its
escapes, chosen anew for each character; between quotes and hashes every character is written as itself,
if the text has no carriage return and does not close the literal by itself. Each spelling of a text is
read as a literal whose value is the text, whatever stands behind it.

* `Digits`, `Spelled`, `Quoted`, `Spelling` : numbers, characters, texts and literals;
* `cooked_quoted`, `raw_verbatim` : what is read behind the opening quote;
* `literal?_spelling`, `lexeme?_spelling` : what is read at the front of a text.
-/

namespace EmbeddedSolidity.Source

variable {c : Char} {cs rest written : List Char} {count value hashes : Nat}

/-! ## Digits -/

/-- The hexadecimal digits with their values. -/
def digitValues : List (Char × Nat) :=
  [('0', 0), ('1', 1), ('2', 2), ('3', 3), ('4', 4), ('5', 5), ('6', 6), ('7', 7), ('8', 8), ('9', 9),
    ('a', 10), ('b', 11), ('c', 12), ('d', 13), ('e', 14), ('f', 15),
    ('A', 10), ('B', 11), ('C', 12), ('D', 13), ('E', 14), ('F', 15)]

/-- What every digit is : it has its value, and it is none of the other characters that may stand
between the braces of an escape. -/
theorem hexValue?_of_mem {digit : Char × Nat} (h : digit ∈ digitValues) :
    hexValue? digit.1 = some digit.2 ∧ digit.1 ≠ '\x7d' ∧ digit.1 ≠ '_' := by
  revert digit
  decide

/-- A number written with `count` hexadecimal digits. Low lines may stand behind the first digit. -/
inductive Digits : Nat → Nat → List Char → Prop where
  | first {d : Char × Nat} : d ∈ digitValues → Digits 1 d.2 [d.1]
  | digit {count value : Nat} {written : List Char} {d : Char × Nat} :
    Digits count value written → d ∈ digitValues →
    Digits (count + 1) (value * 16 + d.2) (written ++ [d.1])
  | line {count value : Nat} {written : List Char} :
    Digits count value written → Digits count value (written ++ ['_'])

theorem Digits.count_pos (h : Digits count value written) : 0 < count := by
  induction h with
  | first => exact Nat.one_pos
  | digit => exact Nat.succ_pos _
  | line _ ih => exact ih

/-- One digit is read. -/
theorem codePoint?_digit (count value : Nat) {digit : Char × Nat} (h : digit ∈ digitValues)
    (hcount : count < 6) (rest : List Char) : codePoint? count value (digit.1 :: rest) =
      (codePoint? (count + 1) (value * 16 + digit.2) rest).map fun x => (x.1, x.2 + 1) := by
  obtain ⟨hvalue, hbrace, hline⟩ := hexValue?_of_mem h
  rw [codePoint?, if_neg fun hc => hbrace hc.1, if_neg fun hc => hline hc.1, hvalue]
  dsimp only
  rw [if_neg (by omega)]

/-- The digits of a number are read one after the other. -/
theorem codePoint?_digits (h : Digits count value written) (hcount : count ≤ 6) (rest : List Char) :
    codePoint? 0 0 (written ++ rest) =
      (codePoint? count value rest).map fun x => (x.1, x.2 + written.length) := by
  induction h generalizing rest with
  | first hdigit => simpa using codePoint?_digit 0 0 hdigit (by decide) rest
  | @digit count value written digit h hdigit ih =>
    rw [List.append_assoc, List.singleton_append, ih (by omega),
      codePoint?_digit count value hdigit (by omega), Option.map_map, List.length_append]
    simp only [Function.comp_def, Nat.add_right_comm, Nat.add_assoc, List.length_singleton]
  | @line count value written h ih =>
    have hread : codePoint? count value ('_' :: rest) =
        (codePoint? count value rest).map fun x => (x.1, x.2 + 1) := by
      rw [codePoint?, if_neg (by simp), if_pos ⟨rfl, h.count_pos⟩]
    rw [List.append_assoc, List.singleton_append, ih hcount, hread, Option.map_map,
      List.length_append]
    simp only [Function.comp_def, Nat.add_right_comm, Nat.add_assoc, List.length_singleton]

theorem charOf?_toNat (c : Char) : charOf? c.toNat = some c := by
  have hvalid : c.toNat.isValidChar := c.valid
  rw [charOf?, if_pos hvalid, Char.ofNat_toNat]

/-! ## Characters -/

/-- The letters of the short escapes, each with the character it stands for. -/
def shortEscapes : List (Char × Char) :=
  [('n', '\n'), ('r', '\r'), ('t', '\t'), ('\\', '\\'), ('0', '\x00'), ('\'', '\''), ('"', '"')]

/-- A character in quotes. All but the quote, the backslash and the carriage return may be written as
they are; every character has escapes. -/
inductive Spelled : Char → List Char → Prop where
  | itself {c : Char} : c ≠ '"' → c ≠ '\\' → c ≠ '\r' → Spelled c [c]
  | short {e : Char × Char} : e ∈ shortEscapes → Spelled e.2 ['\\', e.1]
  | ascii {c : Char} {h l : Char × Nat} : h ∈ digitValues → l ∈ digitValues →
    c.toNat = h.2 * 16 + l.2 → c.toNat < 128 → Spelled c ['\\', 'x', h.1, l.1]
  | codePoint {c : Char} {count : Nat} {written : List Char} : Digits count c.toNat written →
    count ≤ 6 → Spelled c ('\\' :: 'u' :: '\x7b' :: (written ++ ['\x7d']))

theorem charEscape?_shortEscapes {escape : Char × Char} (h : escape ∈ shortEscapes)
    (rest : List Char) : charEscape? .text (escape.1 :: rest) = some (escape.2, 1) := by
  have hletter : escape.1 ≠ 'x' ∧ escape.1 ≠ 'u' ∧ shortEscape? escape.1 = some escape.2 := by
    revert escape
    decide
  rw [charEscape?_short .text hletter.1 hletter.2.1, hletter.2.2]
  rfl

theorem charEscape?_ascii {high low : Char × Nat} (hhigh : high ∈ digitValues) (hlow : low ∈ digitValues)
    (hvalue : c.toNat = high.2 * 16 + low.2) (hascii : c.toNat < 128) (rest : List Char) :
    charEscape? .text ('x' :: high.1 :: low.1 :: rest) = some (c, 3) := by
  have hdigits : twoDigits? .text high.1 low.1 = some c := by
    simp only [twoDigits?, (hexValue?_of_mem hhigh).1, (hexValue?_of_mem hlow).1, ← hvalue,
      Option.bind_eq_bind, Option.bind_some]
    rw [if_neg (by omega), charOf?_toNat]
  rw [charEscape?, hdigits]
  rfl

theorem charEscape?_codePoint (h : Digits count c.toNat written) (hcount : count ≤ 6)
    (rest : List Char) : charEscape? .text ('u' :: '\x7b' :: (written ++ '\x7d' :: rest)) =
      some (c, written.length + 3) := by
  have hclose : codePoint? count c.toNat ('\x7d' :: rest) = some (c, 1) := by
    rw [codePoint?, if_pos ⟨rfl, h.count_pos⟩, charOf?_toNat]
    rfl
  rw [charEscape?, if_neg (by decide), codePoint?_digits h hcount, hclose, Option.map_some,
    Option.map_some]
  dsimp only
  rw [Nat.add_comm 1 written.length]

/-- A character is read from an escape that begins with no line end. -/
theorem cooked_escape {w : List Char} {first : Char} (hfeed : first ≠ '\n') (hreturn : first ≠ '\r')
    (h : charEscape? .text (first :: (w ++ rest)) = some (c, w.length + 1)) :
    cooked .text 0 ('\\' :: first :: (w ++ rest)) = (cooked .text 0 rest).map (onto [c]) := by
  have hescape : escape? .text (first :: (w ++ rest)) = some ([c], w.length + 1) := by
    rw [escape?, if_neg (not_or.2 ⟨hfeed, hreturn⟩), h]
    rfl
  have hread : cooked .text 0 ('\\' :: first :: (w ++ rest)) =
      (cooked .text (w.length + 1) (first :: (w ++ rest))).map (onto [c]) := by
    simp [cooked, hescape]
  rw [hread, cooked_skip, List.drop_succ_cons, List.drop_left]

/-- However a character is written, it is what is read. -/
theorem cooked_spelled (h : Spelled c written) (rest : List Char) :
    cooked .text 0 (written ++ rest) = (cooked .text 0 rest).map (onto [c]) := by
  cases h with
  | itself hquote hbackslash hreturn =>
    simp [cooked, hquote, hbackslash, hreturn, StringKind.allows]
  | @short escape hescape =>
    have hends : escape.1 ≠ '\n' ∧ escape.1 ≠ '\r' := by
      revert escape
      decide
    have hread := charEscape?_shortEscapes hescape rest
    exact cooked_escape (w := []) hends.1 hends.2 hread
  | @ascii _ high low hhigh hlow hvalue hascii =>
    have hread := charEscape?_ascii hhigh hlow hvalue hascii rest
    exact cooked_escape (w := [high.1, low.1]) (by decide) (by decide) hread
  | @codePoint _ count written hdigits hcount =>
    have hescape := charEscape?_codePoint hdigits hcount rest
    have hread := @cooked_escape c rest ('\x7b' :: (written ++ ['\x7d'])) 'u' (by decide) (by decide)
    simp only [List.cons_append, List.append_assoc, List.length_cons, List.length_append,
      List.length_nil] at hread ⊢
    exact hread hescape

/-! ## Texts in quotes -/

/-- A text between quotes : each of its characters is written in one of its ways. -/
inductive Quoted : List Char → List Char → Prop where
  | nil : Quoted [] []
  | cons {c : Char} {cs written body : List Char} :
    Spelled c written → Quoted cs body → Quoted (c :: cs) (written ++ body)

theorem cooked_quoted {body : List Char} (h : Quoted cs body) (rest : List Char) :
    cooked .text 0 (body ++ '"' :: rest) = some (cs, rest) := by
  induction h with
  | nil => rfl
  | cons hc _ ih =>
    rw [List.append_assoc, cooked_spelled hc, ih]
    rfl

/-! ## Raw texts -/

/-- A quote and as many hashes. -/
def closingMark (hashes : Nat) : List Char :=
  '"' :: List.replicate hashes '#'

theorem startsWithHashes_iff : startsWithHashes hashes cs = true ↔ List.replicate hashes '#' <+: cs := by
  induction hashes generalizing cs with
  | zero => simp [startsWithHashes]
  | succ n ih =>
    cases cs with
    | nil => simp [startsWithHashes, List.replicate_succ]
    | cons c rest =>
      rw [List.replicate_succ, List.cons_prefix_cons]
      by_cases hc : c = '#'
      · subst hc
        rw [startsWithHashes, ih, and_iff_right rfl]
      · rw [startsWithHashes_cons n hc]
        simp [Ne.symm hc]

/-- Hashes in front of a quote end before it. -/
theorem hashes_prefix_of_append (h : List.replicate hashes '#' <+: cs ++ '"' :: rest) :
    List.replicate hashes '#' <+: cs := by
  induction cs generalizing hashes with
  | nil =>
    cases hashes with
    | zero => exact List.nil_prefix
    | succ n =>
      rw [List.replicate_succ, List.nil_append, List.cons_prefix_cons] at h
      exact absurd h.1 (by decide)
  | cons c cs ih =>
    cases hashes with
    | zero => exact List.nil_prefix
    | succ n =>
      rw [List.replicate_succ, List.cons_append, List.cons_prefix_cons] at h
      rw [List.replicate_succ, List.cons_prefix_cons]
      exact ⟨h.1, ih h.2⟩

/-- A text that does not close the literal by itself is read as it is written. -/
theorem raw_verbatim (hreturns : '\r' ∉ cs) (hopen : ¬ closingMark hashes <:+: cs)
    (rest : List Char) :
    raw .text hashes (cs ++ (closingMark hashes ++ rest)) = some (cs, rest) := by
  induction cs with
  | nil =>
    have hstarts : startsWithHashes hashes (List.replicate hashes '#' ++ rest) = true :=
      startsWithHashes_iff.2 (List.prefix_append _ _)
    have hdrop : (List.replicate hashes '#' ++ rest).drop hashes = rest := by
      simp
    rw [closingMark, List.nil_append, List.cons_append, raw, if_pos hstarts, hdrop]
  | cons c cs ih =>
    rw [List.mem_cons, not_or] at hreturns
    have hnext := ih hreturns.2 fun h => hopen (h.trans (List.suffix_cons c cs).isInfix)
    rw [List.cons_append]
    by_cases hquote : c = '"'
    · subst hquote
      have hstarts : ¬ startsWithHashes hashes (cs ++ (closingMark hashes ++ rest)) = true := fun h => by
        have hprefix := hashes_prefix_of_append (startsWithHashes_iff.1 h)
        exact hopen (List.cons_prefix_cons.2 ⟨rfl, hprefix⟩).isInfix
      rw [raw, if_neg hstarts, hnext]
      rfl
    · rw [raw_cons .text hashes hquote (Ne.symm hreturns.1), hnext]
      rfl

theorem rawString?_verbatim (hhashes : hashes ≤ maxHashes) (hreturns : '\r' ∉ cs)
    (hopen : ¬ closingMark hashes <:+: cs) (rest : List Char) :
    rawString? .text (List.replicate hashes '#' ++ '"' :: (cs ++ (closingMark hashes ++ rest))) =
      some (cs, rest) := by
  have hcount : ((List.replicate hashes '#' ++ '"' :: (cs ++ (closingMark hashes ++ rest))).takeWhile
      (· == '#')).length = hashes := by
    simp [List.takeWhile_append_of_pos]
  have hdrop : (List.replicate hashes '#' ++ '"' :: (cs ++ (closingMark hashes ++ rest))).drop hashes =
      '"' :: (cs ++ (closingMark hashes ++ rest)) := by
    simp
  unfold rawString?
  rw [hcount]
  dsimp only
  rw [hdrop]
  change (if hashes ≤ maxHashes then _ else none) = _
  rw [if_pos hhashes, raw_verbatim hreturns hopen]

/-! ## Literals -/

/-- The literals for a text : it is quoted, or it is raw between at most 255 hashes. -/
inductive Spelling (cs : List Char) : List Char → Prop where
  | quoted {body : List Char} : Quoted cs body → Spelling cs ('"' :: (body ++ ['"']))
  | raw {k : Nat} : k ≤ 255 → '\r' ∉ cs → ¬ closingMark k <:+: cs →
    Spelling cs ('r' :: (List.replicate k '#' ++ '"' :: (cs ++ closingMark k)))

theorem string?_spelling (h : Spelling cs written) (rest : List Char) :
    string? (written ++ rest) = some (.text, cs, rest) := by
  cases h with
  | @quoted body hbody =>
    have hread := cooked_quoted hbody rest
    simp [string?, hread]
  | @raw hashes hhashes hreturns hopen =>
    have hread := rawString?_verbatim hhashes hreturns hopen rest
    simp [string?, hread]

/-- Every spelling of a text is a literal whose value is the text. It has no suffix if no word stands
behind it. -/
theorem literal?_spelling (h : Spelling cs written) (hrest : splitWord rest = ([], rest)) :
    literal? (written ++ rest) = some (.string cs, rest) := by
  unfold literal?
  rw [string?_spelling h]
  dsimp only
  rw [if_pos rfl, hrest]

theorem lexeme?_spelling (h : Spelling cs written) (hrest : splitWord rest = ([], rest)) :
    lexeme? (written ++ rest) = some (.leaf (.literal (.string cs)), rest) := by
  have hleaf : leaf? (written ++ rest) = some (.literal (.string cs), rest) := by
    unfold leaf?
    rw [literal?_spelling h hrest]
  cases h with
  | quoted =>
    rw [List.cons_append] at hleaf ⊢
    rw [lexeme?, hleaf]
    rfl
  | raw =>
    rw [List.cons_append] at hleaf ⊢
    rw [lexeme?, hleaf]
    rfl

/-! ## Quoted texts

A text as messages show it is one of its spellings, so every text has one. -/

theorem hexDigit_mem : ∀ n < 16, (Text.hexDigit n, n) ∈ digitValues := by decide

/-- A number below a power of sixteen is written with at most as many digits as the exponent says. -/
theorem digits_hexDigits (n : Nat) : ∀ {k : Nat}, n < 16 ^ (k + 1) →
    ∃ count ≤ k + 1, Digits count n (Text.hexDigits n) := by
  induction n using Text.hexDigits.induct with
  | case1 n hsmall =>
    intro k _
    rw [Text.hexDigits, if_pos hsmall]
    exact ⟨1, by omega, .first (hexDigit_mem n hsmall)⟩
  | case2 n hlarge ih =>
    intro k hk
    cases k with
    | zero => omega
    | succ k =>
      obtain ⟨count, hcount, hdigits⟩ := @ih k (by rw [Nat.pow_succ] at hk; omega)
      have hmore := hdigits.digit (hexDigit_mem (n % 16) (Nat.mod_lt _ (by decide)))
      have hvalue : n / 16 * 16 + n % 16 = n := by omega
      rw [Text.hexDigits, if_neg hlarge]
      rw [hvalue] at hmore
      exact ⟨count + 1, by omega, hmore⟩

theorem spelled_codePointEscape (c : Char) : Spelled c (Text.codePointEscape c) := by
  have hvalid : c.toNat < 16 ^ 6 := by
    have := c.valid
    simp only [UInt32.isValidChar, Nat.isValidChar] at this
    simp only [Char.toNat]
    omega
  obtain ⟨count, hcount, hdigits⟩ := digits_hexDigits c.toNat hvalid
  exact .codePoint hdigits hcount

theorem spelled_quoteChar (c : Char) : Spelled c (Text.quoteChar c) := by
  have hshort : ∀ escape ∈ shortEscapes, Spelled escape.2 ['\\', escape.1] := fun _ h => .short h
  unfold Text.quoteChar
  split_ifs with hnul htab hreturn hfeed hself hhidden
  · exact beq_iff_eq.1 hnul ▸ hshort ('0', '\x00') (by decide)
  · exact beq_iff_eq.1 htab ▸ hshort ('t', '\t') (by decide)
  · exact beq_iff_eq.1 hreturn ▸ hshort ('r', '\r') (by decide)
  · exact beq_iff_eq.1 hfeed ▸ hshort ('n', '\n') (by decide)
  · rcases Bool.or_eq_true_iff.1 hself with hc | hc
    · exact beq_iff_eq.1 hc ▸ hshort ('\\', '\\') (by decide)
    · exact beq_iff_eq.1 hc ▸ hshort ('"', '"') (by decide)
  · exact spelled_codePointEscape c
  · rw [Bool.or_eq_true_iff, not_or, beq_iff_eq, beq_iff_eq] at hself
    exact .itself hself.2 hself.1 fun hc => hreturn (beq_iff_eq.2 hc)

theorem spelling_quoted (s : String) : Spelling s.toList (Text.quoted s).toList := by
  have hquoted : ∀ cs : List Char, Quoted cs (cs.flatMap Text.quoteChar) := fun cs => by
    induction cs with
    | nil => exact .nil
    | cons c cs ih =>
      rw [List.flatMap_cons]
      exact .cons (spelled_quoteChar c) ih
  rw [Text.quoted, String.toList_ofList]
  exact .quoted (hquoted s.toList)

end EmbeddedSolidity.Source
