import EmbeddedSolidity.Proofs.Json.Readable
import EmbeddedSolidity.Proofs.Json.Skipping

/-!
# Tokens that are read are spelled

The converse of reading what is spelled. Where a reader of strings or of numbers succeeds, it has
passed a spelling of its result, and an integer is only read where no fraction and no exponent
follow and where it fits.

* `exists_gap`, `rest_of_head?` : what space and a character take from the text;
* `charsSpelled_of_goes` : strings;
* `naturalSpelled_of_goes` : integers.
-/

namespace EmbeddedSolidity.Json

open Reader

/-! ## Cursors -/

/-- What is passed up to the next token is space. -/
theorem Cursor.exists_gap (c : Cursor) : ∃ gap, Gap gap ∧ c.rest = gap ++ c.behindSpace.rest := by
  unfold behindSpace
  generalize c.place = p
  induction c.rest generalizing p with
  | nil => exact ⟨[], gap_nil, rfl⟩
  | cons x cs ih =>
    by_cases hx : isSpace x = true
    · obtain ⟨gap, hgap, hcs⟩ := ih (p.after x)
      refine ⟨x :: gap, List.forall_mem_cons.2 ⟨hx, hgap⟩, ?_⟩
      simpa only [skipWhile, hx, if_true, List.cons_append] using congrArg (x :: ·) hcs
    · exact ⟨[], gap_nil, by simp [skipWhile, hx]⟩

theorem Cursor.rest_of_head? {c : Cursor} {ch : Char} (h : c.rest.head? = some ch) :
    c.rest = ch :: c.behindNext.rest := by
  obtain ⟨rest, hrest⟩ := List.head?_eq_some_iff.1 h
  simp [behindNext, hrest]

/-- Space, and the character that is next. -/
theorem Cursor.exists_gap_cons {c : Cursor} {ch : Char} (h : c.behindSpace.rest.head? = some ch) :
    ∃ gap, Gap gap ∧ c.rest = gap ++ ch :: c.behindSpace.behindNext.rest := by
  obtain ⟨gap, hgap, hrest⟩ := c.exists_gap
  exact ⟨gap, hgap, rest_of_head? h ▸ hrest⟩

/-! ## Strings -/

theorem hexDigit_of_hexValue? {n : Nat} {c : Char} (h : hexValue? c = some n) : HexDigit n c := by
  have digits : ∀ m < 103, ∀ n ∈ hexValue? (Char.ofNat m), HexDigit n (Char.ofNat m) := by decide
  have hc : c.toNat < 103 := by
    unfold hexValue? at h
    simp only [Bool.and_eq_true, decide_eq_true_eq, Char.le_def, UInt32.le_iff_toNat_le] at h
    split_ifs at h with hdec hlow hup
    · exact Nat.lt_of_le_of_lt hdec.2 (by decide)
    · exact Nat.lt_of_le_of_lt hlow.2 (by decide)
    · exact Nat.lt_of_le_of_lt hup.2 (by decide)
  rw [← Char.ofNat_toNat c] at h ⊢
  exact digits c.toNat hc n h

theorem mem_escapes_of_simpleEscape? {l c : Char} (h : simpleEscape? l = some c) :
    (l, c) ∈ escapes := by
  unfold simpleEscape? at h
  split at h
  case h_9 => cases h
  all_goals
    obtain rfl := Option.some.inj h
    decide

theorem hexSpelled_of_goes {c c' : Cursor} {n : Nat} (h : readHex4.Goes c n c') :
    ∃ ds, HexSpelled n ds ∧ c.rest = ds ++ c'.rest := by
  unfold readHex4 at h
  rw [goes_get_bind] at h
  split at h
  · next w x y z rest hrest =>
    split at h
    · next hw hx hy hz =>
      rw [goes_set_bind, goes_pure] at h
      obtain ⟨rfl, rfl⟩ := h
      exact ⟨[w, x, y, z], .digits (hexDigit_of_hexValue? hw) (hexDigit_of_hexValue? hx)
        (hexDigit_of_hexValue? hy) (hexDigit_of_hexValue? hz) rfl, hrest⟩
    · exact absurd h not_goes_throw
  · split at h
    · exact absurd h not_goes_throw
    · exact absurd h not_goes_throw

theorem toNat_ofNat {n : Nat} (h : n < 0xD800 ∨ 0xDFFF < n) (hn : n < 0x110000) :
    (Char.ofNat n).toNat = n := by
  have hvalid : n.isValidChar := by
    unfold Nat.isValidChar
    omega
  rw [Char.ofNat, dif_pos hvalid]
  rfl

theorem HexSpelled.lt {n : Nat} {ds : List Char} (h : HexSpelled n ds) : n < 0x10000 := by
  obtain ⟨hw, hx, hy, hz, rfl⟩ := h
  have := hexDigit_lt hw
  have := hexDigit_lt hx
  have := hexDigit_lt hy
  have := hexDigit_lt hz
  omega

/-- What is passed behind a backslash makes a spelling with it. -/
theorem charSpelled_of_goes {c c' : Cursor} {ch : Char} (h : readEscape.Goes c ch c') :
    ∃ cs, CharSpelled ch ('\\' :: cs) ∧ c.rest = cs ++ c'.rest := by
  obtain ⟨letter, hletter, -, hch, rfl⟩ | ⟨n, hu, hhex, hn, rfl⟩ |
    ⟨n, low, mid, hu, hhex, hslash, hu', hlow, hn, hl, hch⟩ := goes_readEscape h
  · exact ⟨[letter], .letter (mem_escapes_of_simpleEscape? hch), Cursor.rest_of_head? hletter⟩
  · obtain ⟨ds, hds, hrest⟩ := hexSpelled_of_goes hhex
    have hcode := toNat_ofNat hn (by have := hds.lt; omega)
    refine ⟨'u' :: ds, .unicode (hcode.symm ▸ hds), ?_⟩
    rw [Cursor.rest_of_head? hu, hrest, List.cons_append]
  · obtain ⟨ds, hds, hrest⟩ := hexSpelled_of_goes hhex
    obtain ⟨ds', hds', hrest'⟩ := hexSpelled_of_goes hlow
    have hcode : ch.toNat = (n - 0xD800) * 1024 + (low - 0xDC00) + 0x10000 := by
      rw [hch]
      exact toNat_ofNat (.inr (by omega)) (by omega)
    refine ⟨'u' :: (ds ++ '\\' :: 'u' :: ds'),
      .surrogates hds hds' hn.1 hn.2 hl.1 hl.2 (by omega), ?_⟩
    rw [Cursor.rest_of_head? hu, hrest, Cursor.rest_of_head? hslash, Cursor.rest_of_head? hu', hrest']
    simp

/-- The characters that are read are spelled up to the quote. -/
theorem charsSpelled_of_goes {n : Nat} {before out : List Char} {c c' : Cursor}
    (h : (readStringChars n before).Goes c out c') :
    ∃ s cs, out = before.reverse ++ s ∧ CharsSpelled s cs ∧ c.rest = cs ++ '"' :: c'.rest := by
  induction n generalizing before c with
  | zero => exact absurd h not_goes_failHere
  | succ n ih =>
    unfold readStringChars at h
    rw [goes_peek_bind] at h
    split at h
    · exact absurd h not_goes_failHere
    · -- the closing quote
      next hhead =>
      rw [goes_advance_bind, goes_pure] at h
      obtain ⟨rfl, rfl⟩ := h
      exact ⟨[], [], (List.append_nil _).symm, .nil, Cursor.rest_of_head? hhead⟩
    · -- an escape
      next hhead =>
      obtain ⟨ch, mid, hescape, h⟩ := goes_bind.1 (goes_advance_bind.1 h)
      obtain ⟨piece, hpiece, hnext⟩ := charSpelled_of_goes hescape
      obtain ⟨s, cs, rfl, hs, hrest⟩ := ih h
      refine ⟨ch :: s, '\\' :: piece ++ cs, by simp, .cons hpiece hs, ?_⟩
      rw [Cursor.rest_of_head? hhead, hnext, hrest]
      simp
    · -- a character that stands for itself
      next ch hquote hslash hhead =>
      split at h
      · exact absurd h not_goes_failNext
      · next hcontrol =>
        obtain ⟨s, cs, rfl, hs, hrest⟩ := ih (goes_advance_bind.1 h)
        have hplain : CharSpelled ch [ch] := .plain hquote hslash (by omega)
        refine ⟨ch :: s, [ch] ++ cs, by simp, .cons hplain hs, ?_⟩
        rw [Cursor.rest_of_head? hhead, hrest]
        simp

/-- A string that is read is spelled, behind its opening quote. -/
theorem stringSpelled_of_goes {c c' : Cursor} {s : String} (hquote : c.rest.head? = some '"')
    (h : readStringBody.Goes c.behindNext s c') :
    ∃ cs, StringSpelled s cs ∧ c.rest = cs ++ c'.rest := by
  unfold readStringBody at h
  obtain ⟨out, mid, hchars, h⟩ := goes_bind.1 (goes_get_bind.1 h)
  obtain ⟨rfl, rfl⟩ := goes_pure.1 h
  obtain ⟨s, body, rfl, hs, hrest⟩ := charsSpelled_of_goes hchars
  refine ⟨'"' :: (body ++ ['"']), ⟨body, by simpa using hs, rfl⟩, ?_⟩
  rw [Cursor.rest_of_head? hquote, hrest]
  simp

/-! ## Numbers -/

theorem toDigits_digit {c : Char} (h : c.isDigit = true) : Nat.toDigits 10 (c.toNat - 48) = [c] := by
  have digits : ∀ m < 58, 48 ≤ m → (m - 48).digitChar = Char.ofNat m := by decide
  have hc : 48 ≤ c.toNat ∧ c.toNat ≤ 57 := Char.isDigit_iff_toNat.1 h
  rw [Nat.toDigits_of_lt_base (by omega), digits c.toNat (by omega) (by omega), Char.ofNat_toNat]

/-- Digits behind a positive number are its last digits. -/
theorem toDigits_ofDigitChars {ds : List Char} (h : ∀ d ∈ ds, d.isDigit = true) {n : Nat}
    (hn : 0 < n) : Nat.toDigits 10 (Nat.ofDigitChars 10 ds n) = Nat.toDigits 10 n ++ ds := by
  induction ds generalizing n with
  | nil => simp
  | cons d ds ih =>
    obtain ⟨hd, hds⟩ := List.forall_mem_cons.1 h
    have hlt : d.toNat - 48 < 10 := Nat.lt_succ_of_le (digit_le hd)
    have hnext := Nat.toDigits_append_toDigits (b := 10) (by omega) hn hlt
    rw [toDigits_digit hd] at hnext
    rw [Nat.ofDigitChars_cons]
    change Nat.toDigits 10 (Nat.ofDigitChars 10 ds (10 * n + (d.toNat - 48))) = _
    rw [ih hds (by omega), ← hnext, List.append_assoc, List.singleton_append]

/-- Where no digit is refused, the digits that are passed make the number. -/
theorem ofDigitChars_of_accumulate {limit n count n' count' : Nat} {cs : List Char}
    (h : accumulate limit cs n count = (n', count', false)) :
    ∃ ds rest, cs = ds ++ rest ∧ count' = count + ds.length ∧ (∀ d ∈ ds, d.isDigit = true) ∧
      n' = Nat.ofDigitChars 10 ds n := by
  induction cs generalizing n count with
  | nil =>
    cases h
    exact ⟨[], [], rfl, rfl, by simp, rfl⟩
  | cons x cs ih =>
    unfold accumulate at h
    dsimp only at h
    split_ifs at h with hx hlimit
    · cases h
    · obtain ⟨ds, rest, rfl, rfl, hds, rfl⟩ := ih h
      refine ⟨x :: ds, rest, rfl, by simp; omega, List.forall_mem_cons.2 ⟨hx, hds⟩, ?_⟩
      rw [Nat.ofDigitChars_cons, Nat.mul_comm]
      rfl
    · cases h
      exact ⟨[], x :: cs, rfl, rfl, by simp, rfl⟩

theorem ofDigitChars_of_goes {limit n n' count : Nat} {c c' : Cursor}
    (h : (readDigits limit n).Goes c (n', count, false) c') :
    ∃ ds, c.rest = ds ++ c'.rest ∧ (∀ d ∈ ds, d.isDigit = true) ∧ n' = Nat.ofDigitChars 10 ds n := by
  unfold readDigits at h
  rw [goes_get_bind] at h
  cases hrun : accumulate limit c.rest n 0 with
  | mk m rest =>
    obtain ⟨k, exceeds⟩ := rest
    rw [hrun] at h
    dsimp only at h
    rw [goes_set_bind, goes_pure] at h
    obtain ⟨heq, rfl⟩ := h
    obtain ⟨rfl, rfl, rfl⟩ : n' = m ∧ count = k ∧ false = exceeds := by simpa using heq
    obtain ⟨ds, rest, hrest, rfl, hds, hn⟩ := ofDigitChars_of_accumulate hrun
    exact ⟨ds, by simp [hrest], hds, hn⟩

/-- A fraction, an exponent or too many digits do not make an integer. -/
theorem not_goes_integer {r : Reader Number}
    (h : ∀ {P : Number → Prop}, (∀ x, P (.real x)) → r.Ensures P) {i : Int} {c c' : Cursor} :
    ¬ r.Goes c (.integer i) c' := by
  intro hgo
  obtain ⟨x, hx⟩ := h (P := fun n => ∃ x, n = .real x) (fun x => ⟨x, rfl⟩) c _ c' hgo
  cases hx

/-- An integer is read where its digits end, and a negative one is not zero. -/
theorem eq_of_goes_readTail {positive : Bool} {n : Nat} {dropped : Option Nat} {i : Int}
    {c c' : Cursor} (h : (readTail positive n dropped).Goes c (.integer i) c') :
    c' = c ∧ dropped = none ∧
      if positive then i = Int.ofNat n else 0 < n ∧ i = -Int.ofNat n := by
  unfold readTail at h
  rw [goes_peek_bind] at h
  split at h
  · exact absurd h (not_goes_integer fun hreal => ensures_readFraction hreal _ _ _)
  · exact absurd h (not_goes_integer fun hreal => ensures_readExponent hreal _ _ _)
  · exact absurd h (not_goes_integer fun hreal => ensures_readExponent hreal _ _ _)
  · exact absurd h (not_goes_integer fun hreal => ensures_readParts hreal _ _ _)
  · split at h
    · next hpositive =>
      obtain ⟨heq, rfl⟩ := goes_pure.1 h
      exact ⟨rfl, rfl, by rw [if_pos hpositive]; exact Number.integer.inj heq⟩
    · next hnegative =>
      split at h
      · exact absurd h (not_goes_integer fun hreal => ensures_readParts hreal _ _ _)
      · next hzero =>
        obtain ⟨heq, rfl⟩ := goes_pure.1 h
        simp only [Bool.or_eq_true, beq_iff_eq, decide_eq_true_eq, not_or] at hzero
        rw [if_neg hnegative]
        exact ⟨rfl, rfl, Nat.pos_of_ne_zero hzero.1, Number.integer.inj heq⟩

/-- An integer that is read is spelled by its digits, behind its sign, and fits. -/
theorem naturalSpelled_of_goes {positive : Bool} {i : Int} {c c' : Cursor}
    (h : (readNumber positive).Goes c (.integer i) c') :
    ∃ n cs, n ≤ maxInteger ∧ NaturalSpelled n cs ∧ c.rest = cs ++ c'.rest ∧
      if positive then i = Int.ofNat n else 0 < n ∧ i = -Int.ofNat n := by
  unfold readNumber at h
  rw [goes_get_bind, goes_next_bind] at h
  split at h
  · exact absurd h not_goes_failHere
  · -- zero
    next hhead =>
    have htail : (readTail positive 0 none).Goes c.behindNext (.integer i) c' := by
      rw [goes_peek_bind] at h
      split at h
      · split at h
        · exact absurd h not_goes_failNext
        · exact h
      · exact h
    obtain ⟨rfl, -, hi⟩ := eq_of_goes_readTail htail
    exact ⟨0, ['0'], Nat.zero_le _, by simp [NaturalSpelled], Cursor.rest_of_head? hhead, hi⟩
  · -- digits of which the first is not zero
    next d hzero hhead =>
    split at h
    · obtain ⟨_, _, h, -⟩ := goes_bind.1 h
      exact absurd h not_goes_throw
    · next hd =>
      rw [Bool.not_eq_true', Bool.not_eq_false] at hd
      obtain ⟨⟨n, count, exceeds⟩, mid, hread, h⟩ := goes_bind.1 h
      dsimp only at h
      split at h
      · rw [goes_skipDigits_bind] at h
        exact nomatch (eq_of_goes_readTail h).2.1
      · next hexceeds =>
        obtain rfl : exceeds = false := by simpa using hexceeds
        obtain ⟨rfl, -, hi⟩ := eq_of_goes_readTail h
        have hpos : 0 < d.toNat - 48 := by
          have hc : 48 ≤ d.toNat := (Char.isDigit_iff_toNat.1 hd).1
          refine Nat.pos_of_ne_zero fun h0 => hzero ?_
          rw [← Char.ofNat_toNat d, show d.toNat = 48 by omega]
        have hlimit : n ≤ maxInteger :=
          ensures_readDigits (Nat.le_trans (digit_le hd) (by decide)) _ _ _ hread
        obtain ⟨ds, hrest, hds, rfl⟩ := ofDigitChars_of_goes hread
        refine ⟨_, d :: ds, hlimit, ?_, by rw [Cursor.rest_of_head? hhead, hrest]; rfl, hi⟩
        have hdigits := toDigits_ofDigitChars hds hpos
        rw [toDigits_digit hd] at hdigits
        simp [NaturalSpelled, hdigits]

end EmbeddedSolidity.Json
