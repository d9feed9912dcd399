import EmbeddedSolidity.Proofs.Json.Reading
import EmbeddedSolidity.Proofs.Json.Spelling
import Mathlib.Algebra.GroupWithZero.Nat

/-!
# Spelled strings and printed integers are read

A string is read from each of its spellings, whatever characters it has, and a printed string is one
of them (`yields_readStringChars`). A printed integer reads back if it is one that a document can
hold and what follows cannot go on with the number (`EndsNumber`).

* `yields_readStringBody_of_spelled`, `yields_readStringBody` : strings;
* `yields_readNumber_natural`, `yields_readNumber_negative` : integers.
-/

namespace EmbeddedSolidity.Json

open Reader

/-! ## Strings -/

theorem hexDigit_lt {n : Nat} {c : Char} (h : HexDigit n c) : n < 16 := by
  rcases h with h | h <;> exact (List.getElem?_eq_some_iff.1 h).1

theorem hexValue?_of_hexDigit {n : Nat} {c : Char} (h : HexDigit n c) : hexValue? c = some n := by
  have table : ∀ n < 16, "0123456789abcdef".toList[n]?.map hexValue? = some (some n) ∧
      "0123456789ABCDEF".toList[n]?.map hexValue? = some (some n) := by decide
  obtain ⟨hlower, hupper⟩ := table n (hexDigit_lt h)
  obtain h | h := h
  · rw [h] at hlower
    exact Option.some.inj hlower
  · rw [h] at hupper
    exact Option.some.inj hupper

theorem simpleEscape?_of_mem {l c : Char} (h : (l, c) ∈ escapes) :
    l ≠ 'u' ∧ simpleEscape? l = some c := by
  have table : ∀ e ∈ escapes, e.1 ≠ 'u' ∧ simpleEscape? e.1 = some e.2 := by decide
  exact table (l, c) h

/-- A character of a string that stands for itself. -/
theorem yields_readStringChars_plain {fuel : Nat} {before cs rest x : List Char} {c : Char}
    (hquote : c ≠ '"') (hslash : c ≠ '\\') (hcontrol : 32 ≤ c.toNat)
    (h : (readStringChars fuel (c :: before)).Yields cs x rest) :
    (readStringChars (fuel + 1) before).Yields (c :: cs) x rest := by
  unfold readStringChars
  refine (yields_peek _).bind ?_
  dsimp only [List.head?_cons]
  split
  · next heq => simp at heq
  · next heq => exact absurd (Option.some.inj heq) hquote
  · next heq => exact absurd (Option.some.inj heq) hslash
  · next heq =>
    obtain rfl := Option.some.inj heq
    rw [if_neg (by omega)]
    exact (yields_advance c cs).bind h

/-- A character of a string that is written as an escape. -/
theorem yields_readStringChars_escape {fuel : Nat} {before cs mid rest x : List Char} {c : Char}
    (he : readEscape.Yields cs c mid) (h : (readStringChars fuel (c :: before)).Yields mid x rest) :
    (readStringChars (fuel + 1) before).Yields ('\\' :: cs) x rest := by
  unfold readStringChars
  exact (yields_peek _).bind ((yields_advance '\\' cs).bind (he.bind h))

/-- An escape by one letter. -/
theorem yields_readEscape_simple {letter c : Char} (cs : List Char) (hu : letter ≠ 'u')
    (h : simpleEscape? letter = some c) : readEscape.Yields (letter :: cs) c cs := by
  unfold readEscape
  refine yields_get fun p => (yields_next letter cs).bind ?_
  split
  · next heq => simp at heq
  · next heq => exact absurd (Option.some.inj heq) hu
  · next heq =>
    obtain rfl := Option.some.inj heq
    rw [h]
    exact yields_pure c cs

theorem yields_readHex4 {n : Nat} {ds : List Char} (h : HexSpelled n ds) (cs : List Char) :
    readHex4.Yields (ds ++ cs) n cs := by
  obtain ⟨hw, hx, hy, hz, rfl⟩ := h
  unfold readHex4
  refine yields_get fun p => ?_
  simp only [List.cons_append, hexValue?_of_hexDigit hw, hexValue?_of_hexDigit hx,
    hexValue?_of_hexDigit hy, hexValue?_of_hexDigit hz]
  exact (yields_set _).bind (yields_pure _ _)

theorem yields_expectPair (c : Char) (cs : List Char) : (expectPair c).Yields (c :: cs) () cs := by
  unfold expectPair
  refine (yields_peek _).bind ?_
  dsimp only [List.head?_cons]
  rw [if_pos (beq_self_eq_true c)]
  exact yields_advance c cs

/-- No character has the code of a surrogate. -/
theorem not_surrogate (c : Char) : c.toNat < 0xD800 ∨ 0xDFFF < c.toNat := by
  have := c.valid
  unfold UInt32.isValidChar Nat.isValidChar at this
  change c.val.toNat < _ ∨ _ < c.val.toNat
  omega

/-- An escape by the code of the character. -/
theorem yields_readEscape_unicode {c : Char} {ds : List Char} (h : HexSpelled c.toNat ds)
    (cs : List Char) : readEscape.Yields ('u' :: (ds ++ cs)) c cs := by
  have hc := not_surrogate c
  have hunicode : readUnicodeEscape.Yields (ds ++ cs) c cs := by
    unfold readUnicodeEscape
    refine (yields_readHex4 h cs).bind ?_
    rw [if_neg (by simp; omega), if_pos (by simp; omega), Char.ofNat_toNat]
    exact yields_pure c cs
  unfold readEscape
  exact yields_get fun p => (yields_next 'u' _).bind hunicode

/-- An escape by a surrogate pair. -/
theorem yields_readEscape_surrogates {c : Char} {high low : Nat} {ds ds' : List Char}
    (h : HexSpelled high ds) (h' : HexSpelled low ds') (hhigh : 0xD800 ≤ high ∧ high < 0xDC00)
    (hlow : 0xDC00 ≤ low ∧ low < 0xE000)
    (hc : c.toNat = 0x10000 + (high - 0xD800) * 0x400 + (low - 0xDC00)) (cs : List Char) :
    readEscape.Yields ('u' :: (ds ++ '\\' :: 'u' :: (ds' ++ cs))) c cs := by
  have hcode : (high - 0xD800) * 1024 + (low - 0xDC00) + 0x10000 = c.toNat := by omega
  have hunicode : readUnicodeEscape.Yields (ds ++ '\\' :: 'u' :: (ds' ++ cs)) c cs := by
    unfold readUnicodeEscape
    refine (yields_readHex4 h _).bind ?_
    rw [if_neg (by simp; omega), if_neg (by simp; omega)]
    refine (yields_expectPair '\\' _).bind ((yields_expectPair 'u' _).bind ?_)
    refine (yields_readHex4 h' cs).bind ?_
    rw [if_neg (by simp; omega), hcode, Char.ofNat_toNat]
    exact yields_pure c cs
  unfold readEscape
  exact yields_get fun p => (yields_next 'u' _).bind hunicode

/-- Each spelling of a character is read as the character. -/
theorem yields_readStringChars_charSpelled {fuel : Nat} {before cs rest x piece : List Char}
    {c : Char} (hc : CharSpelled c piece)
    (h : (readStringChars fuel (c :: before)).Yields cs x rest) :
    (readStringChars (fuel + 1) before).Yields (piece ++ cs) x rest := by
  cases hc with
  | plain hquote hslash hcontrol => exact yields_readStringChars_plain hquote hslash hcontrol h
  | letter hl =>
    obtain ⟨hu, hl⟩ := simpleEscape?_of_mem hl
    exact yields_readStringChars_escape (yields_readEscape_simple cs hu hl) h
  | unicode hds => exact yields_readStringChars_escape (yields_readEscape_unicode hds cs) h
  | surrogates hds hds' hhigh hhigh' hlow hlow' hcode =>
    have he := yields_readEscape_surrogates hds hds' ⟨hhigh, hhigh'⟩ ⟨hlow, hlow'⟩ hcode cs
    rw [List.cons_append, List.cons_append, List.append_assoc]
    exact yields_readStringChars_escape he h

/-- Spelled characters up to the closing quote. -/
theorem yields_readStringChars (rest : List Char) {s cs : List Char} (h : CharsSpelled s cs) :
    ∀ (before : List Char) (fuel : Nat), s.length < fuel →
      (readStringChars fuel before).Yields (cs ++ '"' :: rest) (before.reverse ++ s) rest := by
  induction h with
  | nil =>
    intro before fuel hfuel
    obtain ⟨fuel, rfl⟩ : ∃ k, fuel = k + 1 := ⟨fuel - 1, by omega⟩
    rw [List.append_nil]
    unfold readStringChars
    exact (yields_peek _).bind ((yields_advance '"' rest).bind (yields_pure _ _))
  | @cons c s piece cs hc _ ih =>
    intro before fuel hfuel
    rw [List.length_cons] at hfuel
    obtain ⟨fuel, rfl⟩ : ∃ k, fuel = k + 1 := ⟨fuel - 1, by omega⟩
    have ih := ih (c :: before) fuel (by omega)
    rw [List.reverse_cons, List.append_assoc, List.singleton_append] at ih
    rw [List.append_assoc]
    exact yields_readStringChars_charSpelled hc ih

/-- A spelled string is read, behind its opening quote. -/
theorem yields_readStringBody_of_spelled {s : String} {cs : List Char}
    (h : CharsSpelled s.toList cs) (rest : List Char) :
    readStringBody.Yields (cs ++ '"' :: rest) s rest := by
  have hlength := h.length_le
  unfold readStringBody
  refine yields_get fun p => ?_
  refine (yields_readStringChars rest h [] _ ?_).bind ?_
  · simp only [List.length_append, List.length_cons]
    omega
  · rw [List.reverse_nil, List.nil_append, String.ofList_toList]
    exact yields_pure s rest

/-- A printed string reads back, behind its opening quote. -/
theorem yields_readStringBody (s : String) (rest : List Char) :
    readStringBody.Yields (s.toList.flatMap escapeChar ++ '"' :: rest) s rest :=
  yields_readStringBody_of_spelled (charsSpelled_flatMap s.toList) rest

/-! ## Integers -/

/-- What follows cannot go on with a number. -/
def EndsNumber (rest : List Char) : Prop :=
  ∀ c ∈ rest.head?, c.isDigit = false ∧ c ≠ '.' ∧ c ≠ 'e' ∧ c ≠ 'E'

theorem le_ofDigitChars (cs : List Char) (n : Nat) : n ≤ Nat.ofDigitChars 10 cs n := by
  rw [Nat.ofDigitChars_eq_ofDigitChars_zero]
  have := Nat.le_mul_of_pos_left n (Nat.pow_pos (a := 10) (n := cs.length) (by omega))
  omega

/-- Digits of a number that fits are all passed. -/
theorem accumulate_append {limit : Nat} {rest : List Char} (hrest : EndsNumber rest) :
    ∀ (cs : List Char) (n count : Nat), (∀ c ∈ cs, c.isDigit = true) →
      Nat.ofDigitChars 10 cs n ≤ limit →
      accumulate limit (cs ++ rest) n count = (Nat.ofDigitChars 10 cs n, count + cs.length, false)
  | [], n, count, _, _ => by
    cases rest with
    | nil => simp [accumulate]
    | cons c rest => simp [accumulate, (hrest c rfl).1]
  | c :: cs, n, count, hdigits, hlimit => by
    have hstep : Nat.ofDigitChars 10 (c :: cs) n = Nat.ofDigitChars 10 cs (n * 10 + (c.toNat - 48)) := by
      rw [Nat.ofDigitChars_cons, Nat.mul_comm]
      rfl
    rw [hstep] at hlimit ⊢
    have hfits : ¬ n * 10 + (c.toNat - 48) > limit := by
      have := le_ofDigitChars cs (n * 10 + (c.toNat - 48))
      omega
    have ih := accumulate_append hrest cs (n * 10 + (c.toNat - 48)) (count + 1)
      (fun d hd => hdigits d (List.mem_cons_of_mem c hd)) hlimit
    rw [List.cons_append, accumulate, if_pos (hdigits c List.mem_cons_self)]
    dsimp only
    rw [if_neg hfits, ih, List.length_cons]
    simp [Nat.add_assoc, Nat.add_comm 1]

theorem yields_readDigits {limit n : Nat} {cs rest : List Char} (hrest : EndsNumber rest)
    (hdigits : ∀ c ∈ cs, c.isDigit = true) (hlimit : Nat.ofDigitChars 10 cs n ≤ limit) :
    (readDigits limit n).Yields (cs ++ rest) (Nat.ofDigitChars 10 cs n, cs.length, false) rest := by
  unfold readDigits
  refine yields_get fun p => ?_
  rw [accumulate_append hrest cs n 0 hdigits hlimit, Nat.zero_add]
  dsimp only
  rw [List.drop_left]
  exact (yields_set _).bind (yields_pure _ _)

/-- The first digit of a positive number is not zero. -/
theorem head_toDigits_ne_zero (n : Nat) (h : 0 < n) : (Nat.toDigits 10 n).head? ≠ some '0' := by
  induction n using Nat.strongRecOn with
  | ind n ih =>
    rcases Nat.lt_or_ge n 10 with hn | hn
    · rw [Nat.toDigits_of_lt_base hn, List.head?_cons]
      have : ∀ m < 10, 0 < m → some m.digitChar ≠ some '0' := by decide
      exact this n hn h
    · have hq := ih (n / 10) (by omega) (by omega)
      rw [Nat.toDigits_of_base_le (by omega) hn]
      cases hd : Nat.toDigits 10 (n / 10) with
      | nil => exact absurd hd Nat.toDigits_ne_nil
      | cons d ds => simpa [hd] using hq

/-- Without a fraction and an exponent the number ends behind its digits. -/
theorem yields_readTail {positive : Bool} {n : Nat} {m : Number} {rest : List Char}
    (hrest : EndsNumber rest)
    (h : (if positive then pure (.integer n)
      else if n == 0 || n > 2 ^ 63 then readParts false n 0
      else pure (.integer (-n)) : Reader Number).Yields rest m rest) :
    (readTail positive n none).Yields rest m rest := by
  unfold readTail
  refine (yields_peek rest).bind ?_
  split
  · next heq => exact absurd rfl (hrest '.' heq).2.1
  · next heq => exact absurd rfl (hrest 'e' heq).2.2.1
  · next heq => exact absurd rfl (hrest 'E' heq).2.2.2
  · next heq _ _ _ => cases heq
  · exact h

/-- A printed natural number is read digit by digit. -/
theorem yields_readNumber {positive : Bool} {n : Nat} {m : Number} {rest : List Char}
    (hrest : EndsNumber rest) (hn : n ≤ maxInteger)
    (h : (readTail positive n none).Yields rest m rest) :
    (readNumber positive).Yields (Nat.toDigits 10 n ++ rest) m rest := by
  rcases Nat.eq_zero_or_pos n with rfl | hpos
  · unfold readNumber
    refine yields_get fun p => (yields_next '0' rest).bind ((yields_peek rest).bind ?_)
    cases rest with
    | nil => exact h
    | cons d rest =>
      dsimp only [List.head?_cons]
      rw [if_neg (by simp [(hrest d rfl).1])]
      exact h
  · have hhead := head_toDigits_ne_zero n hpos
    have hvalue := Nat.ofDigitChars_ten_toDigits (n := n)
    have hdigits : ∀ c ∈ Nat.toDigits 10 n, c.isDigit = true :=
      fun c hc => Nat.isDigit_of_mem_toDigits (by decide) (by decide) hc
    cases hd : Nat.toDigits 10 n with
    | nil => exact absurd hd Nat.toDigits_ne_nil
    | cons d ds =>
      rw [hd] at hhead hvalue hdigits
      have hrun : Nat.ofDigitChars 10 ds (d.toNat - 48) = n := by
        rw [Nat.ofDigitChars_cons] at hvalue
        simpa using hvalue
      have hds : (readDigits maxInteger (d.toNat - 48)).Yields (ds ++ rest)
          (Nat.ofDigitChars 10 ds (d.toNat - 48), ds.length, false) rest :=
        yields_readDigits hrest (fun c hc => hdigits c (List.mem_cons_of_mem d hc)) (by omega)
      rw [hrun] at hds
      unfold readNumber
      refine yields_get fun p => (yields_next d (ds ++ rest)).bind ?_
      split
      · next heq => cases heq
      · next heq =>
        rw [Option.some.inj heq] at hhead
        simp at hhead
      · next heq =>
        obtain rfl := Option.some.inj heq
        rw [if_neg (by simp [hdigits d List.mem_cons_self])]
        exact hds.bind h

theorem yields_readNumber_natural {n : Nat} {rest : List Char} (hrest : EndsNumber rest)
    (hn : n ≤ maxInteger) :
    (readNumber true).Yields (Nat.toDigits 10 n ++ rest) (.integer n) rest :=
  yields_readNumber hrest hn (yields_readTail hrest (yields_pure _ _))

/-- A negative number, behind its sign. -/
theorem yields_readNumber_negative {n : Nat} {rest : List Char} (hrest : EndsNumber rest)
    (hpos : 0 < n) (hn : n ≤ 2 ^ 63) :
    (readNumber false).Yields (Nat.toDigits 10 n ++ rest) (.integer (-n)) rest := by
  refine yields_readNumber hrest (Nat.le_trans hn (by decide)) (yields_readTail hrest ?_)
  rw [if_neg Bool.false_ne_true, if_neg (by simp; omega)]
  exact yields_pure _ _

end EmbeddedSolidity.Json
