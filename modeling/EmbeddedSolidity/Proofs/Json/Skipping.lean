import EmbeddedSolidity.Proofs.Json.Document
import EmbeddedSolidity.Proofs.Json.Steps

/-!
# Passing over documents

A value that no key asks for is passed over, and not kept. What can be read as a document can also be
passed over, and the cursor comes to the same place.

* `goes_skipStringBody`, `goes_skipNumber` : tokens can be passed over;
* `Document.Spelled` : how a document is spelled, by its first character;
* `goes_skipAny` : a document can be passed over.
-/

namespace EmbeddedSolidity.Json

open Reader

/-! ## Strings -/

theorem length_of_goes_readHex4 {c c' : Cursor} {n : Nat} (h : readHex4.Goes c n c') :
    c.rest.length = c'.rest.length + 4 := by
  unfold readHex4 at h
  rw [goes_get_bind] at h
  split at h
  · next heq =>
    split at h
    · rw [goes_set_bind, goes_pure] at h
      rw [h.2, heq]
      rfl
    · exact absurd h not_goes_throw
  · split at h
    · exact absurd h not_goes_throw
    · exact absurd h not_goes_throw

theorem goes_expectPair {expected : Char} {c c' : Cursor} (h : (expectPair expected).Goes c () c') :
    c.rest.head? = some expected ∧ c' = c.behindNext := by
  unfold expectPair at h
  rw [goes_peek_bind] at h
  split at h
  · exact absurd h not_goes_failHere
  · next heq =>
    split at h
    · next hbeq => exact ⟨eq_of_beq hbeq ▸ heq, goes_advance.1 h⟩
    · exact absurd h not_goes_failNext

/-- What an escape can be: a letter, or hexadecimal digits, once or as a surrogate pair. -/
theorem goes_readEscape {c c' : Cursor} {ch : Char} (h : readEscape.Goes c ch c') :
    (∃ letter, c.rest.head? = some letter ∧ letter ≠ 'u' ∧ simpleEscape? letter = some ch ∧
      c' = c.behindNext) ∨
    (∃ n, c.rest.head? = some 'u' ∧ readHex4.Goes c.behindNext n c' ∧
      (n < 0xD800 ∨ 0xDFFF < n) ∧ ch = Char.ofNat n) ∨
    (∃ n low mid, c.rest.head? = some 'u' ∧ readHex4.Goes c.behindNext n mid ∧
      mid.rest.head? = some '\\' ∧ mid.behindNext.rest.head? = some 'u' ∧
      readHex4.Goes mid.behindNext.behindNext low c' ∧ (0xD800 ≤ n ∧ n < 0xDC00) ∧
      (0xDC00 ≤ low ∧ low < 0xE000) ∧
      ch = Char.ofNat ((n - 0xD800) * 1024 + (low - 0xDC00) + 0x10000)) := by
  unfold readEscape at h
  rw [goes_get_bind, goes_next_bind] at h
  split at h
  · exact absurd h not_goes_failHere
  · next hu =>
    obtain ⟨n, mid, hhex, h⟩ := goes_bind.1 h
    split at h
    · exact absurd h not_goes_failHere
    · next htrail =>
      simp only [Bool.and_eq_true, decide_eq_true_eq] at htrail
      split at h
      · next hlead =>
        simp only [Bool.or_eq_true, decide_eq_true_eq] at hlead
        obtain ⟨rfl, rfl⟩ := goes_pure.1 h
        exact .inr (.inl ⟨n, hu, hhex, by omega, rfl⟩)
      · next hlead =>
        simp only [Bool.or_eq_true, decide_eq_true_eq] at hlead
        obtain ⟨⟨⟩, mid₁, hpair, h⟩ := goes_bind.1 h
        obtain ⟨hslash, rfl⟩ := goes_expectPair hpair
        obtain ⟨⟨⟩, mid₂, hpair, h⟩ := goes_bind.1 h
        obtain ⟨hletter, rfl⟩ := goes_expectPair hpair
        obtain ⟨low, mid₃, hlow, h⟩ := goes_bind.1 h
        split at h
        · exact absurd h not_goes_failHere
        · next hrange =>
          simp only [Bool.or_eq_true, decide_eq_true_eq] at hrange
          rw [goes_pure] at h
          obtain ⟨hch, rfl⟩ := h
          exact .inr (.inr ⟨n, low, mid, hu, hhex, hslash, hletter, hlow, by omega, by omega, hch⟩)
  · next letter hu hletter =>
    split at h
    · next ch' heq =>
      obtain ⟨rfl, rfl⟩ := goes_pure.1 h
      exact .inl ⟨letter, hletter, hu, heq, rfl⟩
    · exact absurd h not_goes_throw

/-- An escape by one letter is passed over. -/
theorem goes_skipStringBody_letter {fuel : Nat} {c c' : Cursor} {letter : Char}
    (h : c.rest.head? = some '\\') (hletter : c.behindNext.rest.head? = some letter)
    (hu : letter ≠ 'u') (hsome : (simpleEscape? letter).isSome)
    (hrest : (skipStringBody fuel).Goes c.behindNext.behindNext () c') :
    (skipStringBody (fuel + 1)).Goes c () c' := by
  rw [skipStringBody, goes_peek_bind, h]
  refine goes_advance_bind.2 ?_
  rw [goes_get_bind, goes_next_bind, hletter]
  split
  · next heq => cases heq
  · next heq => exact absurd (Option.some.inj heq) hu
  · next heq =>
    obtain rfl := Option.some.inj heq
    rw [if_pos hsome]
    exact hrest

/-- An escape by hexadecimal digits is passed over. -/
theorem goes_skipStringBody_hex {fuel n : Nat} {c mid c' : Cursor} (h : c.rest.head? = some '\\')
    (hu : c.behindNext.rest.head? = some 'u') (hhex : readHex4.Goes c.behindNext.behindNext n mid)
    (hrest : (skipStringBody fuel).Goes mid () c') : (skipStringBody (fuel + 1)).Goes c () c' := by
  rw [skipStringBody, goes_peek_bind, h]
  refine goes_advance_bind.2 ?_
  rw [goes_get_bind, goes_next_bind, hu]
  exact goes_bind.2 ⟨n, mid, hhex, hrest⟩

/-- The characters of a string can be passed over. -/
theorem goes_skipStringBody {n : Nat} {before out : List Char} {c c' : Cursor}
    (h : (readStringChars n before).Goes c out c') :
    c'.rest.length < c.rest.length ∧
      ∀ fuel, c.rest.length ≤ fuel → (skipStringBody fuel).Goes c () c' := by
  induction n generalizing before c with
  | zero => exact absurd h not_goes_failHere
  | succ n ih =>
    unfold readStringChars at h
    rw [goes_peek_bind] at h
    split at h
    · exact absurd h not_goes_failHere
    · -- the closing quote
      next hhead =>
      have hpos := Cursor.length_pos_of_head? hhead
      rw [goes_advance_bind, goes_pure] at h
      obtain ⟨-, rfl⟩ := h
      refine ⟨by rw [Cursor.length_behindNext]; omega, fun fuel hfuel => ?_⟩
      obtain ⟨fuel, rfl⟩ : ∃ m, fuel = m + 1 := ⟨fuel - 1, by omega⟩
      rw [skipStringBody, goes_peek_bind, hhead]
      exact goes_advance.2 rfl
    · -- an escape
      next hhead =>
      have hpos := Cursor.length_pos_of_head? hhead
      have hnext := Cursor.length_behindNext c
      have hnext₂ := Cursor.length_behindNext c.behindNext
      obtain ⟨ch, mid, hescape, h⟩ := goes_bind.1 (goes_advance_bind.1 h)
      obtain ⟨hlt, hskip⟩ := ih h
      obtain ⟨letter, hletter, hu, hsome, rfl⟩ | ⟨k, hu, hhex, -⟩ |
        ⟨k, low, mid', hu, hhex, hslash, hu', hlow, -⟩ := goes_readEscape hescape
      · have hpos₂ := Cursor.length_pos_of_head? hletter
        refine ⟨by omega, fun fuel hfuel => ?_⟩
        obtain ⟨fuel, rfl⟩ : ∃ m, fuel = m + 1 := ⟨fuel - 1, by omega⟩
        exact goes_skipStringBody_letter hhead hletter hu (by rw [hsome]; rfl) (hskip fuel (by omega))
      · have hdigits := length_of_goes_readHex4 hhex
        refine ⟨by omega, fun fuel hfuel => ?_⟩
        obtain ⟨fuel, rfl⟩ : ∃ m, fuel = m + 1 := ⟨fuel - 1, by omega⟩
        exact goes_skipStringBody_hex hhead hu hhex (hskip fuel (by omega))
      · -- the second half of a surrogate pair is passed over as an escape of its own
        have hdigits := length_of_goes_readHex4 hhex
        have hdigits' := length_of_goes_readHex4 hlow
        have hnext₃ := Cursor.length_behindNext mid'
        have hnext₄ := Cursor.length_behindNext mid'.behindNext
        refine ⟨by omega, fun fuel hfuel => ?_⟩
        obtain ⟨fuel, rfl⟩ : ∃ m, fuel = m + 2 := ⟨fuel - 2, by omega⟩
        exact goes_skipStringBody_hex hhead hu hhex
          (goes_skipStringBody_hex hslash hu' hlow (hskip fuel (by omega)))
    · -- a character that stands for itself
      next ch hquote hslash hhead =>
      have hpos := Cursor.length_pos_of_head? hhead
      have hnext := Cursor.length_behindNext c
      split at h
      · exact absurd h not_goes_failNext
      · next hcontrol =>
        obtain ⟨hlt, hskip⟩ := ih (goes_advance_bind.1 h)
        refine ⟨by omega, fun fuel hfuel => ?_⟩
        obtain ⟨fuel, rfl⟩ : ∃ m, fuel = m + 1 := ⟨fuel - 1, by omega⟩
        rw [skipStringBody, goes_peek_bind, hhead]
        split
        · next heq => cases heq
        · next heq => exact absurd (Option.some.inj heq) hquote
        · next heq => exact absurd (Option.some.inj heq) hslash
        · next heq =>
          obtain rfl := Option.some.inj heq
          rw [if_neg hcontrol]
          exact goes_advance_bind.2 (hskip fuel (by omega))

/-- A string can be passed over. -/
theorem goes_skipStringBody_of_readStringBody {c c' : Cursor} {s : String}
    (h : readStringBody.Goes c s c') :
    c'.rest.length < c.rest.length ∧ (skipStringBody (c.rest.length + 1)).Goes c () c' := by
  unfold readStringBody at h
  obtain ⟨out, mid, hchars, h⟩ := goes_bind.1 (goes_get_bind.1 h)
  obtain rfl := (goes_pure.1 h).2
  obtain ⟨hlt, hskip⟩ := goes_skipStringBody hchars
  exact ⟨hlt, hskip _ (Nat.le_succ _)⟩

/-! ## Numbers -/

theorem accumulate_forward {limit n count : Nat} {cs : List Char} {n' count' : Nat} {exceeds : Bool}
    (h : accumulate limit cs n count = (n', count', exceeds)) :
    count ≤ count' ∧
      (cs.takeWhile Char.isDigit).length =
        count' - count + ((cs.drop (count' - count)).takeWhile Char.isDigit).length ∧
      (exceeds = true → 0 < ((cs.drop (count' - count)).takeWhile Char.isDigit).length) ∧
      (exceeds = false → ((cs.drop (count' - count)).takeWhile Char.isDigit).length = 0) := by
  induction cs generalizing n count with
  | nil =>
    obtain ⟨rfl, rfl, rfl⟩ : n = n' ∧ count = count' ∧ false = exceeds := by
      simpa [accumulate] using h
    simp
  | cons x cs ih =>
    unfold accumulate at h
    split at h
    · next hx =>
      dsimp only at h
      split at h
      · cases h
        simp [hx]
      · obtain ⟨hle, hlength, hmore, hnone⟩ := ih h
        obtain ⟨k, rfl⟩ : ∃ k, count' = count + 1 + k := ⟨count' - (count + 1), by omega⟩
        have hsub : count + 1 + k - (count + 1) = k := by omega
        have hsub' : count + 1 + k - count = k + 1 := by omega
        rw [hsub] at hlength hmore hnone
        rw [hsub', List.drop_succ_cons, List.takeWhile_cons_of_pos hx, List.length_cons]
        exact ⟨by omega, by omega, hmore, hnone⟩
    · next hx =>
      cases h
      simp [hx]

/-- Digits that are read are digits that stand there, and a digit that would make the number too
large is still to come. -/
theorem goes_readDigits {limit n : Nat} {c c' : Cursor} {n' count : Nat} {exceeds : Bool}
    (h : (readDigits limit n).Goes c (n', count, exceeds) c') :
    c' = c.forward count ∧ c.digits = count + c'.digits ∧ (exceeds = true → 0 < c'.digits) ∧
      (exceeds = false → c'.digits = 0) := by
  unfold readDigits at h
  rw [goes_get_bind] at h
  dsimp only at h
  rw [goes_set_bind, goes_pure] at h
  obtain ⟨heq, rfl⟩ := h
  obtain ⟨rfl, rfl, rfl⟩ : n' = (accumulate limit c.rest n 0).1 ∧
      count = (accumulate limit c.rest n 0).2.1 ∧
      exceeds = (accumulate limit c.rest n 0).2.2 :=
    ⟨congrArg (·.1) heq, congrArg (·.2.1) heq, congrArg (·.2.2) heq⟩
  obtain ⟨-, hlength, hmore, hnone⟩ := accumulate_forward (rfl : accumulate limit c.rest n 0 = _)
  exact ⟨rfl, hlength, hmore, hnone⟩

/-- Behind digits that are read the other digits follow. -/
theorem behindDigits_of_goes_readDigits {limit n : Nat} {c c' : Cursor} {n' count : Nat}
    {exceeds : Bool} (h : (readDigits limit n).Goes c (n', count, exceeds) c') :
    c'.behindDigits = c.behindDigits := by
  obtain ⟨rfl, hdigits, -⟩ := goes_readDigits h
  unfold Cursor.behindDigits
  rw [Cursor.forward_forward, hdigits]

/-- Behind digits that all fit no digit follows. -/
theorem eq_behindDigits_of_goes_readDigits {limit n : Nat} {c c' : Cursor} {n' count : Nat}
    (h : (readDigits limit n).Goes c (n', count, false) c') : c' = c.behindDigits := by
  obtain ⟨rfl, hdigits, -, hnone⟩ := goes_readDigits h
  unfold Cursor.behindDigits
  rw [hdigits, hnone rfl, Nat.add_zero]

theorem eq_of_goes_readParts {positive : Bool} {significand : Nat} {exponent : Int} {c c' : Cursor}
    {x : Number} (h : (readParts positive significand exponent).Goes c x c') : c' = c := by
  unfold readParts at h
  split at h
  · exact (goes_pure.1 h).2
  · exact absurd h not_goes_failHere

/-- The digit that a number begins with and the digits behind it are passed over at once. -/
theorem behindDigits_of_goes_digits {limit n : Nat} {c c' : Cursor} {d : Char} {n' count : Nat}
    {exceeds : Bool} (h : c.rest.head? = some d) (hd : d.isDigit = true)
    (hread : (readDigits limit n).Goes c.behindNext (n', count, exceeds) c') :
    c'.behindDigits = c.behindDigits := by
  rw [behindDigits_of_goes_readDigits hread, Cursor.behindDigits_behindNext h hd]

/-- The character in front of a number may be missing. -/
theorem goes_ite_advance_bind {α : Type} {b : Bool} {r : Reader α} {c c' : Cursor} {a : α} :
    (if b = true then advance >>= fun _ => r else r).Goes c a c' ↔
      r.Goes (if b = true then c.behindNext else c) a c' := by
  split
  · exact goes_advance_bind
  · exact Iff.rfl

/-- The digits of an exponent can be passed over behind their sign. -/
theorem goes_skipExponent {positive : Bool} {significand : Nat} {start : Int} {c c' : Cursor}
    {x : Number} (h : (readExponent positive significand start).Goes c x c') :
    skipExponent.Goes c () c' ∧ c'.rest.length ≤ c.rest.length := by
  unfold readExponent at h
  unfold skipExponent
  rw [goes_advance_bind, goes_peek_bind] at h ⊢
  generalize c.behindNext.rest.head? = sign at h ⊢
  dsimp only at h
  rw [goes_ite_advance_bind] at h ⊢
  have hlength : (if (sign == some '+' || sign == some '-') = true then c.behindNext.behindNext
      else c.behindNext).rest.length ≤ c.rest.length := by
    split
    · rw [Cursor.length_behindNext, Cursor.length_behindNext]
      omega
    · rw [Cursor.length_behindNext]
      omega
  generalize (if (sign == some '+' || sign == some '-') = true then c.behindNext.behindNext
    else c.behindNext) = digits at h hlength ⊢
  rw [goes_get_bind, goes_next_bind] at h
  split at h
  · exact absurd h not_goes_failHere
  · next d hhead =>
    split at h
    · obtain ⟨_, _, h, -⟩ := goes_bind.1 h
      exact absurd h not_goes_throw
    · next hd =>
      rw [Bool.not_eq_true', Bool.not_eq_false] at hd
      obtain ⟨⟨n, count, exceeds⟩, mid, hread, h⟩ := goes_bind.1 h
      have hbehind := behindDigits_of_goes_digits hhead hd hread
      have hlast : c' = digits.behindDigits := by
        dsimp only at h
        split at h
        · next hexceeds =>
          obtain rfl : exceeds = true := hexceeds
          obtain ⟨d', hhead', hd'⟩ := Cursor.exists_digit ((goes_readDigits hread).2.2.1 rfl)
          rw [goes_advance_bind] at h
          split at h
          · exact absurd h not_goes_failHere
          · rw [goes_skipDigits_bind, goes_pure] at h
            rw [h.2, Cursor.behindDigits_behindNext hhead' hd', hbehind]
        · next hexceeds =>
          obtain rfl : exceeds = false := by simpa using hexceeds
          rw [eq_of_goes_readParts h, eq_behindDigits_of_goes_readDigits hread,
            Cursor.behindDigits_behindNext hhead hd]
      rw [goes_peek_bind, hhead]
      dsimp only
      rw [if_pos hd, goes_skipDigits_bind, goes_pure]
      exact ⟨⟨rfl, hlast⟩, hlast ▸ Nat.le_trans (Cursor.length_behindDigits digits) hlength⟩

/-- The exponent of a number can be passed over, if it has one. -/
theorem goes_skip_behindDigits {positive : Bool} {significand : Nat} {exponent : Int}
    {c c' : Cursor} {x : Number} (h : (readBehindDigits positive significand exponent).Goes c x c') :
    (do
      match ← peek with
      | some 'e' | some 'E' => skipExponent
      | _ => return () : Reader Unit).Goes c () c' ∧ c'.rest.length ≤ c.rest.length := by
  unfold readBehindDigits at h
  rw [goes_peek_bind] at h
  split at h
  · next hhead =>
    rw [goes_peek_bind, hhead]
    exact goes_skipExponent h
  · next hhead =>
    rw [goes_peek_bind, hhead]
    exact goes_skipExponent h
  · next hlower hupper =>
    obtain rfl := eq_of_goes_readParts h
    rw [goes_peek_bind]
    split
    · next heq => exact absurd heq hlower
    · next heq => exact absurd heq hupper
    · exact ⟨goes_pure.2 ⟨rfl, rfl⟩, Nat.le_refl _⟩

/-- A fraction can be passed over, with the exponent behind it. -/
theorem goes_skipTail_fraction {positive : Bool} {significand : Nat} {start : Int} {c c' : Cursor}
    {x : Number} (hhead : c.rest.head? = some '.')
    (h : (readFraction positive significand start).Goes c x c') :
    skipTail.Goes c () c' ∧ c'.rest.length ≤ c.rest.length := by
  unfold readFraction at h
  rw [goes_advance_bind] at h
  obtain ⟨⟨n, count, exceeds⟩, mid, hread, h⟩ := goes_bind.1 h
  obtain ⟨-, hdigits, hmore, hnone⟩ := goes_readDigits hread
  have hbehind := behindDigits_of_goes_readDigits hread
  have htail : 0 < c.behindNext.digits ∧
      (readBehindDigits positive n (start - count)).Goes c.behindNext.behindDigits x c' := by
    dsimp only at h
    split at h
    · next hexceeds =>
      rw [goes_skipDigits_bind, hbehind] at h
      exact ⟨by have := hmore hexceeds; omega, h⟩
    · next hexceeds =>
      obtain rfl : exceeds = false := by simpa using hexceeds
      split at h
      · rw [goes_peek_bind] at h
        split at h
        · obtain ⟨_, _, h, -⟩ := goes_bind.1 h
          exact absurd h not_goes_failNext
        · obtain ⟨_, _, h, -⟩ := goes_bind.1 h
          exact absurd h not_goes_failNext
      · next hcount =>
        rw [beq_iff_eq] at hcount
        rw [eq_behindDigits_of_goes_readDigits hread] at h
        exact ⟨by omega, h⟩
  obtain ⟨hpos, htail⟩ := htail
  obtain ⟨hskip, hlength⟩ := goes_skip_behindDigits htail
  constructor
  · unfold skipTail
    rw [goes_peek_bind, hhead]
    refine goes_advance_bind.2 (goes_skipDigits_bind.2 ?_)
    rw [if_neg (by rw [beq_iff_eq]; omega)]
    exact hskip
  · have := Cursor.length_behindDigits c.behindNext
    have := Cursor.length_behindNext c
    omega

/-- What follows the digits of an integer can be passed over. -/
theorem goes_skipTail {positive : Bool} {significand : Nat} {dropped : Option Nat} {c c' : Cursor}
    {x : Number} (h : (readTail positive significand dropped).Goes c x c') :
    skipTail.Goes c () c' ∧ c'.rest.length ≤ c.rest.length := by
  have exponent : ∀ {ch : Char} {start : Int}, c.rest.head? = some ch → ch = 'e' ∨ ch = 'E' →
      (readExponent positive significand start).Goes c x c' →
        skipTail.Goes c () c' ∧ c'.rest.length ≤ c.rest.length := by
    intro ch start hhead hch h
    obtain ⟨hskip, hlength⟩ := goes_skipExponent h
    refine ⟨?_, hlength⟩
    unfold skipTail
    rw [goes_peek_bind, hhead]
    obtain rfl | rfl := hch <;> exact hskip
  have nothing : c.rest.head? ≠ some '.' → c.rest.head? ≠ some 'e' → c.rest.head? ≠ some 'E' →
      c' = c → skipTail.Goes c () c' ∧ c'.rest.length ≤ c.rest.length := by
    rintro hpoint hlower hupper rfl
    refine ⟨?_, Nat.le_refl _⟩
    unfold skipTail
    rw [goes_peek_bind]
    split
    · next heq => exact absurd heq hpoint
    · next heq => exact absurd heq hlower
    · next heq => exact absurd heq hupper
    · exact goes_pure.2 ⟨rfl, rfl⟩
  unfold readTail at h
  rw [goes_peek_bind] at h
  split at h
  · next hhead => exact goes_skipTail_fraction hhead h
  · next hhead => exact exponent hhead (.inl rfl) h
  · next hhead => exact exponent hhead (.inr rfl) h
  · next hpoint hlower hupper =>
    exact nothing hpoint hlower hupper (eq_of_goes_readParts h)
  · next hpoint hlower hupper =>
    refine nothing hpoint hlower hupper ?_
    split at h
    · exact (goes_pure.1 h).2
    · split at h
      · exact eq_of_goes_readParts h
      · exact (goes_pure.1 h).2

/-- A number can be passed over, behind its sign. -/
theorem goes_skipNumber {positive : Bool} {c c' : Cursor} {x : Number}
    (h : (readNumber positive).Goes c x c') :
    skipNumber.Goes c () c' ∧ c'.rest.length < c.rest.length := by
  have hnext := Cursor.length_behindNext c
  unfold readNumber at h
  unfold skipNumber
  rw [goes_get_bind, goes_next_bind] at h
  split at h
  · exact absurd h not_goes_failHere
  · -- a zero in front of no digit
    next hhead =>
    have hpos := Cursor.length_pos_of_head? hhead
    rw [goes_peek_bind] at h
    split at h
    · next d hd =>
      split at h
      · exact absurd h not_goes_failNext
      · next hdigit =>
        obtain ⟨hskip, hlength⟩ := goes_skipTail h
        rw [goes_peek_bind, hhead]
        refine ⟨goes_advance_bind.2 (goes_peek_bind.2 ?_), by omega⟩
        rw [hd]
        dsimp only
        rw [if_neg hdigit]
        exact hskip
    · next hend =>
      obtain ⟨hskip, hlength⟩ := goes_skipTail h
      unfold skipTail at hskip
      rw [goes_peek_bind, hend] at hskip
      rw [goes_peek_bind, hhead]
      refine ⟨goes_advance_bind.2 (goes_peek_bind.2 ?_), by omega⟩
      rw [hend]
      exact hskip
  · -- an integer that begins with another digit
    next d hzero hhead =>
    have hpos := Cursor.length_pos_of_head? hhead
    split at h
    · obtain ⟨_, _, h, -⟩ := goes_bind.1 h
      exact absurd h not_goes_throw
    · next hd =>
      rw [Bool.not_eq_true', Bool.not_eq_false] at hd
      obtain ⟨⟨n, count, exceeds⟩, mid, hread, h⟩ := goes_bind.1 h
      have hbehind := behindDigits_of_goes_digits hhead hd hread
      have htail : ∃ dropped, (readTail positive n dropped).Goes c.behindDigits x c' := by
        dsimp only at h
        split at h
        · rw [goes_skipDigits_bind, hbehind] at h
          exact ⟨_, h⟩
        · next hexceeds =>
          obtain rfl : exceeds = false := by simpa using hexceeds
          rw [eq_behindDigits_of_goes_readDigits hread,
            Cursor.behindDigits_behindNext hhead hd] at h
          exact ⟨_, h⟩
      obtain ⟨dropped, htail⟩ := htail
      obtain ⟨hskip, hlength⟩ := goes_skipTail htail
      constructor
      · rw [goes_peek_bind]
        split
        · next heq => rw [hhead] at heq; cases heq
        · next heq => exact absurd (Option.some.inj (hhead.symm.trans heq)) hzero
        · next heq =>
          obtain rfl := Option.some.inj (hhead.symm.trans heq)
          rw [if_pos hd, goes_skipDigits_bind]
          exact hskip
      · have := Cursor.length_behindDigits c.behindNext
        rw [Cursor.behindDigits_behindNext hhead hd] at this
        omega

/-! ## Documents -/

/-- One more member, behind its key. -/
def addMember (item : Reader Document) (members : List (String × Document)) (key : String) :
    Reader (List (String × Document)) := do
  readColon
  return members ++ [(key, ← item)]

/-- How a document is spelled at a cursor, without space in front: its first character tells what it
is. Items and members are at most `depth` containers deep. -/
inductive Document.Spelled (depth : Nat) (c c' : Cursor) : Document → Prop where
  | word {ch : Char} {letters : String} {doc : Document} :
      (ch, letters, doc) ∈
        [('n', "ull", .null), ('t', "rue", .boolean true), ('f', "alse", .boolean false)] →
      c.rest.head? = some ch → (readWord letters.toList).Goes c.behindNext () c' →
      Spelled depth c c' doc
  | negative {n : Number} :
      c.rest.head? = some '-' → (readNumber false).Goes c.behindNext n c' →
      Spelled depth c c' (.number n)
  | positive {ch : Char} {n : Number} :
      c.rest.head? = some ch → ch.isDigit = true → (readNumber true).Goes c n c' →
      Spelled depth c c' (.number n)
  | string {s : String} :
      c.rest.head? = some '"' → readStringBody.Goes c.behindNext s c' → Spelled depth c c' (.string s)
  | array {items : List Document} {mid : Cursor} :
      0 < depth → c.rest.head? = some '[' →
      (readItems (reader depth) (c.behindNext.rest.length + 1) true []).Goes c.behindNext items mid →
      endList.Goes mid () c' → Spelled depth c c' (.array items)
  | object {members : List (String × Document)} {mid : Cursor} :
      0 < depth → c.rest.head? = some '\x7b' →
      (readMembers (addMember (reader depth)) (c.behindNext.rest.length + 1) true []).Goes
        c.behindNext members mid →
      endObject.Goes mid () c' → Spelled depth c c' (.object members)

/-- A word gives what it stands for. -/
theorem goes_readRest {α : Type} {letters : String} {a b : α} {c c' : Cursor} :
    (readRest letters a).Goes c b c' ↔ b = a ∧ (readWord letters.toList).Goes c.behindNext () c' := by
  unfold readRest
  rw [goes_advance_bind, goes_bind]
  constructor
  · rintro ⟨⟨⟩, mid, hword, h⟩
    obtain ⟨rfl, rfl⟩ := goes_pure.1 h
    exact ⟨rfl, hword⟩
  · rintro ⟨rfl, hword⟩
    exact ⟨(), c', hword, goes_pure.2 ⟨rfl, rfl⟩⟩

theorem goes_enter_bind {α : Type} {depth : Nat} {f : Unit → Reader α} {c c' : Cursor} {a : α} :
    (enter depth >>= f).Goes c a c' ↔ 1 < depth ∧ (f ()).Goes c.behindNext a c' := by
  unfold enter
  by_cases h : depth ≤ 1
  · rw [if_pos h]
    constructor
    · intro hgo
      obtain ⟨_, _, hgo, -⟩ := goes_bind.1 hgo
      exact absurd hgo not_goes_failNext
    · exact fun hgo => absurd hgo.1 (by omega)
  · rw [if_neg h, goes_advance_bind]
    exact ⟨fun hgo => ⟨by omega, hgo⟩, fun hgo => hgo.2⟩

/-- What is read as a document is spelled so, behind space. -/
theorem Document.spelled {depth : Nat} {c c' : Cursor} {doc : Document}
    (h : (reader (depth + 1)).Goes c doc c') : Spelled depth c.behindSpace c' doc := by
  unfold reader at h
  rw [goes_peekToken_bind] at h
  split at h
  · exact absurd h not_goes_failNext
  · next hhead =>
    obtain ⟨rfl, hword⟩ := goes_readRest.1 h
    exact .word (.head _) hhead hword
  · next hhead =>
    obtain ⟨rfl, hword⟩ := goes_readRest.1 h
    exact .word (.tail _ (.head _)) hhead hword
  · next hhead =>
    obtain ⟨rfl, hword⟩ := goes_readRest.1 h
    exact .word (.tail _ (.tail _ (.head _))) hhead hword
  · next hhead =>
    obtain ⟨n, mid, hn, h⟩ := goes_bind.1 (goes_advance_bind.1 h)
    obtain ⟨rfl, rfl⟩ := goes_pure.1 h
    exact .negative hhead hn
  · next hhead =>
    obtain ⟨s, mid, hs, h⟩ := goes_bind.1 (goes_advance_bind.1 h)
    obtain ⟨rfl, rfl⟩ := goes_pure.1 h
    exact .string hhead hs
  · next hhead =>
    rw [goes_enter_bind, goes_fuelHere_bind] at h
    obtain ⟨hdepth, h⟩ := h
    obtain ⟨items, mid, hwithin, h⟩ := goes_bind.1 h
    obtain ⟨rfl, rfl⟩ := goes_pure.1 h
    obtain ⟨mid', hitems, hend⟩ := goes_within.1 hwithin
    exact .array (Nat.lt_of_succ_lt_succ hdepth) hhead hitems hend
  · next hhead =>
    rw [goes_enter_bind, goes_fuelHere_bind] at h
    obtain ⟨hdepth, h⟩ := h
    obtain ⟨members, mid, hwithin, h⟩ := goes_bind.1 h
    obtain ⟨rfl, rfl⟩ := goes_pure.1 h
    obtain ⟨mid', hmembers, hend⟩ := goes_within.1 hwithin
    exact .object (Nat.lt_of_succ_lt_succ hdepth) hhead hmembers hend
  · next ch _ _ _ _ _ _ _ hhead =>
    split at h
    · next hdigit =>
      obtain ⟨n, mid, hn, h⟩ := goes_bind.1 h
      obtain ⟨rfl, rfl⟩ := goes_pure.1 h
      exact .positive hhead hdigit hn
    · exact absurd h not_goes_failNext

/-! ## Lists and objects -/

/-- Whether another item follows, and where it does. -/
theorem goes_hasItem {first more : Bool} {c c' : Cursor} (h : (hasItem first).Goes c more c') :
    (more = false ∧ c.behindSpace.rest.head? = some ']' ∧ c' = c.behindSpace) ∨
    (more = true ∧ first = true ∧ (∃ ch, c.behindSpace.rest.head? = some ch ∧ ch ≠ ']') ∧
      c' = c.behindSpace) ∨
    (more = true ∧ first = false ∧ c.behindSpace.rest.head? = some ',' ∧
      c' = c.behindSpace.behindNext.behindSpace) := by
  unfold hasItem at h
  rw [goes_peekToken_bind] at h
  split at h
  · exact absurd h not_goes_failNext
  · next hhead => exact .inl ⟨(goes_pure.1 h).1, hhead, (goes_pure.1 h).2⟩
  · next ch hne hhead =>
    split at h
    · next hfirst =>
      exact .inr (.inl ⟨(goes_pure.1 h).1, hfirst, ⟨ch, hhead, hne⟩, (goes_pure.1 h).2⟩)
    · next hfirst =>
      split at h
      · next hcomma =>
        obtain rfl := eq_of_beq hcomma
        rw [goes_advance_bind, goes_peekToken_bind] at h
        split at h
        · exact absurd h not_goes_failNext
        · exact .inr (.inr ⟨(goes_pure.1 h).1, by simpa using hfirst, hhead, (goes_pure.1 h).2⟩)
        · exact absurd h not_goes_failNext
      · exact absurd h not_goes_failNext

theorem goes_endList {c c' : Cursor} (h : endList.Goes c () c') :
    c.behindSpace.rest.head? = some ']' ∧ c' = c.behindSpace.behindNext := by
  unfold endList at h
  rw [goes_peekToken_bind] at h
  split at h
  · next hhead => exact ⟨hhead, goes_advance.1 h⟩
  · rw [goes_advance_bind, goes_peekToken_bind] at h
    split at h
    · exact absurd h not_goes_failNext
    · exact absurd h not_goes_failNext
  · exact absurd h not_goes_failNext
  · exact absurd h not_goes_failNext

/-- Whether another member follows, and where its key does. -/
theorem goes_hasMember {first more : Bool} {c c' : Cursor} (h : (hasMember first).Goes c more c') :
    (more = false ∧ c.behindSpace.rest.head? = some '\x7d' ∧ c' = c.behindSpace) ∨
    (more = true ∧ first = true ∧ c.behindSpace.rest.head? = some '"' ∧ c' = c.behindSpace) ∨
    (more = true ∧ first = false ∧ c.behindSpace.rest.head? = some ',' ∧
      c' = c.behindSpace.behindNext.behindSpace ∧ c'.rest.head? = some '"') := by
  unfold hasMember at h
  rw [goes_peekToken_bind] at h
  split at h
  · exact absurd h not_goes_failNext
  · next hhead => exact .inl ⟨(goes_pure.1 h).1, hhead, (goes_pure.1 h).2⟩
  · next ch hne hhead =>
    split at h
    · next hfirst =>
      split at h
      · next hquote =>
        obtain rfl := eq_of_beq hquote
        exact .inr (.inl ⟨(goes_pure.1 h).1, hfirst, hhead, (goes_pure.1 h).2⟩)
      · exact absurd h not_goes_failNext
    · next hfirst =>
      split at h
      · next hcomma =>
        obtain rfl := eq_of_beq hcomma
        rw [goes_advance_bind, goes_peekToken_bind] at h
        split at h
        · next hquote =>
          obtain ⟨hmore, rfl⟩ := goes_pure.1 h
          exact .inr (.inr ⟨hmore, by simpa using hfirst, hhead, rfl, hquote⟩)
        · exact absurd h not_goes_failNext
        · exact absurd h not_goes_failNext
        · exact absurd h not_goes_failNext
      · exact absurd h not_goes_failNext

theorem goes_endObject {c c' : Cursor} (h : endObject.Goes c () c') :
    c.behindSpace.rest.head? = some '\x7d' ∧ c' = c.behindSpace.behindNext := by
  unfold endObject at h
  rw [goes_peekToken_bind] at h
  split at h
  · next hhead => exact ⟨hhead, goes_advance.1 h⟩
  · exact absurd h not_goes_failNext
  · exact absurd h not_goes_failNext
  · exact absurd h not_goes_failNext

theorem goes_readColon {c c' : Cursor} (h : readColon.Goes c () c') :
    c.behindSpace.rest.head? = some ':' ∧ c' = c.behindSpace.behindNext := by
  unfold readColon at h
  rw [goes_peekToken_bind] at h
  split at h
  · next hhead => exact ⟨hhead, goes_advance.1 h⟩
  · exact absurd h not_goes_failNext
  · exact absurd h not_goes_failNext

/-- Pass what follows an item: the other items and the end of the list. -/
def skipBehindItem (fuel : Nat) : Reader Unit := do
  match ← peekToken with
  | none => failNext .endInList
  | some ',' => advance; skipItems fuel
  | some ']' => advance
  | some _ => failNext .expectedListCommaOrEnd

/-- Pass what follows a member: the other members and the end of the object. -/
def skipBehindMember (fuel : Nat) : Reader Unit := do
  match ← peekToken with
  | none => failNext .endInObject
  | some ',' => advance; skipMembers fuel
  | some '\x7d' => advance
  | some _ => failNext .expectedObjectCommaOrEnd

theorem goes_skipItems {fuel : Nat} {c mid c' : Cursor} (h : (skipValue fuel).Goes c () mid)
    (h' : (skipBehindItem fuel).Goes mid () c') : (skipItems (fuel + 1)).Goes c () c' := by
  rw [skipItems]
  exact goes_bind.2 ⟨(), mid, h, h'⟩

theorem goes_skipMembers {fuel : Nat} {c c₁ c₂ c₃ c' : Cursor}
    (hquote : c.behindSpace.rest.head? = some '"')
    (hkey : (skipStringBody (c.behindSpace.behindNext.rest.length + 1)).Goes
      c.behindSpace.behindNext () c₁)
    (hcolon : readColon.Goes c₁ () c₂) (h : (skipValue fuel).Goes c₂ () c₃)
    (h' : (skipBehindMember fuel).Goes c₃ () c') : (skipMembers (fuel + 1)).Goes c () c' := by
  rw [skipMembers, goes_peekToken_bind, hquote]
  refine goes_advance_bind.2 (goes_fuelHere_bind.2 (goes_bind.2 ⟨(), c₁, hkey, ?_⟩))
  exact goes_bind.2 ⟨(), c₂, hcolon, goes_bind.2 ⟨(), c₃, h, h'⟩⟩

/-- Space in front of a value makes no difference. -/
theorem goes_skipValue_behindSpace {fuel : Nat} {c c' : Cursor} :
    (skipValue fuel).Goes c.behindSpace () c' ↔ (skipValue fuel).Goes c () c' := by
  cases fuel with
  | zero =>
    rw [skipValue]
    exact ⟨fun h => absurd h not_goes_failNext, fun h => absurd h not_goes_failNext⟩
  | succ fuel =>
    rw [skipValue, goes_peekToken_bind, goes_peekToken_bind, Cursor.behindSpace_behindSpace]

/-- What the reader gives can also be passed over. -/
def Skippable {α : Type} (r : Reader α) : Prop :=
  ∀ ⦃c a c'⦄, r.Goes c a c' → c'.rest.length < c.rest.length ∧
    ∀ fuel, 2 * c.rest.length ≤ fuel → (skipValue fuel).Goes c () c'

/-- Items behind an item can be passed over, with the end of their list. -/
theorem goes_skipBehindItem {α : Type} {item : Reader α} (hitem : Skippable item) {n : Nat}
    {before items : List α} {c mid c' : Cursor}
    (h : (readItems item n false before).Goes c items mid) (hend : endList.Goes mid () c') :
    c'.rest.length < c.rest.length ∧
      ∀ fuel, 2 * c.rest.length + 1 ≤ fuel → (skipBehindItem fuel).Goes c () c' := by
  induction n generalizing before c with
  | zero => exact absurd h not_goes_failNext
  | succ n ih =>
    unfold readItems at h
    obtain ⟨more, c₁, hmore, h⟩ := goes_bind.1 h
    have hspace := Cursor.length_behindSpace c
    have hnext := Cursor.length_behindNext c.behindSpace
    obtain ⟨rfl, hhead, rfl⟩ | ⟨-, hfirst, -⟩ | ⟨rfl, -, hcomma, rfl⟩ := goes_hasItem hmore
    · -- the end of the list
      obtain ⟨-, rfl⟩ := goes_pure.1 h
      obtain ⟨-, rfl⟩ := goes_endList hend
      have hpos := Cursor.length_pos_of_head? hhead
      rw [Cursor.behindSpace_behindSpace]
      refine ⟨by omega, fun fuel _ => ?_⟩
      unfold skipBehindItem
      rw [goes_peekToken_bind, hhead]
      exact goes_advance.2 rfl
    · cases hfirst
    · -- another item
      obtain ⟨a, c₂, ha, h⟩ := goes_bind.1 h
      obtain ⟨hlt, hskip⟩ := hitem ha
      obtain ⟨hlt', hrest⟩ := ih h
      have hpos := Cursor.length_pos_of_head? hcomma
      have hspace' := Cursor.length_behindSpace c.behindSpace.behindNext
      refine ⟨by omega, fun fuel hfuel => ?_⟩
      obtain ⟨fuel, rfl⟩ : ∃ m, fuel = m + 1 := ⟨fuel - 1, by omega⟩
      unfold skipBehindItem
      rw [goes_peekToken_bind, hcomma]
      have hvalue := goes_skipValue_behindSpace.1 (hskip fuel (by omega))
      exact goes_advance_bind.2 (goes_skipItems hvalue (hrest fuel (by omega)))

theorem goes_readKey {c c' : Cursor} {key : String} :
    readKey.Goes c key c' ↔ readStringBody.Goes c.behindNext key c' :=
  goes_advance_bind

theorem goes_addMember {item : Reader Document} {members members' : List (String × Document)}
    {key : String} {c c' : Cursor} (h : (addMember item members key).Goes c members' c') :
    ∃ doc mid, readColon.Goes c () mid ∧ item.Goes mid doc c' ∧ members' = members ++ [(key, doc)] := by
  obtain ⟨⟨⟩, mid, hcolon, h⟩ := goes_bind.1 h
  obtain ⟨doc, mid', hdoc, h⟩ := goes_bind.1 h
  obtain ⟨rfl, rfl⟩ := goes_pure.1 h
  exact ⟨doc, mid, hcolon, hdoc, rfl⟩

/-- Members behind a member can be passed over, with the end of their object. -/
theorem goes_skipBehindMember {item : Reader Document} (hitem : Skippable item) {n : Nat}
    {before members : List (String × Document)} {c mid c' : Cursor}
    (h : (readMembers (addMember item) n false before).Goes c members mid)
    (hend : endObject.Goes mid () c') :
    c'.rest.length < c.rest.length ∧
      ∀ fuel, 2 * c.rest.length + 1 ≤ fuel → (skipBehindMember fuel).Goes c () c' := by
  induction n generalizing before c with
  | zero => exact absurd h not_goes_failNext
  | succ n ih =>
    unfold readMembers at h
    obtain ⟨more, c₁, hmore, h⟩ := goes_bind.1 h
    have hspace := Cursor.length_behindSpace c
    have hnext := Cursor.length_behindNext c.behindSpace
    obtain ⟨rfl, hhead, rfl⟩ | ⟨-, hfirst, -⟩ | ⟨rfl, -, hcomma, rfl, hquote⟩ := goes_hasMember hmore
    · -- the end of the object
      obtain ⟨-, rfl⟩ := goes_pure.1 h
      obtain ⟨-, rfl⟩ := goes_endObject hend
      have hpos := Cursor.length_pos_of_head? hhead
      rw [Cursor.behindSpace_behindSpace]
      refine ⟨by omega, fun fuel _ => ?_⟩
      unfold skipBehindMember
      rw [goes_peekToken_bind, hhead]
      exact goes_advance.2 rfl
    · cases hfirst
    · -- another member
      obtain ⟨key, c₂, hkey, h⟩ := goes_bind.1 h
      obtain ⟨members', c₃, hmember, h⟩ := goes_bind.1 h
      obtain ⟨doc, c₄, hcolon, hdoc, rfl⟩ := goes_addMember hmember
      obtain ⟨hlt, hskipKey⟩ := goes_skipStringBody_of_readStringBody (goes_readKey.1 hkey)
      obtain ⟨hhead, rfl⟩ := goes_readColon hcolon
      obtain ⟨hlt', hskip⟩ := hitem hdoc
      obtain ⟨hlt'', hrest⟩ := ih h
      have hpos := Cursor.length_pos_of_head? hcomma
      have := Cursor.length_behindSpace c.behindSpace.behindNext
      have := Cursor.length_behindNext c.behindSpace.behindNext.behindSpace
      have := Cursor.length_behindSpace c₂
      have := Cursor.length_behindNext c₂.behindSpace
      refine ⟨by omega, fun fuel hfuel => ?_⟩
      obtain ⟨fuel, rfl⟩ : ∃ m, fuel = m + 1 := ⟨fuel - 1, by omega⟩
      unfold skipBehindMember
      rw [goes_peekToken_bind, hcomma]
      exact goes_advance_bind.2
        (goes_skipMembers hquote hskipKey hcolon (hskip fuel (by omega)) (hrest fuel (by omega)))

/-! ## Values -/

theorem length_of_goes_readWord {word : List Char} {c c' : Cursor} (h : (readWord word).Goes c () c') :
    c'.rest.length ≤ c.rest.length := by
  induction word generalizing c with
  | nil => exact (goes_pure.1 h).2 ▸ Nat.le_refl _
  | cons x word ih =>
    unfold readWord at h
    rw [goes_get_bind, goes_next_bind] at h
    split at h
    · exact absurd h not_goes_failHere
    · split at h
      · have := ih h
        have := Cursor.length_behindNext c
        omega
      · exact absurd h not_goes_throw

/-- The list at the bracket can be passed over if its items can be. -/
theorem goes_skipValue_array {α : Type} {item : Reader α} (hitem : Skippable item) {n : Nat}
    {items : List α} {c mid c' : Cursor} (hhead : c.behindSpace.rest.head? = some '[')
    (h : (readItems item n true []).Goes c.behindSpace.behindNext items mid)
    (hend : endList.Goes mid () c') :
    c'.rest.length < c.behindSpace.rest.length ∧
      ∀ fuel, 2 * c.behindSpace.rest.length ≤ fuel → (skipValue fuel).Goes c () c' := by
  have hpos := Cursor.length_pos_of_head? hhead
  have hnext := Cursor.length_behindNext c.behindSpace
  have hspace := Cursor.length_behindSpace c.behindSpace.behindNext
  have hnext' := Cursor.length_behindNext c.behindSpace.behindNext.behindSpace
  cases n with
  | zero => exact absurd h not_goes_failNext
  | succ n =>
    unfold readItems at h
    obtain ⟨more, c₁, hmore, h⟩ := goes_bind.1 h
    obtain ⟨rfl, hclose, rfl⟩ | ⟨rfl, -, ⟨ch, hch, hne⟩, rfl⟩ | ⟨-, hfirst, -⟩ := goes_hasItem hmore
    · -- the empty list
      obtain ⟨-, rfl⟩ := goes_pure.1 h
      obtain ⟨-, rfl⟩ := goes_endList hend
      rw [Cursor.behindSpace_behindSpace]
      refine ⟨by omega, fun fuel hfuel => ?_⟩
      obtain ⟨fuel, rfl⟩ : ∃ m, fuel = m + 1 := ⟨fuel - 1, by omega⟩
      rw [skipValue, goes_peekToken_bind, hhead]
      refine goes_advance_bind.2 (goes_peekToken_bind.2 ?_)
      rw [hclose]
      exact goes_advance.2 rfl
    · obtain ⟨a, c₂, ha, h⟩ := goes_bind.1 h
      obtain ⟨hlt, hskip⟩ := hitem ha
      obtain ⟨hlt', hrest⟩ := goes_skipBehindItem hitem h hend
      refine ⟨by omega, fun fuel hfuel => ?_⟩
      obtain ⟨fuel, rfl⟩ : ∃ m, fuel = m + 2 := ⟨fuel - 2, by omega⟩
      rw [skipValue, goes_peekToken_bind, hhead]
      refine goes_advance_bind.2 (goes_peekToken_bind.2 ?_)
      split
      · next heq => rw [hch] at heq; cases heq
      · next heq => exact absurd (Option.some.inj (hch.symm.trans heq)) hne
      · exact goes_skipItems (hskip fuel (by omega)) (hrest fuel (by omega))
    · cases hfirst

/-- The object at the brace can be passed over if its values can be. -/
theorem goes_skipValue_object {item : Reader Document} (hitem : Skippable item) {n : Nat}
    {members : List (String × Document)} {c mid c' : Cursor}
    (hhead : c.behindSpace.rest.head? = some '\x7b')
    (h : (readMembers (addMember item) n true []).Goes c.behindSpace.behindNext members mid)
    (hend : endObject.Goes mid () c') :
    c'.rest.length < c.behindSpace.rest.length ∧
      ∀ fuel, 2 * c.behindSpace.rest.length ≤ fuel → (skipValue fuel).Goes c () c' := by
  have hpos := Cursor.length_pos_of_head? hhead
  have hnext := Cursor.length_behindNext c.behindSpace
  have hspace := Cursor.length_behindSpace c.behindSpace.behindNext
  have hnext' := Cursor.length_behindNext c.behindSpace.behindNext.behindSpace
  cases n with
  | zero => exact absurd h not_goes_failNext
  | succ n =>
    unfold readMembers at h
    obtain ⟨more, c₁, hmore, h⟩ := goes_bind.1 h
    obtain ⟨rfl, hclose, rfl⟩ | ⟨rfl, -, hquote, rfl⟩ | ⟨-, hfirst, -⟩ := goes_hasMember hmore
    · -- the empty object
      obtain ⟨-, rfl⟩ := goes_pure.1 h
      obtain ⟨-, rfl⟩ := goes_endObject hend
      rw [Cursor.behindSpace_behindSpace]
      refine ⟨by omega, fun fuel hfuel => ?_⟩
      obtain ⟨fuel, rfl⟩ : ∃ m, fuel = m + 1 := ⟨fuel - 1, by omega⟩
      rw [skipValue, goes_peekToken_bind, hhead]
      refine goes_advance_bind.2 (goes_peekToken_bind.2 ?_)
      rw [hclose]
      exact goes_advance.2 rfl
    · obtain ⟨key, c₂, hkey, h⟩ := goes_bind.1 h
      obtain ⟨members', c₃, hmember, h⟩ := goes_bind.1 h
      obtain ⟨doc, c₄, hcolon, hdoc, rfl⟩ := goes_addMember hmember
      obtain ⟨hlt, hskipKey⟩ := goes_skipStringBody_of_readStringBody (goes_readKey.1 hkey)
      obtain ⟨-, rfl⟩ := goes_readColon hcolon
      obtain ⟨hlt', hskip⟩ := hitem hdoc
      obtain ⟨hlt'', hrest⟩ := goes_skipBehindMember hitem h hend
      have := Cursor.length_behindSpace c₂
      have := Cursor.length_behindNext c₂.behindSpace
      refine ⟨by omega, fun fuel hfuel => ?_⟩
      obtain ⟨fuel, rfl⟩ : ∃ m, fuel = m + 2 := ⟨fuel - 2, by omega⟩
      rw [skipValue, goes_peekToken_bind, hhead]
      refine goes_advance_bind.2 (goes_peekToken_bind.2 ?_)
      rw [hquote]
      refine goes_skipMembers ?_ ?_ hcolon (hskip fuel (by omega)) (hrest fuel (by omega))
      · rw [Cursor.behindSpace_behindSpace]
        exact hquote
      · rw [Cursor.behindSpace_behindSpace]
        exact hskipKey
    · cases hfirst

/-- What can be read as a document can be passed over. -/
theorem skippable_reader (depth : Nat) : Skippable (Document.reader depth) := by
  induction depth with
  | zero => exact fun _ _ _ h => absurd h not_goes_failNext
  | succ depth ih =>
    intro c doc c' h
    have hspace := Cursor.length_behindSpace c
    have hnext := Cursor.length_behindNext c.behindSpace
    suffices hskip : c'.rest.length < c.behindSpace.rest.length ∧
        ∀ fuel, 2 * c.behindSpace.rest.length ≤ fuel → (skipValue fuel).Goes c () c' from
      ⟨by omega, fun fuel hfuel => hskip.2 fuel (by omega)⟩
    -- a scalar is passed over in one round
    have scalar : c'.rest.length < c.behindSpace.rest.length →
        (∀ fuel, (skipValue (fuel + 1)).Goes c () c') →
        c'.rest.length < c.behindSpace.rest.length ∧
          ∀ fuel, 2 * c.behindSpace.rest.length ≤ fuel → (skipValue fuel).Goes c () c' := by
      refine fun hlt hskip => ⟨hlt, fun fuel hfuel => ?_⟩
      obtain ⟨fuel, rfl⟩ : ∃ m, fuel = m + 1 := ⟨fuel - 1, by omega⟩
      exact hskip fuel
    cases Document.spelled h with
    | word hword hhead hrest =>
      have hpos := Cursor.length_pos_of_head? hhead
      have hlength := length_of_goes_readWord hrest
      refine scalar (by omega) fun fuel => ?_
      rw [skipValue, goes_peekToken_bind, hhead]
      simp only [List.mem_cons, Prod.mk.injEq, List.not_mem_nil, or_false] at hword
      obtain ⟨rfl, rfl, -⟩ | ⟨rfl, rfl, -⟩ | ⟨rfl, rfl, -⟩ := hword <;>
        exact goes_readRest.2 ⟨rfl, hrest⟩
    | negative hhead hn =>
      have hpos := Cursor.length_pos_of_head? hhead
      obtain ⟨hskip, hlt⟩ := goes_skipNumber hn
      refine scalar (by omega) fun fuel => ?_
      rw [skipValue, goes_peekToken_bind, hhead]
      exact goes_advance_bind.2 hskip
    | positive hhead hdigit hn =>
      obtain ⟨hskip, hlt⟩ := goes_skipNumber hn
      refine scalar hlt fun fuel => ?_
      have other : ∀ {ch : Char}, c.behindSpace.rest.head? = some ch → ch.isDigit = true :=
        fun heq => Option.some.inj (hhead.symm.trans heq) ▸ hdigit
      rw [skipValue, goes_peekToken_bind]
      split
      · next heq => rw [hhead] at heq; cases heq
      · next heq => exact absurd (other heq) (by decide)
      · next heq => exact absurd (other heq) (by decide)
      · next heq => exact absurd (other heq) (by decide)
      · next heq => exact absurd (other heq) (by decide)
      · next heq => exact absurd (other heq) (by decide)
      · next heq => exact absurd (other heq) (by decide)
      · next heq => exact absurd (other heq) (by decide)
      · next heq =>
        rw [if_pos (other heq)]
        exact hskip
    | string hhead hs =>
      have hpos := Cursor.length_pos_of_head? hhead
      obtain ⟨hlt, hskip⟩ := goes_skipStringBody_of_readStringBody hs
      refine scalar (by omega) fun fuel => ?_
      rw [skipValue, goes_peekToken_bind, hhead]
      exact goes_advance_bind.2 (goes_fuelHere_bind.2 hskip)
    | array _ hhead hitems hend => exact goes_skipValue_array ih hhead hitems hend
    | object _ hhead hmembers hend => exact goes_skipValue_object ih hhead hmembers hend

/-- A document can be passed over. -/
theorem goes_skipAny {depth : Nat} {c c' : Cursor} {doc : Document}
    (h : (Document.reader depth).Goes c doc c') : skipAny.Goes c () c' :=
  goes_fuelHere_bind.2 ((skippable_reader depth h).2 _ (by omega))

end EmbeddedSolidity.Json
