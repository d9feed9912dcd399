import EmbeddedSolidity.Proofs.Source.LineEndStrings

/-!
# Line ends in literals

A number is on one line, so it is the same in the copy of the text with other line ends. With that, a
literal stands at the front of a text if and only if one stands at the front of the copy.

* `integer?_crlf`, `float?_crlf` : numbers;
* `literal?_crlf` : literals.
-/

namespace EmbeddedSolidity.Source

open EmbeddedSolidity.Text (isIdentifierStart isIdentifierContinue)

variable {c : Char} {cs rest : List Char}

/-! ## Numbers -/

theorem stopsAtLineEnd_isIdentifierStart : StopsAtLineEnd isIdentifierStart :=
  ⟨by decide +kernel, by decide +kernel⟩

theorem stopsAtLineEnd_isIdentifierContinue : StopsAtLineEnd isIdentifierContinue :=
  ⟨by decide +kernel, by decide +kernel⟩

theorem splitWord_crlf (cs : List Char) :
    splitWord (crlf cs) = ((splitWord cs).1, crlf (splitWord cs).2) := by
  match cs with
  | [] => rfl
  | c :: rest =>
    by_cases hc : c = '\n'
    · subst hc
      simp [splitWord, stopsAtLineEnd_isIdentifierStart.1, stopsAtLineEnd_isIdentifierStart.2]
    · rw [crlf_cons hc]
      unfold splitWord
      dsimp only
      split_ifs
      · rw [takeWhile_crlf stopsAtLineEnd_isIdentifierContinue,
          dropWhile_crlf stopsAtLineEnd_isIdentifierContinue]
      · rw [crlf_cons hc]

theorem withSuffix?_crlf (written rest : List Char) :
    withSuffix? written (crlf rest) =
      (withSuffix? written rest).map fun found => (found.1, crlf found.2) := by
  unfold withSuffix?
  rw [splitWord_crlf]
  dsimp only
  generalize (splitWord rest).1 = suffix
  match (splitWord rest).2 with
  | [] => rfl
  | c :: after =>
    by_cases hc : c = '\n'
    · subst hc
      simp [stopsAtLineEnd_isIdentifierContinue.1, stopsAtLineEnd_isIdentifierContinue.2]
    · rw [crlf_cons hc]
      dsimp only
      split_ifs
      · rfl
      · rw [Option.map_some, crlf_cons hc]

theorem digitCount?_crlf (base : Nat) (found : Bool) (cs : List Char) :
    digitCount? base found (crlf cs) = digitCount? base found cs ∧
      Inline cs (digitCount? base found cs) := by
  have hend : ∀ (found : Bool) (cs : List Char), Inline cs (if found then some 0 else none) :=
    fun found cs => by
      cases found
      · exact inline_none cs
      · exact inline_zero cs
  induction cs generalizing found with
  | nil => exact ⟨rfl, hend found []⟩
  | cons c cs ih =>
    by_cases hc : c = '\n'
    · subst hc
      have htext : digitCount? base found ('\n' :: cs) = if found then some 0 else none := by
        simp [digitCount?, hexValue?_newline]
      have hcopy : digitCount? base found (crlf ('\n' :: cs)) = if found then some 0 else none := by
        simp [digitCount?, hexValue?_return]
      rw [htext, hcopy]
      exact ⟨rfl, hend found _⟩
    · have hmore : ∀ found, (digitCount? base found (crlf cs)).map (· + 1) =
            (digitCount? base found cs).map (· + 1) ∧
          Inline (c :: cs) ((digitCount? base found cs).map (· + 1)) := fun found => by
        rw [(ih found).1]
        exact ⟨rfl, (ih found).2.succ hc⟩
      rw [crlf_cons hc]
      unfold digitCount?
      by_cases hline : c = '_'
      · rw [if_pos hline, if_pos hline]
        split_ifs
        · exact ⟨rfl, inline_none _⟩
        · exact hmore found
      · rw [if_neg hline, if_neg hline]
        cases hexValue? c with
        | none => exact ⟨rfl, hend found _⟩
        | some digit =>
          dsimp only
          by_cases hdigit : digit < base
          · rw [if_pos hdigit, if_pos hdigit]
            exact hmore true
          · rw [if_neg hdigit, if_neg hdigit]
            refine ⟨rfl, ?_⟩
            split_ifs
            · exact inline_none _
            · exact inline_zero _
            · exact inline_none _

/-- The mark that names the base is on one line. -/
theorem baseOf_crlf (cs : List Char) :
    baseOf (crlf cs) = baseOf cs ∧ '\n' ∉ cs.take (baseOf cs).2 := by
  unfold baseOf
  split
  · next copy hcopy =>
    obtain ⟨rest, rfl, rfl⟩ := of_crlf_eq_cons_cons hcopy (by decide) (by decide)
    exact ⟨rfl, by simp⟩
  · next copy hcopy =>
    obtain ⟨rest, rfl, rfl⟩ := of_crlf_eq_cons_cons hcopy (by decide) (by decide)
    exact ⟨rfl, by simp⟩
  · next copy hcopy =>
    obtain ⟨rest, rfl, rfl⟩ := of_crlf_eq_cons_cons hcopy (by decide) (by decide)
    exact ⟨rfl, by simp⟩
  · next h1 h2 h3 =>
    split
    · next rest => exact absurd (crlf_cons_cons (by decide) (by decide) rest) (h1 _)
    · next rest => exact absurd (crlf_cons_cons (by decide) (by decide) rest) (h2 _)
    · next rest => exact absurd (crlf_cons_cons (by decide) (by decide) rest) (h3 _)
    · exact ⟨rfl, List.not_mem_nil⟩

/-- A number whose characters are counted : the same characters, and the copy of what follows. -/
theorem withSuffix?_counted {n : Nat} (hfront : '\n' ∉ cs.take n) :
    withSuffix? ((crlf cs).take n) ((crlf cs).drop n) =
      (withSuffix? (cs.take n) (cs.drop n)).map fun found => (found.1, crlf found.2) := by
  rw [take_crlf hfront, drop_crlf hfront, withSuffix?_crlf]

theorem integer?_crlf (cs : List Char) :
    integer? (crlf cs) = (integer? cs).map fun found => (found.1, crlf found.2) := by
  obtain ⟨hbase, hmark⟩ := baseOf_crlf cs
  obtain ⟨hcount, hinline⟩ := digitCount?_crlf (baseOf cs).1 false (cs.drop (baseOf cs).2)
  unfold integer?
  dsimp only
  rw [hbase, drop_crlf hmark, hcount]
  cases hdigits : digitCount? (baseOf cs).1 false (cs.drop (baseOf cs).2) with
  | none => rfl
  | some n => exact withSuffix?_counted (not_mem_take_add hmark (hinline n hdigits))

theorem exponentCount?_crlf (signed found : Bool) (cs : List Char) :
    exponentCount? signed found (crlf cs) = exponentCount? signed found cs ∧
      Inline cs (exponentCount? signed found cs) := by
  have hend : ∀ (found : Bool) (cs : List Char), Inline cs (if found then some 0 else none) :=
    fun found cs => by
      cases found
      · exact inline_none cs
      · exact inline_zero cs
  induction cs generalizing signed found with
  | nil => exact ⟨rfl, hend found []⟩
  | cons c cs ih =>
    by_cases hc : c = '\n'
    · subst hc
      have htext : exponentCount? signed found ('\n' :: cs) = if found then some 0 else none := by
        simp [exponentCount?]
      have hcopy : exponentCount? signed found (crlf ('\n' :: cs)) =
          if found then some 0 else none := by
        simp [exponentCount?]
      rw [htext, hcopy]
      exact ⟨rfl, hend found _⟩
    · have hmore : ∀ signed found, (exponentCount? signed found (crlf cs)).map (· + 1) =
            (exponentCount? signed found cs).map (· + 1) ∧
          Inline (c :: cs) ((exponentCount? signed found cs).map (· + 1)) := fun signed found => by
        rw [(ih signed found).1]
        exact ⟨rfl, (ih signed found).2.succ hc⟩
      rw [crlf_cons hc]
      unfold exponentCount?
      split_ifs
      · exact ⟨rfl, inline_zero _⟩
      · exact ⟨rfl, inline_none _⟩
      · exact hmore true found
      · exact hmore signed true
      · exact hmore signed found
      · exact ⟨rfl, inline_zero _⟩
      · exact ⟨rfl, inline_none _⟩

theorem exponent?_crlf (cs : List Char) :
    exponent? (crlf cs) = exponent? cs ∧ Inline cs (exponent? cs) := by
  match cs with
  | [] => exact ⟨rfl, inline_none _⟩
  | c :: rest =>
    by_cases hc : c = '\n'
    · subst hc
      exact ⟨rfl, inline_none _⟩
    · rw [crlf_cons hc]
      unfold exponent?
      dsimp only
      split_ifs
      · obtain ⟨heq, hinline⟩ := exponentCount?_crlf false false rest
        rw [heq]
        exact ⟨rfl, hinline.succ hc⟩
      · exact ⟨rfl, inline_none _⟩

theorem endsAtPoint_crlf (cs : List Char) : endsAtPoint (crlf cs) = endsAtPoint cs := by
  match cs with
  | [] => rfl
  | c :: rest =>
    by_cases hc : c = '\n'
    · subst hc
      simp [endsAtPoint, stopsAtLineEnd_isIdentifierStart.1, stopsAtLineEnd_isIdentifierStart.2]
    · rw [crlf_cons hc]
      rfl

theorem stopsAtLineEnd_isDigitOrLine : StopsAtLineEnd isDigitOrLine :=
  ⟨by decide, by decide⟩

/-- The length of an exponent, if there is one, is on one line. -/
theorem not_mem_take_exponent (cs : List Char) : '\n' ∉ cs.take ((exponent? cs).getD 0) := by
  cases h : exponent? cs with
  | none => exact List.not_mem_nil
  | some n => exact (exponent?_crlf cs).2 n h

theorem floatCount?_crlf (cs : List Char) :
    floatCount? (crlf cs) = floatCount? cs ∧ Inline cs (floatCount? cs) := by
  match cs with
  | [] => exact ⟨rfl, inline_none _⟩
  | c :: rest =>
    by_cases hc : c = '\n'
    · subst hc
      exact ⟨rfl, inline_none _⟩
    have hwhole := not_mem_take_length stopsAtLineEnd_isDigitOrLine (c :: rest)
    have hcopied := takeWhile_crlf stopsAtLineEnd_isDigitOrLine (c :: rest)
    have hdropped := drop_crlf hwhole
    rw [crlf_cons hc] at hcopied hdropped ⊢
    unfold floatCount?
    dsimp only
    rw [hcopied, hdropped]
    generalize ((c :: rest).takeWhile isDigitOrLine).length = whole at hwhole
    by_cases hdigit : c.isDigit = true
    · rw [if_pos hdigit, if_pos hdigit]
      generalize hafter : (c :: rest).drop whole = after
      split
      · next copy hcopy =>
        obtain ⟨r, rfl, rfl⟩ := of_crlf_eq_cons hcopy (by decide)
        have hpart := not_mem_take_length stopsAtLineEnd_isDigitOrLine r
        rw [endsAtPoint_crlf, takeWhile_crlf stopsAtLineEnd_isDigitOrLine, drop_crlf hpart,
          (exponent?_crlf _).1]
        refine ⟨rfl, ?_⟩
        have hpoint : '\n' ∉ ((c :: rest).drop whole).take 1 := by
          rw [hafter]
          simp
        have hrest : (c :: rest).drop (whole + 1) = r := by
          rw [← List.drop_drop, hafter]
          rfl
        change Inline _ (if endsAtPoint r = true then some _ else none)
        split_ifs
        · intro n hn
          obtain rfl := Option.some.inj hn
          refine not_mem_take_add (not_mem_take_add (not_mem_take_add hwhole hpoint) ?_) ?_
          · rw [hrest]
            exact hpart
          · rw [← List.drop_drop, hrest]
            exact not_mem_take_exponent _
        · exact inline_none _
      · next hother =>
        split
        · next r => exact absurd (crlf_cons (by decide) r) (hother _)
        · rw [(exponent?_crlf after).1]
          refine ⟨rfl, fun n hn => ?_⟩
          obtain ⟨k, hk, rfl⟩ := Option.map_eq_some_iff.1 hn
          refine not_mem_take_add hwhole ?_
          rw [hafter]
          exact (exponent?_crlf after).2 k hk
    · rw [if_neg hdigit, if_neg hdigit]
      exact ⟨rfl, inline_none _⟩

theorem float?_crlf (cs : List Char) :
    float? (crlf cs) = (float? cs).map fun found => (found.1, crlf found.2) := by
  obtain ⟨heq, hinline⟩ := floatCount?_crlf cs
  unfold float?
  rw [heq]
  cases hcount : floatCount? cs with
  | none => rfl
  | some n => exact withSuffix?_counted (hinline n hcount)

/-! ## Any literal -/

/-- A literal in the copy of the text at whose front it is written. -/
def Literal.copied (cs : List Char) : Literal → Literal
  | .string value => .string (Source.copied cs value)
  | l => l

/-- A literal stands at the front of the copy if and only if one stands at the front of the text. -/
theorem literal?_crlf (hreturns : '\r' ∉ cs) (hfeed : quotesLineFeed cs = false) :
    literal? (crlf cs) = (literal? cs).map fun found => (found.1.copied cs, crlf found.2) := by
  unfold literal?
  rw [string?_crlf hreturns, single?_crlf hfeed, float?_crlf, integer?_crlf]
  cases string? cs with
  | some found =>
    obtain ⟨kind, value, rest⟩ := found
    dsimp only [Option.map_some]
    rw [splitWord_crlf]
    cases kind <;> rfl
  | none =>
    dsimp only [Option.map_none]
    cases single? cs with
    | some rest =>
      dsimp only [Option.map_some]
      rw [splitWord_crlf]
      rfl
    | none =>
      dsimp only [Option.map_none]
      cases float? cs with
      | some found => rfl
      | none =>
        dsimp only [Option.map_none]
        cases integer? cs <;> rfl

end EmbeddedSolidity.Source
