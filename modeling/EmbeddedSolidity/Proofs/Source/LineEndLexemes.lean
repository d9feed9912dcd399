import EmbeddedSolidity.Proofs.Source.LineEndNumbers
import EmbeddedSolidity.Proofs.Source.Place

/-!
# Line ends in lexemes

At the front of a text without carriage returns stands the same as at the front of its copy, with the
same rest : a line end is two gaps instead of one, and behind a comment that ends with its line the
carriage return has been passed already (`Copies`). A line feed in quotes is the only lexeme that the
copy does not have.

* `restOfLine_crlf`, `restOfBlock_crlf`, `comment?_crlf` : comments;
* `leaf?_crlf` : tokens without a body;
* `lexeme?_crlf`, `lexeme?_of_quotesLineFeed` : lexemes.
-/

namespace EmbeddedSolidity.Source

open EmbeddedSolidity.Text (isIdentifierStart isIdentifierContinue)

variable {c : Char} {cs rest after : List Char}

/-- What is left of a text and of its copy. -/
inductive Copies : List Char → List Char → Prop where
  | whole (cs : List Char) : Copies cs (crlf cs)
  /-- The carriage return has been passed. -/
  | behind (rest : List Char) : Copies ('\n' :: rest) ('\n' :: crlf rest)

/-! ## Comments -/

theorem restOfLine_cons (hc : c ≠ '\n') (hreturn : c ≠ '\r') (rest : List Char) :
    restOfLine (c :: rest) = onto [c] (restOfLine rest) := by
  rw [restOfLine]
  · exact hc
  · exact fun _ heq => absurd heq hreturn

/-- The text of a line is the same in the copy. -/
theorem restOfLine_crlf (hreturns : '\r' ∉ cs) : ∃ copy,
    restOfLine (crlf cs) = ((restOfLine cs).1, copy) ∧ Copies (restOfLine cs).2 copy ∧
      '\r' ∉ (restOfLine cs).1 := by
  induction cs with
  | nil => exact ⟨[], rfl, .whole [], List.not_mem_nil⟩
  | cons c rest ih =>
    rw [List.mem_cons, not_or] at hreturns
    by_cases hc : c = '\n'
    · subst hc
      exact ⟨_, rfl, .behind rest, List.not_mem_nil⟩
    · obtain ⟨copy, hcopy, hcopies, hline⟩ := ih hreturns.2
      rw [crlf_cons hc, restOfLine_cons hc (Ne.symm hreturns.1),
        restOfLine_cons hc (Ne.symm hreturns.1), hcopy]
      refine ⟨copy, rfl, hcopies, ?_⟩
      change '\r' ∉ c :: (restOfLine rest).1
      rw [List.mem_cons, not_or]
      exact ⟨hreturns.1, hline⟩

theorem restOfBlock_cons (depth : Nat) (hopens : ∀ more, c = '/' → rest ≠ '*' :: more)
    (hcloses : ∀ more, c = '*' → rest ≠ '/' :: more) :
    restOfBlock depth (c :: rest) = (restOfBlock depth rest).map (onto [c]) := by
  rw [restOfBlock]
  · exact hopens
  · exact hcloses

/-- A block comment has the copy of its text in the copy. -/
theorem restOfBlock_crlf (depth : Nat) (cs : List Char) : restOfBlock depth (crlf cs) =
    (restOfBlock depth cs).map fun found => (crlf found.1, crlf found.2) := by
  have honto : ∀ (front : List Char) (found : Option (List Char × List Char)),
      (found.map fun x => (crlf x.1, crlf x.2)).map (onto (crlf front)) =
        (found.map (onto front)).map fun x => (crlf x.1, crlf x.2) := fun front found => by
    cases found with
    | none => rfl
    | some x => simp [onto, crlf_append]
  fun_induction restOfBlock depth cs with
  | case1 depth rest ih =>
    rw [crlf_cons_cons (by decide) (by decide), restOfBlock, ih]
    exact honto ['/', '*'] _
  | case2 depth rest hdepth =>
    rw [crlf_cons_cons (by decide) (by decide), restOfBlock, if_pos hdepth]
    rfl
  | case3 depth rest hdepth ih =>
    rw [crlf_cons_cons (by decide) (by decide), restOfBlock, if_neg hdepth, ih]
    exact honto ['*', '/'] _
  | case4 depth c rest hopens hcloses ih =>
    rw [← honto [c], ← ih]
    by_cases hc : c = '\n'
    · subst hc
      rw [crlf_newline, restOfBlock_cons depth (fun _ h => absurd h (by decide))
        (fun _ h => absurd h (by decide)), restOfBlock_cons depth (fun _ h => absurd h (by decide))
        (fun _ h => absurd h (by decide))]
      cases restOfBlock depth (crlf rest) <;> rfl
    · rw [crlf_cons hc, restOfBlock_cons depth ?_ ?_]
      · rw [crlf_cons hc]
        rfl
      · intro more hslash hstar
        obtain ⟨r, hr, -⟩ := of_crlf_eq_cons hstar (by decide)
        exact hopens r hslash hr
      · intro more hstar hslash
        obtain ⟨r, hr, -⟩ := of_crlf_eq_cons hslash (by decide)
        exact hcloses r hstar hr
  | case5 => rfl

theorem returnsEndLines_crlf (hreturns : '\r' ∉ cs) : returnsEndLines (crlf cs) = true := by
  induction cs with
  | nil => rfl
  | cons c rest ih =>
    rw [List.mem_cons, not_or] at hreturns
    by_cases hc : c = '\n'
    · subst hc
      exact ih hreturns.2
    · rw [crlf_cons hc, returnsEndLines]
      · exact ih hreturns.2
      · exact fun _ heq => absurd heq.symm hreturns.1
      · exact fun heq => absurd heq.symm hreturns.1

theorem returnsEndLines_of_not_mem (hreturns : '\r' ∉ cs) : returnsEndLines cs = true := by
  induction cs with
  | nil => rfl
  | cons c rest ih =>
    rw [List.mem_cons, not_or] at hreturns
    rw [returnsEndLines]
    · exact ih hreturns.2
    · exact fun _ heq => absurd heq.symm hreturns.1
    · exact fun heq => absurd heq.symm hreturns.1

/-- A token in the copy of the text at whose front it is written. -/
def Tree.copied (cs : List Char) : Tree → Tree
  | .group d body => .group d body
  | .word place name isRaw => .word (crlf place) name isRaw
  | .mark place sign joint => .mark (crlf place) sign joint
  | .literal value => .literal (value.copied cs)

/-- A lexeme and the one in the copy of the text at whose front it is written. Of documentation the
text may differ. -/
inductive Lexeme.Copied (cs : List Char) : Lexeme → Lexeme → Prop where
  | gap : Copied cs .gap .gap
  | note (inner : Bool) (text text' : List Char) : Copied cs (.note inner text) (.note inner text')
  | opening (d : Delimiter) : Copied cs (.opening d) (.opening d)
  | closing (d : Delimiter) : Copied cs (.closing d) (.closing d)
  | leaf (tree : Tree) : Copied cs (.leaf tree) (.leaf (tree.copied cs))

/-- The lexeme at the front of the text stands at the front of the copy, with the same behind it. -/
def CopiedTo (cs : List Char) (found : Lexeme × List Char) (copy : Option (Lexeme × List Char)) :
    Prop :=
  ∃ x after, copy = some (x, after) ∧ Copies found.2 after ∧ found.1.Copied cs x

theorem ne_crlf (hc : c ≠ '\r') (h : ∀ more, rest ≠ c :: more) (more : List Char) :
    crlf rest ≠ c :: more := fun hcopy => by
  obtain ⟨r, hr, -⟩ := of_crlf_eq_cons hcopy hc
  exact h r hr

theorem copiedTo_line {inner : Bool} {found : Lexeme × List Char} (hreturns : '\r' ∉ rest)
    (h : note? inner (restOfLine rest) = some found) :
    CopiedTo cs found (note? inner (restOfLine (crlf rest))) := by
  obtain ⟨copy, hcopy, hcopies, hline⟩ := restOfLine_crlf hreturns
  unfold note? at h ⊢
  rw [returnsEndLines_of_not_mem hline, if_pos rfl] at h
  cases h
  rw [hcopy, returnsEndLines_of_not_mem hline, if_pos rfl]
  exact ⟨_, _, rfl, hcopies, .note inner _ _⟩

theorem copiedTo_lineGap (hreturns : '\r' ∉ rest) :
    CopiedTo cs (.gap, (restOfLine rest).2) (some (.gap, (restOfLine (crlf rest)).2)) := by
  obtain ⟨copy, hcopy, hcopies, -⟩ := restOfLine_crlf hreturns
  rw [hcopy]
  exact ⟨_, _, rfl, hcopies, .gap⟩

theorem not_mem_of_restOfBlock (depth : Nat) (cs : List Char) : '\r' ∉ cs →
    ∀ {found : List Char × List Char}, restOfBlock depth cs = some found → '\r' ∉ found.1 := by
  have honto : ∀ {front : List Char} {found : Option (List Char × List Char)}
      {x : List Char × List Char}, '\r' ∉ front → (∀ y, found = some y → '\r' ∉ y.1) →
      found.map (onto front) = some x → '\r' ∉ x.1 := by
    intro front found x hfront hfound h
    obtain ⟨y, hy, rfl⟩ := Option.map_eq_some_iff.1 h
    exact List.not_mem_append hfront (hfound y hy)
  fun_induction restOfBlock depth cs with
  | case1 depth rest ih =>
    intro hreturns found h
    exact honto (by decide) (fun y hy => ih (fun hmem => hreturns (by simp [hmem])) hy) h
  | case2 depth rest hdepth =>
    intro hreturns found h
    cases h
    exact List.not_mem_nil
  | case3 depth rest hdepth ih =>
    intro hreturns found h
    exact honto (by decide) (fun y hy => ih (fun hmem => hreturns (by simp [hmem])) hy) h
  | case4 depth c rest hopens hcloses ih =>
    intro hreturns found h
    rw [List.mem_cons, not_or] at hreturns
    exact honto (fun hmem => hreturns.1 (List.mem_singleton.1 hmem)) (fun y hy => ih hreturns.2 hy) h
  | case5 =>
    intro _ found h
    cases h

theorem copiedTo_block {inner : Bool} {found : Lexeme × List Char} (hreturns : '\r' ∉ rest)
    (h : (restOfBlock 1 rest).bind (note? inner) = some found) :
    CopiedTo cs found ((restOfBlock 1 (crlf rest)).bind (note? inner)) := by
  obtain ⟨block, hblock, hnote⟩ := Option.bind_eq_some_iff.1 h
  have hfree := not_mem_of_restOfBlock 1 rest hreturns hblock
  unfold note? at hnote
  rw [returnsEndLines_of_not_mem hfree, if_pos rfl] at hnote
  cases hnote
  rw [restOfBlock_crlf, hblock]
  change CopiedTo cs _ (note? inner (crlf block.1, crlf block.2))
  unfold note?
  rw [returnsEndLines_crlf hfree, if_pos rfl]
  exact ⟨_, _, rfl, .whole _, .note inner _ _⟩

theorem copiedTo_blockGap {found : Lexeme × List Char}
    (h : (restOfBlock 1 rest).map (fun found => (Lexeme.gap, found.2)) = some found) :
    CopiedTo cs found ((restOfBlock 1 (crlf rest)).map fun found => (.gap, found.2)) := by
  obtain ⟨block, hblock, rfl⟩ := Option.map_eq_some_iff.1 h
  rw [restOfBlock_crlf, hblock]
  exact ⟨_, _, rfl, .whole _, .gap⟩

/-- A comment stands at the front of the copy too. -/
theorem comment?_crlf (hreturns : '\r' ∉ cs) {found : Lexeme × List Char}
    (h : comment? cs = some found) : CopiedTo cs found (comment? (crlf cs)) := by
  have hone : ∀ {c : Char} {rest : List Char}, '\r' ∉ c :: rest → '\r' ∉ rest :=
    fun h hmem => h (List.mem_cons_of_mem _ hmem)
  unfold comment? at h
  split at h
  · next rest =>
    rw [crlf_cons_cons (by decide) (by decide), crlf_cons (by decide), comment?]
    exact copiedTo_line (hone (hone (hone hreturns))) h
  · next rest =>
    cases h
    rw [crlf_cons_cons (by decide) (by decide), crlf_cons_cons (by decide) (by decide), comment?]
    exact copiedTo_lineGap (hone (hone (hone (hone hreturns))))
  · next rest hfour =>
    rw [crlf_cons_cons (by decide) (by decide), crlf_cons (by decide), comment?]
    · exact copiedTo_line (hone (hone (hone hreturns))) h
    · exact ne_crlf (by decide) hfour
  · next rest hinner _ hthree =>
    cases h
    rw [crlf_cons_cons (by decide) (by decide), comment?]
    · exact copiedTo_lineGap (hone (hone hreturns))
    · exact ne_crlf (by decide) hinner
    · exact fun more hmore => ne_crlf (by decide) hthree _ hmore
    · exact ne_crlf (by decide) hthree
  · next rest =>
    rw [crlf_cons_cons (by decide) (by decide), crlf_cons (by decide), comment?]
    exact copiedTo_block (hone (hone (hone hreturns))) h
  · next rest =>
    cases h
    rw [crlf_cons_cons (by decide) (by decide), crlf_cons_cons (by decide) (by decide), comment?]
    exact ⟨_, _, rfl, .whole _, .gap⟩
  · next rest =>
    rw [crlf_cons_cons (by decide) (by decide), crlf_cons_cons (by decide) (by decide), comment?,
      ← crlf_cons_cons (by decide) (by decide)]
    exact copiedTo_blockGap h
  · next rest hclosed hstars =>
    rw [crlf_cons_cons (by decide) (by decide), crlf_cons (by decide), comment?]
    · exact copiedTo_block (hone (hone (hone hreturns))) h
    · exact ne_crlf (by decide) hclosed
    · exact ne_crlf (by decide) hstars
  · next rest hinner _ _ hstar =>
    rw [crlf_cons_cons (by decide) (by decide), comment?]
    · exact copiedTo_blockGap h
    · exact ne_crlf (by decide) hinner
    · exact fun more hmore => ne_crlf (by decide) hstar _ hmore
    · exact fun more hmore => ne_crlf (by decide) hstar _ hmore
    · exact ne_crlf (by decide) hstar
  · cases h

theorem startsComment_crlf (cs : List Char) : startsComment (crlf cs) = startsComment cs := by
  unfold startsComment
  split
  · next copy hcopy =>
    obtain ⟨rest, rfl, -⟩ := of_crlf_eq_cons_cons hcopy (by decide) (by decide)
    rfl
  · next copy hcopy =>
    obtain ⟨rest, rfl, -⟩ := of_crlf_eq_cons_cons hcopy (by decide) (by decide)
    rfl
  · next h1 h2 =>
    split
    · next rest => exact absurd (crlf_cons_cons (by decide) (by decide) rest) (h1 _)
    · next rest => exact absurd (crlf_cons_cons (by decide) (by decide) rest) (h2 _)
    · rfl

/-! ## Words and marks -/

theorem startsMark_crlf (cs : List Char) : startsMark (crlf cs) = startsMark cs := by
  match cs with
  | [] => rfl
  | c :: rest =>
    by_cases hc : c = '\n'
    · subst hc
      rfl
    · have hcomment := startsComment_crlf (c :: rest)
      rw [crlf_cons hc] at hcomment ⊢
      unfold startsMark
      dsimp only
      rw [hcomment]

/-- A word on one line is in front of the copy if and only if it is in front of the text. -/
theorem isPrefixOf_crlf {word : List Char} (hfeed : '\n' ∉ word) (hreturn : '\r' ∉ word)
    (cs : List Char) : word.isPrefixOf (crlf cs) = word.isPrefixOf cs := by
  induction word generalizing cs with
  | nil => simp
  | cons d word ih =>
    rw [List.mem_cons, not_or] at hfeed hreturn
    match cs with
    | [] => rfl
    | c :: rest =>
      by_cases hc : c = '\n'
      · subst hc
        simp [List.isPrefixOf, beq_eq_false_iff_ne.2 (Ne.symm hfeed.1),
          beq_eq_false_iff_ne.2 (Ne.symm hreturn.1)]
      · rw [crlf_cons hc, List.isPrefixOf_cons_cons, List.isPrefixOf_cons_cons, ih hfeed.2 hreturn.2]

theorem word?_plain (h : ∀ rest, cs ≠ 'r' :: '#' :: rest) :
    word? cs = if (splitWord cs).1.isEmpty then none
      else some ((String.ofList (splitWord cs).1, false), (splitWord cs).2) := by
  unfold word?
  split
  next isRaw body heq =>
    split at heq
    · next rest => exact absurd rfl (h rest)
    · cases heq
      rfl

theorem word?_crlf (cs : List Char) :
    word? (crlf cs) = (word? cs).map fun found => (found.1, crlf found.2) := by
  by_cases hraw : ∃ rest, cs = 'r' :: '#' :: rest
  · obtain ⟨rest, rfl⟩ := hraw
    rw [crlf_cons_cons (by decide) (by decide), word?, word?]
    dsimp only
    rw [splitWord_crlf]
    dsimp only
    split_ifs <;> rfl
  · have htext : ∀ rest, cs ≠ 'r' :: '#' :: rest := fun rest heq => hraw ⟨rest, heq⟩
    rw [word?_plain htext, word?_plain, splitWord_crlf]
    · dsimp only
      split_ifs <;> rfl
    · intro rest hcopy
      obtain ⟨r, hr, -⟩ := of_crlf_eq_cons_cons hcopy (by decide) (by decide)
      exact htext r hr

theorem startsLetteredString_crlf (cs : List Char) :
    startsLetteredString (crlf cs) = startsLetteredString cs := by
  have hstarts : ∀ s ∈ stringStarts, '\n' ∉ s.toList ∧ '\r' ∉ s.toList := by decide
  unfold startsLetteredString
  rw [Bool.eq_iff_iff, List.any_eq_true, List.any_eq_true]
  exact exists_congr fun s => and_congr_right fun hs => by
    rw [isPrefixOf_crlf (hstarts s hs).1 (hstarts s hs).2]

theorem lifetimeMark?_crlf (cs : List Char) :
    lifetimeMark? (crlf cs) = (lifetimeMark? cs).map (Tree.copied ('\'' :: cs)) := by
  have hraw : ['r', '#'].isPrefixOf (crlf cs) = ['r', '#'].isPrefixOf cs :=
    isPrefixOf_crlf (by decide) (by decide) cs
  have hcopied : (Tree.mark ('\'' :: cs) '\'' true).copied ('\'' :: cs) =
      .mark ('\'' :: crlf cs) '\'' true := by
    rw [Tree.copied, crlf_cons (by decide)]
  unfold lifetimeMark?
  rw [word?_crlf]
  cases word? cs with
  | none => rfl
  | some found =>
    obtain ⟨name, after⟩ := found
    dsimp only [Option.map_some, Option.bind_eq_bind, Option.bind_some]
    split
    · next copy hcopy =>
      obtain ⟨rest, rfl, -⟩ := of_crlf_eq_cons hcopy (by decide)
      rfl
    · next copy hcopy =>
      obtain ⟨rest, rfl, -⟩ := of_crlf_eq_cons hcopy (by decide)
      rw [hraw]
      split_ifs
      · exact congrArg some hcopied.symm
      · rfl
    · next hquote hhash =>
      split
      · next rest => exact absurd (crlf_cons (by decide) rest) (hquote _)
      · next rest => exact absurd (crlf_cons (by decide) rest) (hhash _)
      · exact congrArg some hcopied.symm

theorem mark?_crlf (cs : List Char) :
    mark? (crlf cs) = (mark? cs).map fun found => (found.1.copied cs, crlf found.2) := by
  match cs with
  | [] => rfl
  | c :: rest =>
    by_cases hc : c = '\n'
    · subst hc
      rfl
    · by_cases hquote : c = '\''
      · subst hquote
        rw [crlf_cons (by decide), mark?, mark?, lifetimeMark?_crlf]
        cases lifetimeMark? rest <;> rfl
      · have hmark := startsMark_crlf (c :: rest)
        rw [crlf_cons hc] at hmark ⊢
        rw [mark?, mark?, hmark, startsMark_crlf]
        · split_ifs
          · rw [Option.map_some, Tree.copied, crlf_cons hc]
          · rfl
        · exact hquote
        · exact hquote

/-- A token without a body stands at the front of the copy if and only if one stands at the front of
the text. -/
theorem leaf?_crlf (hreturns : '\r' ∉ cs) (hfeed : quotesLineFeed cs = false) :
    leaf? (crlf cs) = (leaf? cs).map fun found => (found.1.copied cs, crlf found.2) := by
  have hfree : '\n' ∉ failedExpansion ∧ '\r' ∉ failedExpansion := by decide
  unfold leaf?
  rw [literal?_crlf hreturns hfeed, mark?_crlf, startsLetteredString_crlf, word?_crlf,
    isPrefixOf_crlf hfree.1 hfree.2]
  cases literal? cs with
  | some found => rfl
  | none =>
    dsimp only [Option.map_none]
    cases mark? cs with
    | some found => rfl
    | none =>
      dsimp only [Option.map_none]
      have hword : (if startsLetteredString cs = true then none
            else (word? cs).map fun found => (found.1, crlf found.2)) =
          (if startsLetteredString cs = true then none else word? cs).map
            fun found => (found.1, crlf found.2) := by
        split_ifs <;> rfl
      rw [hword]
      cases if startsLetteredString cs = true then none else word? cs with
      | some found => rfl
      | none =>
        dsimp only [Option.map_none]
        split_ifs with hfailed
        · have hfront : cs.take failedExpansion.length = failedExpansion :=
            (List.prefix_iff_eq_take.1 (List.isPrefixOf_iff_prefix.1 hfailed)).symm
          have hline : '\n' ∉ cs.take failedExpansion.length := by
            rw [hfront]
            exact hfree.1
          rw [drop_crlf hline]
          rfl
        · rfl

/-! ## Lexemes -/

/-- What stands at the front of a text that does not begin with a line feed stands at the front of the
copy, unless it is a line feed in quotes. -/
theorem lexeme?_crlf (hc : c ≠ '\n') (hreturns : '\r' ∉ c :: rest)
    (hfeed : quotesLineFeed (c :: rest) = false) {found : Lexeme × List Char}
    (h : lexeme? (c :: rest) = some found) :
    CopiedTo (c :: rest) found (lexeme? (crlf (c :: rest))) := by
  have hfree : '\n' ∉ failedExpansion ∧ '\r' ∉ failedExpansion := by decide
  have hcopy := crlf_cons hc rest
  have hcomment := startsComment_crlf (c :: rest)
  have hfailed := isPrefixOf_crlf hfree.1 hfree.2 (c :: rest)
  rw [hcopy] at hcomment hfailed ⊢
  unfold lexeme? at h ⊢
  dsimp only at h ⊢
  rw [hcomment, hfailed]
  by_cases hgap : isGapChar c = true
  · rw [if_pos hgap] at h ⊢
    cases h
    exact ⟨_, _, rfl, .whole rest, .gap⟩
  rw [if_neg hgap] at h ⊢
  by_cases hstarts : startsComment (c :: rest) = true
  · rw [if_pos hstarts] at h ⊢
    rw [← hcopy]
    exact comment?_crlf hreturns h
  rw [if_neg hstarts] at h ⊢
  generalize (if failedExpansion.isPrefixOf (c :: rest) = true then none
    else Delimiter.ofOpening? c) = opening at h
  cases opening with
  | some d =>
    cases h
    exact ⟨_, _, rfl, .whole rest, .opening d⟩
  | none =>
    dsimp only at h ⊢
    cases hclosing : Delimiter.ofClosing? c with
    | some d =>
      rw [hclosing] at h
      cases h
      exact ⟨_, _, rfl, .whole rest, .closing d⟩
    | none =>
      rw [hclosing] at h
      obtain ⟨⟨tree, after⟩, hleaf, rfl⟩ := Option.map_eq_some_iff.1 h
      rw [← hcopy, leaf?_crlf hreturns hfeed, hleaf]
      exact ⟨_, _, rfl, .whole after, .leaf tree⟩

/-- A line feed in quotes is no lexeme of the copy. -/
theorem lexeme?_of_quotesLineFeed (hfeed : quotesLineFeed cs = true) : lexeme? (crlf cs) = none := by
  unfold quotesLineFeed at hfeed
  split at hfeed
  · next rest =>
    rw [crlf_cons (by decide), crlf_newline]
    rfl
  · next rest =>
    rw [crlf_cons (by decide), crlf_cons (by decide), crlf_newline]
    rfl
  · cases hfeed

end EmbeddedSolidity.Source
