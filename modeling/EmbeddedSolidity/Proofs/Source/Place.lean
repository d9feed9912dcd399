import EmbeddedSolidity.Source.Lexer
import Mathlib.Tactic.SplitIfs

/-!
# Places are ends of the source

What the lexer leaves is an end of the text it was given (`placed_of_lexeme?`), so that the place
of every word and mark in the trees of a source is an end of the source (`placed_of_trees?`).
-/

namespace EmbeddedSolidity.Source

theorem suffix_cons_of {c : Char} {cs ds : List Char} (h : cs <:+ ds) : cs <:+ c :: ds :=
  h.trans (List.suffix_cons c ds)

/-- Characters in front of a value do not change what is left. -/
theorem suffix_of_onto {front cs : List Char} {found : Option (List Char × List Char)}
    {x : List Char × List Char} (h : found.map (onto front) = some x)
    (hfound : ∀ y, found = some y → y.2 <:+ cs) : x.2 <:+ cs := by
  obtain ⟨y, hy, rfl⟩ := Option.map_eq_some_iff.1 h
  exact hfound y hy

/-! ## Literals -/

theorem suffix_of_cooked (kind : StringKind) :
    ∀ (skip : Nat) (cs : List Char) {x : List Char × List Char},
      cooked kind skip cs = some x → x.2 <:+ cs
  | _, [], x, h => by simp [cooked] at h
  | skip + 1, c :: rest, x, h => suffix_cons_of (suffix_of_cooked kind skip rest h)
  | 0, c :: rest, x, h => by
    unfold cooked at h
    split_ifs at h
    · cases h
      exact List.suffix_cons c rest
    · split at h
      · exact suffix_cons_of (suffix_of_onto h fun _ => suffix_of_cooked kind 1 _)
      · cases h
    · split at h
      · exact suffix_cons_of (suffix_of_onto h fun _ => suffix_of_cooked kind _ rest)
      · cases h
    · exact suffix_cons_of (suffix_of_onto h fun _ => suffix_of_cooked kind 0 rest)

theorem suffix_of_raw (kind : StringKind) (hashes : Nat) (cs : List Char) :
    ∀ {x : List Char × List Char}, raw kind hashes cs = some x → x.2 <:+ cs := by
  fun_induction raw kind hashes cs with
  | case1 => nofun
  | case2 rest _ =>
    intro x h
    cases h
    exact suffix_cons_of (List.drop_suffix hashes rest)
  | case3 rest _ ih => exact fun h => suffix_cons_of (suffix_of_onto h fun _ => ih)
  | case4 rest ih =>
    exact fun h => suffix_cons_of (suffix_cons_of (suffix_of_onto h fun _ => ih))
  | case5 => nofun
  | case6 c rest _ _ _ _ ih => exact fun h => suffix_cons_of (suffix_of_onto h fun _ => ih)
  | case7 => nofun

theorem suffix_of_rawString? {kind : StringKind} {cs : List Char} {x : List Char × List Char}
    (h : rawString? kind cs = some x) : x.2 <:+ cs := by
  unfold rawString? at h
  dsimp only at h
  split at h
  · next rest hrest =>
    split_ifs at h
    have hraw := suffix_cons_of (c := '"') (suffix_of_raw kind _ rest h)
    rw [← hrest] at hraw
    exact hraw.trans (List.drop_suffix _ cs)
  · cases h

theorem suffix_of_string? {cs : List Char} {x : StringKind × List Char × List Char}
    (h : string? cs = some x) : x.2.2 <:+ cs := by
  unfold string? at h
  have cooks {kind : StringKind} {rest : List Char}
      (h : (cooked kind 0 rest).map (kind, ·) = some x) : x.2.2 <:+ rest := by
    obtain ⟨y, hy, rfl⟩ := Option.map_eq_some_iff.1 h
    exact suffix_of_cooked kind 0 rest hy
  have raws {kind : StringKind} {rest : List Char}
      (h : (rawString? kind rest).map (kind, ·) = some x) : x.2.2 <:+ rest := by
    obtain ⟨y, hy, rfl⟩ := Option.map_eq_some_iff.1 h
    exact suffix_of_rawString? hy
  split at h
  · exact suffix_cons_of (cooks h)
  · exact suffix_cons_of (raws h)
  · exact suffix_cons_of (suffix_cons_of (cooks h))
  · exact suffix_cons_of (suffix_cons_of (raws h))
  · exact suffix_cons_of (suffix_cons_of (cooks h))
  · exact suffix_cons_of (suffix_cons_of (raws h))
  · cases h

theorem suffix_of_closeQuote? {cs rest : List Char} (h : closeQuote? cs = some rest) :
    rest <:+ cs := by
  unfold closeQuote? at h
  split at h <;> cases h
  exact List.suffix_cons _ _

theorem suffix_of_character? {kind : StringKind} {cs rest : List Char}
    (h : character? kind cs = some rest) : rest <:+ cs := by
  unfold character? at h
  split at h
  · cases h
  · split_ifs at h
    · split at h
      · exact suffix_cons_of ((suffix_of_closeQuote? h).trans (List.drop_suffix _ _))
      · cases h
    · exact suffix_cons_of (suffix_of_closeQuote? h)

theorem suffix_of_single? {cs rest : List Char} (h : single? cs = some rest) : rest <:+ cs := by
  unfold single? at h
  split at h
  · exact suffix_cons_of (suffix_cons_of (suffix_of_character? h))
  · exact suffix_cons_of (suffix_of_character? h)
  · cases h

theorem suffix_splitWord (cs : List Char) : (splitWord cs).2 <:+ cs := by
  unfold splitWord
  split
  · exact List.suffix_rfl
  · split
    · exact suffix_cons_of (List.dropWhile_suffix _)
    · exact List.suffix_rfl

theorem suffix_of_withSuffix? {written rest : List Char} {x : List Char × List Char}
    (h : withSuffix? written rest = some x) : x.2 <:+ rest := by
  have hsplit := suffix_splitWord rest
  unfold withSuffix? at h
  dsimp only at h
  split at h
  · next c after hafter =>
    split_ifs at h
    cases h
    exact hsplit
  · next hafter =>
    cases h
    exact hsplit

theorem suffix_of_integer? {cs : List Char} {x : List Char × List Char} (h : integer? cs = some x) :
    x.2 <:+ cs := by
  unfold integer? at h
  obtain ⟨count, -, h⟩ := Option.bind_eq_some_iff.1 h
  exact (suffix_of_withSuffix? h).trans (List.drop_suffix _ _)

theorem suffix_of_float? {cs : List Char} {x : List Char × List Char} (h : float? cs = some x) :
    x.2 <:+ cs := by
  unfold float? at h
  obtain ⟨count, -, h⟩ := Option.bind_eq_some_iff.1 h
  exact (suffix_of_withSuffix? h).trans (List.drop_suffix _ _)

theorem suffix_of_literal? {cs : List Char} {x : Literal × List Char} (h : literal? cs = some x) :
    x.2 <:+ cs := by
  unfold literal? at h
  split at h
  · next hs =>
    cases h
    exact (suffix_splitWord _).trans (suffix_of_string? hs)
  · split at h
    · next hs =>
      cases h
      exact (suffix_splitWord _).trans (suffix_of_single? hs)
    · split at h
      · next hs =>
        cases h
        exact suffix_of_float? hs
      · obtain ⟨y, hy, rfl⟩ := Option.map_eq_some_iff.1 h
        exact suffix_of_integer? hy

/-! ## Comments -/

theorem suffix_restOfLine (cs : List Char) : (restOfLine cs).2 <:+ cs := by
  fun_induction restOfLine cs with
  | case1 => exact List.suffix_rfl
  | case2 => exact List.suffix_rfl
  | case3 rest => exact List.suffix_cons _ _
  | case4 c rest _ _ ih => exact suffix_cons_of ih

theorem suffix_of_restOfBlock (depth : Nat) (cs : List Char) :
    ∀ {x : List Char × List Char}, restOfBlock depth cs = some x → x.2 <:+ cs := by
  fun_induction restOfBlock depth cs with
  | case1 depth rest ih =>
    exact fun h => suffix_cons_of (suffix_cons_of (suffix_of_onto h fun _ => ih))
  | case2 depth rest _ =>
    intro x h
    cases h
    exact suffix_cons_of (List.suffix_cons _ _)
  | case3 depth rest _ ih =>
    exact fun h => suffix_cons_of (suffix_cons_of (suffix_of_onto h fun _ => ih))
  | case4 depth c rest _ _ ih => exact fun h => suffix_cons_of (suffix_of_onto h fun _ => ih)
  | case5 => nofun

theorem suffix_of_note? {inner : Bool} {found : List Char × List Char} {x : Lexeme × List Char}
    (h : note? inner found = some x) : x.2 = found.2 := by
  unfold note? at h
  split_ifs at h
  cases h
  rfl

theorem suffix_of_comment? {cs : List Char} {x : Lexeme × List Char} (h : comment? cs = some x) :
    x.2 <:+ cs := by
  have blocks {rest : List Char} {inner : Bool}
      (h : (restOfBlock 1 rest).bind (note? inner) = some x) : x.2 <:+ rest := by
    obtain ⟨y, hy, hnote⟩ := Option.bind_eq_some_iff.1 h
    rw [suffix_of_note? hnote]
    exact suffix_of_restOfBlock 1 rest hy
  have gaps {rest : List Char}
      (h : (restOfBlock 1 rest).map (fun found => (Lexeme.gap, found.2)) = some x) :
      x.2 <:+ rest := by
    obtain ⟨y, hy, rfl⟩ := Option.map_eq_some_iff.1 h
    exact suffix_of_restOfBlock 1 rest hy
  have lines {rest : List Char} {inner : Bool} (h : note? inner (restOfLine rest) = some x) :
      x.2 <:+ rest := by
    rw [suffix_of_note? h]
    exact suffix_restOfLine rest
  unfold comment? at h
  split at h
  · exact suffix_cons_of (suffix_cons_of (suffix_cons_of (lines h)))
  · cases h
    exact suffix_cons_of (suffix_cons_of (suffix_cons_of (suffix_cons_of (suffix_restOfLine _))))
  · exact suffix_cons_of (suffix_cons_of (suffix_cons_of (lines h)))
  · cases h
    exact suffix_cons_of (suffix_cons_of (suffix_restOfLine _))
  · exact suffix_cons_of (suffix_cons_of (suffix_cons_of (blocks h)))
  · cases h
    exact suffix_cons_of (suffix_cons_of (suffix_cons_of (List.suffix_cons _ _)))
  · exact suffix_cons_of (suffix_cons_of (gaps h))
  · exact suffix_cons_of (suffix_cons_of (suffix_cons_of (blocks h)))
  · exact suffix_cons_of (suffix_cons_of (gaps h))
  · cases h

/-! ## Words and marks -/

theorem suffix_of_word? {cs : List Char} {x : (String × Bool) × List Char} (h : word? cs = some x) :
    x.2 <:+ cs := by
  unfold word? at h
  dsimp only at h
  split at h
  · dsimp only at h
    split_ifs at h
    cases h
    exact suffix_cons_of (suffix_cons_of (suffix_splitWord _))
  · dsimp only at h
    split_ifs at h
    cases h
    exact suffix_splitWord cs

theorem of_lifetimeMark? {cs : List Char} {t : Tree} (h : lifetimeMark? cs = some t) :
    t = .mark ('\'' :: cs) '\'' true := by
  unfold lifetimeMark? at h
  obtain ⟨word, -, h⟩ := Option.bind_eq_some_iff.1 h
  dsimp only at h
  split at h
  · cases h
  · split at h
    · cases h
      rfl
    · cases h
  · cases h
    rfl

/-- All places in the trees are ends of the source. -/
def Placed (source : List Char) (ts : List Tree) : Prop :=
  ∀ p ∈ places ts, p <:+ source

theorem placed_nil (source : List Char) : Placed source [] :=
  nofun

theorem placed_cons {source : List Char} {t : Tree} {ts : List Tree} :
    Placed source (t :: ts) ↔ (∀ p ∈ t.places, p <:+ source) ∧ Placed source ts :=
  List.forall_mem_append

theorem placed_append {source : List Char} {ts us : List Tree} (h : Placed source ts)
    (h' : Placed source us) : Placed source (ts ++ us) := by
  induction ts with
  | nil => exact h'
  | cons t ts ih => exact placed_cons.2 ⟨(placed_cons.1 h).1, ih (placed_cons.1 h).2⟩

theorem placed_reverse {source : List Char} {ts : List Tree} (h : Placed source ts) :
    Placed source ts.reverse := by
  induction ts with
  | nil => exact h
  | cons t ts ih =>
    rw [List.reverse_cons]
    refine placed_append (ih (placed_cons.1 h).2) (placed_cons.2 ⟨(placed_cons.1 h).1, ?_⟩)
    exact placed_nil source

/-- A token without a body has its place at the front of the text. -/
theorem placed_of_mark? {cs : List Char} {x : Tree × List Char} (h : mark? cs = some x) :
    Placed cs [x.1] ∧ x.2 <:+ cs := by
  unfold mark? at h
  split at h
  · next rest =>
    obtain ⟨t, ht, rfl⟩ := Option.map_eq_some_iff.1 h
    rw [of_lifetimeMark? ht]
    exact ⟨by simp [Placed, places, Tree.places], List.suffix_cons _ _⟩
  · split_ifs at h
    cases h
    exact ⟨by simp [Placed, places, Tree.places], List.suffix_cons _ _⟩
  · cases h

theorem placed_of_leaf? {cs : List Char} {x : Tree × List Char} (h : leaf? cs = some x) :
    Placed cs [x.1] ∧ x.2 <:+ cs := by
  have literals (value : Literal) : Placed cs [.literal value] := by
    simp [Placed, places, Tree.places]
  unfold leaf? at h
  split at h
  · next hl =>
    cases h
    exact ⟨literals _, suffix_of_literal? hl⟩
  · split at h
    · next hm =>
      cases h
      exact placed_of_mark? hm
    · split at h
      · next hw =>
        cases h
        split_ifs at hw
        exact ⟨by simp [Placed, places, Tree.places], suffix_of_word? hw⟩
      · split_ifs at h
        cases h
        exact ⟨literals _, List.drop_suffix _ _⟩

/-! ## Lexemes and trees -/

/-- A comment is a gap or a note. -/
theorem comment?_ne_leaf {cs : List Char} {t : Tree} {rest : List Char} :
    comment? cs ≠ some (.leaf t, rest) := by
  have notes {inner : Bool} {found : List Char × List Char} :
      note? inner found ≠ some (.leaf t, rest) := by
    unfold note?
    split_ifs <;> nofun
  intro h
  unfold comment? at h
  split at h
  case h_1 | h_3 => exact notes h
  case h_5 | h_8 =>
    obtain ⟨y, -, h⟩ := Option.bind_eq_some_iff.1 h
    exact notes h
  case h_7 | h_9 =>
    obtain ⟨y, -, h⟩ := Option.map_eq_some_iff.1 h
    cases h
  all_goals cases h

/-- A lexeme leaves an end of the text; a token has its place at the front of the text. -/
theorem placed_of_lexeme? {cs : List Char} {x : Lexeme × List Char} (h : lexeme? cs = some x) :
    x.2 <:+ cs ∧ ∀ t, x.1 = .leaf t → Placed cs [t] := by
  unfold lexeme? at h
  split at h
  · cases h
  · next c rest =>
    split at h
    · cases h
      exact ⟨List.suffix_cons c rest, nofun⟩
    · split at h
      · refine ⟨suffix_of_comment? h, ?_⟩
        rintro t ht
        exact absurd (h.trans (by rw [← ht])) comment?_ne_leaf
      · split at h
        · cases h
          exact ⟨List.suffix_cons c rest, nofun⟩
        · split at h
          · cases h
            exact ⟨List.suffix_cons c rest, nofun⟩
          · obtain ⟨y, hy, rfl⟩ := Option.map_eq_some_iff.1 h
            have hleaf := placed_of_leaf? hy
            refine ⟨hleaf.2, ?_⟩
            rintro t ht
            cases ht
            exact hleaf.1

/-- The trees of a documentation comment have their places in front of it. -/
theorem placed_noteTrees {source place : List Char} (inner : Bool) (text : List Char)
    (h : place <:+ source) : Placed source (noteTrees inner text place) := by
  cases inner <;> simp [noteTrees, Placed, places, Tree.places, h]

theorem Placed.mono {cs source : List Char} {ts : List Tree} (h : Placed cs ts)
    (hcs : cs <:+ source) : Placed source ts :=
  fun p hp => (h p hp).trans hcs

theorem treesFrom_nil (n : Nat) (opened : List (Delimiter × List Tree)) (done : List Tree) :
    treesFrom n opened done [] = if opened.isEmpty then some done.reverse else none := by
  cases n <;> rfl

-- the lexeme is not looked into, or the unfolding would run through the whole lexer
attribute [local irreducible] lexeme? in
theorem treesFrom_cons (n : Nat) (opened : List (Delimiter × List Tree)) (done : List Tree) (c : Char)
    (rest : List Char) :
    treesFrom (n + 1) opened done (c :: rest) =
      match lexeme? (c :: rest) with
      | some (.gap, rest) => treesFrom n opened done rest
      | some (.note inner text, after) =>
        treesFrom n opened (noteTrees inner text (c :: rest) ++ done) after
      | some (.opening d, rest) => treesFrom n ((d, done) :: opened) [] rest
      | some (.closing d, rest) =>
        match opened with
        | (d', before) :: opened =>
          if d = d' then treesFrom n opened (.group d done.reverse :: before) rest else none
        | [] => none
      | some (.leaf tree, rest) => treesFrom n opened (tree :: done) rest
      | none => none := rfl

/-- The trees that are read so far have their places in the source. -/
theorem placed_of_treesFrom {source : List Char} :
    ∀ (n : Nat) {opened : List (Delimiter × List Tree)} {done : List Tree} {cs : List Char}
      {ts : List Tree}, (∀ o ∈ opened, Placed source o.2) → Placed source done → cs <:+ source →
      treesFrom n opened done cs = some ts → Placed source ts
  | n, opened, done, [], ts, _, hdone, _, h => by
    rw [treesFrom_nil] at h
    split_ifs at h
    cases h
    exact placed_reverse hdone
  | 0, opened, done, c :: rest, ts, _, _, _, h => by cases h
  | n + 1, opened, done, c :: rest, ts, hopened, hdone, hcs, h => by
    rw [treesFrom_cons] at h
    split at h
    · next after hl =>
      exact placed_of_treesFrom n hopened hdone ((placed_of_lexeme? hl).1.trans hcs) h
    · next inner text after hl =>
      exact placed_of_treesFrom n hopened (placed_append (placed_noteTrees inner text hcs) hdone)
        ((placed_of_lexeme? hl).1.trans hcs) h
    · next d after hl =>
      refine placed_of_treesFrom n ?_ (placed_nil source) ((placed_of_lexeme? hl).1.trans hcs) h
      intro o ho
      rcases List.mem_cons.1 ho with rfl | ho
      · exact hdone
      · exact hopened o ho
    · next d after hl =>
      split at h
      · next d' before opened =>
        split_ifs at h
        have hgroup : Placed source (.group d done.reverse :: before) :=
          placed_cons.2 ⟨placed_reverse hdone, hopened (d', before) List.mem_cons_self⟩
        exact placed_of_treesFrom n (fun o ho => hopened o (List.mem_cons_of_mem _ ho)) hgroup
          ((placed_of_lexeme? hl).1.trans hcs) h
      · cases h
    · next t after hl =>
      obtain ⟨hafter, hleaf⟩ := placed_of_lexeme? hl
      have ht := (placed_cons.1 ((hleaf t rfl).mono hcs)).1
      exact placed_of_treesFrom n hopened (placed_cons.2 ⟨ht, hdone⟩) (hafter.trans hcs) h
    · cases h

theorem suffix_dropOrderMark (source : List Char) : dropOrderMark source <:+ source := by
  unfold dropOrderMark
  split
  · exact List.suffix_cons _ _
  · exact List.suffix_rfl

/-- The places in the trees of a source are ends of the source. -/
theorem placed_of_trees? {source : List Char} {ts : List Tree} (h : trees? source = some ts) :
    Placed source ts :=
  placed_of_treesFrom _ (by simp) (placed_nil source) (suffix_dropOrderMark source) h

end EmbeddedSolidity.Source
