import EmbeddedSolidity.Grammar.Origin
import EmbeddedSolidity.Proofs.Source.LineEndLexemes
import Mathlib.Data.List.Forall2

/-!
# Line ends in token trees

The lexer goes through a text without carriage returns and through its copy in the same lexemes, with one
gap more for each line end in the copy, until it meets a line feed in quotes. Without one the trees of the
copy are those of the text at the copies of their places, with the copies of their strings
(`TreeCopied`), and so their outlines are the same.

* `Reads` : the places at which lexemes are read;
* `treesFrom_crlf`, `trees?_crlf` : the trees of the copy;
* `BodyCopied.outlines_eq`, `BodyCopied.bodyAt`, `BodyCopied.placeAt` : what the grammar sees of them,
  and what stands at a number.
-/

namespace EmbeddedSolidity.Source

open EmbeddedSolidity.Grammar (Outline LiteralClass outlinesFrom outlines numbered inTree bodyAt placeAt)

/-- Reading lexeme by lexeme from the front of the text comes to the place. -/
inductive Reads : List Char → List Char → Prop where
  | here (cs : List Char) : Reads cs cs
  | next {cs after place : List Char} {x : Lexeme} :
    lexeme? cs = some (x, after) → Reads after place → Reads cs place

theorem Reads.trans {cs ds place : List Char} (h : Reads cs ds) (h' : Reads ds place) :
    Reads cs place := by
  induction h with
  | here => exact h'
  | next hlexeme _ ih => exact .next hlexeme (ih h')

/-- What is read from a text is its front or is read from behind its first lexeme. -/
theorem reads_iff {cs after place : List Char} {x : Lexeme} (h : lexeme? cs = some (x, after)) :
    Reads cs place ↔ place = cs ∨ Reads after place := by
  constructor
  · intro hreads
    cases hreads with
    | here => exact Or.inl rfl
    | next hlexeme hafter =>
      obtain ⟨-, rfl⟩ := Prod.mk.inj (Option.some.inj (h.symm.trans hlexeme))
      exact Or.inr hafter
  · rintro (rfl | hafter)
    · exact .here _
    · exact .next h hafter

theorem reads_nil {place : List Char} : Reads [] place ↔ place = [] := by
  constructor
  · intro hreads
    cases hreads with
    | here => rfl
    | next hlexeme _ => cases hlexeme
  · rintro rfl
    exact .here []

/-! ## The copies of trees -/

/-- The tokens of documentation in the brackets of its attribute. -/
def noteBody (place text : List Char) : List Tree :=
  [.word place "doc" false, .mark place '=' false, .literal (.string text)]

/-- A tree of the source and the tree of the copy. A string has the value that its literal, which is
read in the source, has in the copy; of documentation the text may differ. -/
inductive TreeCopied (source : List Char) : Tree → Tree → Prop where
  | group (d : Delimiter) {body body' : List Tree} : List.Forall₂ (TreeCopied source) body body' →
    TreeCopied source (.group d body) (.group d body')
  | note (place text text' : List Char) :
    TreeCopied source (.group .bracket (noteBody place text))
      (.group .bracket (noteBody (crlf place) text'))
  | word (place : List Char) (name : String) (isRaw : Bool) :
    TreeCopied source (.word place name isRaw) (.word (crlf place) name isRaw)
  | mark (place : List Char) (sign : Char) (joint : Bool) :
    TreeCopied source (.mark place sign joint) (.mark (crlf place) sign joint)
  | string {place text rest : List Char} : Reads source place →
    literal? place = some (.string text, rest) →
    TreeCopied source (.literal (.string text)) (.literal (.string (copied place text)))
  | literal {value : Literal} : (∀ text, value ≠ .string text) →
    TreeCopied source (.literal value) (.literal value)

/-- Trees of the source and those of the copy. -/
abbrev TreesCopied (source : List Char) : List Tree → List Tree → Prop :=
  List.Forall₂ (TreeCopied source)

variable {source : List Char}

/-- The class of a literal is the same in the copy. -/
theorem TreeCopied.of_literal {place rest : List Char} {value : Literal} (hreads : Reads source place)
    (h : literal? place = some (value, rest)) :
    TreeCopied source (.literal value) (.literal (value.copied place)) := by
  cases value with
  | string text => exact .string hreads h
  | integer written => exact .literal nofun
  | float written => exact .literal nofun
  | other => exact .literal nofun

theorem treeCopied_of_leaf? {cs : List Char} {found : Tree × List Char} (hreads : Reads source cs)
    (h : leaf? cs = some found) : TreeCopied source found.1 (found.1.copied cs) := by
  unfold leaf? at h
  split at h
  · next value rest hliteral =>
    cases h
    exact .of_literal hreads hliteral
  · split at h
    · next mark hmark =>
      cases h
      unfold mark? at hmark
      split at hmark
      · obtain ⟨tree, htree, rfl⟩ := Option.map_eq_some_iff.1 hmark
        rw [of_lifetimeMark? htree]
        exact .mark _ _ _
      · split_ifs at hmark
        cases hmark
        exact .mark _ _ _
      · cases hmark
    · split at h
      · cases h
        exact .word _ _ _
      · split_ifs at h
        cases h
        exact .literal nofun

/-- The leaf that a lexeme is has its copy in the copy. -/
theorem treeCopied_of_lexeme? {cs after : List Char} {tree : Tree} (hreads : Reads source cs)
    (h : lexeme? cs = some (.leaf tree, after)) : TreeCopied source tree (tree.copied cs) := by
  unfold lexeme? at h
  split at h
  · cases h
  · split at h
    · cases h
    · split at h
      · exact absurd h comment?_ne_leaf
      · split at h
        · cases h
        · split at h
          · cases h
          · obtain ⟨found, hfound, heq⟩ := Option.map_eq_some_iff.1 h
            cases heq
            exact treeCopied_of_leaf? hreads hfound

theorem treesCopied_noteTrees (inner : Bool) (place text text' : List Char) :
    TreesCopied source (noteTrees inner text place) (noteTrees inner text' (crlf place)) := by
  cases inner with
  | true => exact .cons (.note _ _ _) (.cons (.mark _ _ _) (.cons (.mark _ _ _) .nil))
  | false => exact .cons (.note _ _ _) (.cons (.mark _ _ _) .nil)

/-! ## Reading the copy -/

theorem length_crlf (cs : List Char) : (crlf cs).length = cs.length + cs.count '\n' := by
  induction cs with
  | nil => rfl
  | cons c rest ih =>
    by_cases hc : c = '\n'
    · subst hc
      simp [ih]
      omega
    · rw [crlf_cons hc, List.length_cons, ih, List.length_cons, List.count_cons_of_ne hc]
      omega

/-- The copy of a rest is longer by no more than the copy of the text is. -/
theorem Copies.length_le {cs after copy : List Char} (h : Copies after copy) (hsuffix : after <:+ cs) :
    copy.length + cs.length ≤ (crlf cs).length + after.length := by
  have hcount := hsuffix.sublist.count_le '\n'
  have hlength := length_crlf cs
  cases h with
  | whole after =>
    have := length_crlf after
    omega
  | behind rest =>
    have := length_crlf rest
    rw [List.count_cons_self] at hcount
    rw [List.length_cons, List.length_cons]
    omega

/-- How the copy of a text that has the trees `ts` is read : not at all, if a line feed in quotes is
read in the text, and otherwise as the copies of the trees. -/
def ReadAs (source cs : List Char) (ts : List Tree) (result : Option (List Tree)) : Prop :=
  (∃ place, Reads cs place ∧ quotesLineFeed place = true) ∧ result = none ∨
    (∀ place, Reads cs place → quotesLineFeed place = false) ∧
      ∃ ts', result = some ts' ∧ TreesCopied source ts ts'

theorem ReadAs.of_next {cs after : List Char} {x : Lexeme} {ts : List Tree}
    {result : Option (List Tree)} (h : lexeme? cs = some (x, after))
    (hfeed : quotesLineFeed cs = false) (hread : ReadAs source after ts result) :
    ReadAs source cs ts result := by
  rcases hread with ⟨⟨place, hplace, hquotes⟩, hresult⟩ | ⟨hnone, hresult⟩
  · exact Or.inl ⟨⟨place, .next h hplace, hquotes⟩, hresult⟩
  · refine Or.inr ⟨fun place hplace => ?_, hresult⟩
    rcases (reads_iff h).1 hplace with rfl | hafter
    · exact hfeed
    · exact hnone place hafter

/-- The brackets that are open in the source and in the copy. -/
abbrev OpenedCopied (source : List Char) :
    List (Delimiter × List Tree) → List (Delimiter × List Tree) → Prop :=
  List.Forall₂ fun o o' => o.1 = o'.1 ∧ TreesCopied source o.2 o'.2

/-- The copy of what is left is read as the text is, if there is no bound on its lexemes that the text
has not; each line end takes one lexeme more. The induction is on the bound for the copy, because at a
line end only the copy goes on. -/
theorem treesFrom_crlf : ∀ (m n : Nat) {opened opened' : List (Delimiter × List Tree)}
    {done done' : List Tree} {cs copy : List Char} {ts : List Tree}, Copies cs copy → '\r' ∉ cs →
    Reads source cs → OpenedCopied source opened opened' → TreesCopied source done done' →
    n + copy.length ≤ m + cs.length → treesFrom n opened done cs = some ts →
    ReadAs source cs ts (treesFrom m opened' done' copy)
  | m, n, opened, opened', done, done', _, _, ts, .whole [], _, _, hopened, hdone, _, h => by
    rw [crlf_nil, treesFrom_nil]
    rw [treesFrom_nil] at h
    have hempty : opened'.isEmpty = opened.isEmpty := by cases hopened <;> rfl
    rw [hempty]
    split_ifs at h with hclosed
    cases h
    refine Or.inr ⟨fun place hplace => ?_, _, if_pos hclosed, List.rel_reverse hdone⟩
    rw [reads_nil.1 hplace]
    rfl
  | m, 0, _, _, _, _, _, _, _, .whole (c :: rest), _, _, _, _, _, h => by cases h
  | 0, n + 1, _, _, _, _, _, _, _, .whole (c :: rest), _, _, _, _, hbound, _ => by
    have := length_crlf (c :: rest)
    omega
  | m + 1, n + 1, opened, opened', done, done', _, _, ts, .whole (c :: rest), hreturns, hreads,
      hopened, hdone, hbound, h => by
    by_cases hc : c = '\n'
    · -- the copy passes the carriage return
      subst hc
      rw [crlf_newline] at hbound ⊢
      have hstep : treesFrom (m + 1) opened' done' ('\r' :: '\n' :: crlf rest) =
          treesFrom m opened' done' ('\n' :: crlf rest) := rfl
      rw [hstep]
      refine treesFrom_crlf m (n + 1) (.behind rest) hreturns hreads hopened hdone ?_ h
      simp only [List.length_cons] at hbound ⊢
      omega
    · cases hfeed : quotesLineFeed (c :: rest) with
      | true =>
        have hnone := lexeme?_of_quotesLineFeed hfeed
        rw [crlf_cons hc] at hnone ⊢
        refine Or.inl ⟨⟨_, .here _, hfeed⟩, ?_⟩
        rw [treesFrom_cons, hnone]
      | false =>
        rw [treesFrom_cons] at h
        cases hlexeme : lexeme? (c :: rest) with
        | none =>
          rw [hlexeme] at h
          cases h
        | some found =>
          obtain ⟨x, after⟩ := found
          obtain ⟨x', after', hcopy, hafter, hx⟩ := lexeme?_crlf hc hreturns hfeed hlexeme
          have hsuffix := (placed_of_lexeme? hlexeme).1
          have hlength := hafter.length_le hsuffix
          have hfree : '\r' ∉ after := fun hmem => hreturns (hsuffix.subset hmem)
          have hreadsAfter : Reads source after := hreads.trans (.next hlexeme (.here after))
          have hless : n + after'.length ≤ m + after.length := by
            dsimp only at hlength
            omega
          have hplace := crlf_cons hc rest
          refine ReadAs.of_next hlexeme hfeed ?_
          rw [hlexeme] at h
          rw [hplace] at hcopy ⊢
          rw [treesFrom_cons, hcopy]
          cases hx with
          | gap => exact treesFrom_crlf m n hafter hfree hreadsAfter hopened hdone hless h
          | note inner text text' =>
            refine treesFrom_crlf m n hafter hfree hreadsAfter hopened ?_ hless h
            rw [← hplace]
            exact List.rel_append (treesCopied_noteTrees inner _ _ _) hdone
          | opening d =>
            have hpushed : OpenedCopied source ((d, done) :: opened) ((d, done') :: opened') :=
              .cons ⟨rfl, hdone⟩ hopened
            exact treesFrom_crlf m n hafter hfree hreadsAfter hpushed .nil hless h
          | closing d =>
            cases hopened with
            | nil => cases h
            | cons hopen hopened =>
              obtain ⟨hsame, hbefore⟩ := hopen
              dsimp only at h ⊢
              rw [← hsame]
              split_ifs at h ⊢
              exact treesFrom_crlf m n hafter hfree hreadsAfter hopened
                (.cons (.group d (List.rel_reverse hdone)) hbefore) hless h
          | leaf tree =>
            exact treesFrom_crlf m n hafter hfree hreadsAfter hopened
              (.cons (treeCopied_of_lexeme? hreads hlexeme) hdone) hless h
  | m, 0, _, _, _, _, _, _, _, .behind rest, _, _, _, _, _, h => by cases h
  | 0, n + 1, _, _, _, _, _, _, _, .behind rest, _, _, _, _, hbound, _ => by
    have := length_crlf rest
    simp only [List.length_cons] at hbound
    omega
  | m + 1, n + 1, opened, opened', done, done', _, _, ts, .behind rest, hreturns, hreads, hopened,
      hdone, hbound, h => by
    have hgap : lexeme? ('\n' :: rest) = some (.gap, rest) := rfl
    refine ReadAs.of_next hgap rfl ?_
    simp only [List.length_cons] at hbound
    exact treesFrom_crlf m n (.whole rest) (fun hmem => hreturns (List.mem_cons_of_mem _ hmem))
      (hreads.trans (.next hgap (.here rest))) hopened hdone (by omega) h

theorem dropOrderMark_crlf (source : List Char) :
    dropOrderMark (crlf source) = crlf (dropOrderMark source) := by
  match source with
  | [] => rfl
  | c :: rest =>
    by_cases hmark : c = '\ufeff'
    · subst hmark
      rw [crlf_cons (by decide), dropOrderMark, dropOrderMark]
    · have htext : dropOrderMark (c :: rest) = c :: rest := by
        rw [dropOrderMark]
        exact fun _ heq => hmark (List.cons.inj heq).1
      rw [htext]
      by_cases hc : c = '\n'
      · subst hc
        rfl
      · rw [crlf_cons hc, dropOrderMark]
        exact fun _ heq => hmark (List.cons.inj heq).1

/-- The trees of the copy of a source. -/
theorem trees?_crlf {ts : List Tree} (hreturns : '\r' ∉ source) (h : trees? source = some ts) :
    ReadAs (dropOrderMark source) (dropOrderMark source) ts (trees? (crlf source)) := by
  have hfree : '\r' ∉ dropOrderMark source :=
    fun hmem => hreturns ((suffix_dropOrderMark source).subset hmem)
  unfold trees? at h ⊢
  dsimp only at h ⊢
  rw [dropOrderMark_crlf]
  refine treesFrom_crlf _ _ (.whole _) hfree (.here _) .nil .nil ?_ h
  rw [Nat.add_comm]

/-! ## Outlines -/

mutual

/-- A tree and its copy have the same size and the same outline. -/
theorem outline_copied : ∀ {t t' : Tree}, TreeCopied source t t' →
    t'.size = t.size ∧ ∀ n, Outline.of n t' = Outline.of n t
  | .group d body, _, .group _ hbody => by
    obtain ⟨hsizes, houtlines⟩ := outlines_copied hbody
    exact ⟨by rw [Tree.size, hsizes, Tree.size],
      fun n => by rw [Outline.of, houtlines, Outline.of]⟩
  | _, _, .note place text text' => ⟨rfl, fun n => rfl⟩
  | _, _, .word .. | _, _, .mark .. | _, _, .string .. | _, _, .literal _ => ⟨rfl, fun _ => rfl⟩

/-- Trees and their copies have the same outlines. -/
theorem outlines_copied : ∀ {ts ts' : List Tree}, TreesCopied source ts ts' →
    sizes ts' = sizes ts ∧ ∀ n, outlinesFrom n ts' = outlinesFrom n ts
  | [], _, .nil => ⟨rfl, fun _ => rfl⟩
  | t :: ts, _, .cons ht hts => by
    obtain ⟨hsize, houtline⟩ := outline_copied ht
    obtain ⟨hsizes, houtlines⟩ := outlines_copied hts
    exact ⟨by rw [sizes, sizes, hsize, hsizes],
      fun n => by rw [outlinesFrom, outlinesFrom, houtline, houtlines, hsize]⟩

end

/-! ## What stands at a number -/

/-- The trees stand for each other in the source and in the copy : the one is the copy of the other, or
both are strings. -/
def Alike (source : List Char) (t t' : Tree) : Prop :=
  TreeCopied source t t' ∨ ∃ text text', t = .literal (.string text) ∧ t' = .literal (.string text')

mutual

theorem inTree_copied : ∀ {t t' : Tree}, TreeCopied source t t' →
    List.Forall₂ (Alike source) (inTree t) (inTree t')
  | .group d _, _, .group _ hbody => .cons (Or.inl (.group d hbody)) (numbered_copied hbody)
  | _, _, .note place text text' =>
    .cons (Or.inl (.note place text text')) (.cons (Or.inl (.word _ _ _)) (.cons (Or.inl (.mark _ _ _))
      (.cons (Or.inr ⟨text, text', rfl, rfl⟩) .nil)))
  | _, _, .word .. => .cons (Or.inl (.word _ _ _)) .nil
  | _, _, .mark .. => .cons (Or.inl (.mark _ _ _)) .nil
  | _, _, .string hreads hliteral => .cons (Or.inl (.string hreads hliteral)) .nil
  | _, _, .literal hvalue => .cons (Or.inl (.literal hvalue)) .nil

/-- The trees of the same numbers stand for each other. -/
theorem numbered_copied : ∀ {ts ts' : List Tree}, TreesCopied source ts ts' →
    List.Forall₂ (Alike source) (numbered ts) (numbered ts')
  | [], _, .nil => .nil
  | _ :: _, _, .cons ht hts => List.rel_append (inTree_copied ht) (numbered_copied hts)

end

/-- The body of a group and that of its copy. -/
def BodyCopied (source : List Char) (ts ts' : List Tree) : Prop :=
  TreesCopied source ts ts' ∨
    ∃ place text text', ts = noteBody place text ∧ ts' = noteBody (crlf place) text'

theorem BodyCopied.outlines_eq {ts ts' : List Tree} (h : BodyCopied source ts ts') :
    outlines ts' = outlines ts := by
  rcases h with h | ⟨place, text, text', rfl, rfl⟩
  · exact (outlines_copied h).2 0
  · rfl

theorem BodyCopied.numbered {ts ts' : List Tree} (h : BodyCopied source ts ts') :
    List.Forall₂ (Alike source) (numbered ts) (numbered ts') := by
  rcases h with h | ⟨place, text, text', rfl, rfl⟩
  · exact numbered_copied h
  · exact .cons (Or.inl (.word _ _ _)) (.cons (Or.inl (.mark _ _ _))
      (.cons (Or.inr ⟨text, text', rfl, rfl⟩) .nil))

/-- The trees of one number, if there are so many trees. -/
theorem alike_of_numbered {ts ts' : List Tree} (h : List.Forall₂ (Alike source) ts ts') (n : Nat) :
    ts[n]? = none ∧ ts'[n]? = none ∨ ∃ t t', ts[n]? = some t ∧ ts'[n]? = some t' ∧ Alike source t t' := by
  induction h generalizing n with
  | nil => exact Or.inl ⟨rfl, rfl⟩
  | cons ht _ ih =>
    cases n with
    | zero => exact Or.inr ⟨_, _, rfl, rfl, ht⟩
    | succ n => exact ih n

theorem BodyCopied.bodyAt {ts ts' : List Tree} (h : BodyCopied source ts ts') (n : Nat) :
    BodyCopied source (bodyAt ts n) (bodyAt ts' n) := by
  unfold Grammar.bodyAt
  rcases alike_of_numbered h.numbered n with ⟨hn, hn'⟩ | ⟨t, t', hn, hn', halike⟩
  · rw [hn, hn']
    exact Or.inl .nil
  · rw [hn, hn']
    rcases halike with hcopied | ⟨text, text', rfl, rfl⟩
    · cases hcopied with
      | group d hbody => exact Or.inl hbody
      | note place text text' => exact Or.inr ⟨place, text, text', rfl, rfl⟩
      | word | mark | string | literal => exact Or.inl .nil
    · exact Or.inl .nil

theorem BodyCopied.placeAt {ts ts' : List Tree} (h : BodyCopied source ts ts') (n : Nat) :
    placeAt ts' n = crlf (placeAt ts n) := by
  unfold Grammar.placeAt
  rcases alike_of_numbered h.numbered n with ⟨hn, hn'⟩ | ⟨t, t', hn, hn', halike⟩
  · rw [hn, hn']
    rfl
  · rw [hn, hn']
    rcases halike with hcopied | ⟨text, text', rfl, rfl⟩
    · cases hcopied <;> rfl
    · rfl

end EmbeddedSolidity.Source
