import EmbeddedSolidity.Proofs.Scan.Snippets
import EmbeddedSolidity.Proofs.Source.LineEndTrees

/-!
# Line ends in a scan

The scan of a source without carriage returns and that of its copy find the same invocations at the same
places, because the grammar sees the same outlines of both and a carriage return in front of a line feed
moves no position. The copy differs in two things. A line feed in quotes cannot be read in it, and a
snippet that is written as a raw string has a carriage return in front of each line feed.

* `positionBefore_crlf` : places have the same positions;
* `reachable_crlf` : the invocations of the macro;
* `ofSource_crlf` : the scan of the copy.
-/

namespace EmbeddedSolidity.Scan

open Grammar (Invocation)
open Source (Tree Position Reads BodyCopied TreesCopied crlf copied isRaw quotesLineFeed literal?
  dropOrderMark)

variable {base : List Char}

/-! ## Positions -/

theorem past_crlf (p : Position) (cs : List Char) : p.past (crlf cs) = p.past cs := by
  induction cs generalizing p with
  | nil => rfl
  | cons c rest ih =>
    by_cases hc : c = '\n'
    · subst hc
      exact ih _
    · rw [Source.crlf_cons hc]
      exact ih _

/-- A place of the source has its position also in the copy. -/
theorem before_crlf {source place : List Char} (h : place <:+ source) :
    Position.before (crlf source) (crlf place) = Position.before source place := by
  obtain ⟨front, rfl⟩ := h
  rw [Source.crlf_append, Position.before_append, Position.before_append, past_crlf]

/-! ## Invocations -/

/-- An invocation in the source and that in the copy. -/
structure InvocationCopied (base : List Char) (i i' : Invocation) : Prop where
  place : i'.place = crlf i.place
  path : i'.path = i.path
  body : BodyCopied base i.body i'.body

theorem invocation_copied {ts ts' : List Tree} (h : BodyCopied base ts ts') (s : Grammar.Site) :
    InvocationCopied base (s.invocation ts) (s.invocation ts') where
  place := by
    unfold Grammar.Site.invocation
    cases s.place with
    | none => rfl
    | some n => exact h.placeAt n
  path := rfl
  body := h.bodyAt s.body

theorem invocations_copied {ts ts' : List Tree} (h : BodyCopied base ts ts') {found : List Invocation}
    (hfound : Grammar.invocations ts = .ok found) :
    ∃ found', Grammar.invocations ts' = .ok found' ∧
      List.Forall₂ (InvocationCopied base) found found' := by
  unfold Grammar.invocations at hfound ⊢
  rw [h.outlines_eq]
  cases hwhole : (Grammar.Readers.ofOutlines (Grammar.outlines ts)).file.whole with
  | error message =>
    rw [hwhole] at hfound
    cases hfound
  | ok sites =>
    rw [hwhole] at hfound
    cases hfound
    refine ⟨_, rfl, ?_⟩
    rw [List.forall₂_map_left_iff, List.forall₂_map_right_iff, List.forall₂_same]
    exact fun s _ => invocation_copied h s.1

theorem invocationsInside?_copied {ts ts' : List Tree} (h : BodyCopied base ts ts') :
    List.Forall₂ (InvocationCopied base) ((Grammar.invocationsInside? ts).getD [])
      ((Grammar.invocationsInside? ts').getD []) := by
  unfold Grammar.invocationsInside?
  rw [h.outlines_eq]
  cases (Grammar.Readers.ofOutlines (Grammar.outlines ts)).expressions.whole with
  | error message => exact .nil
  | ok sites =>
    change List.Forall₂ _ (sites.map _) (sites.map _)
    rw [List.forall₂_map_left_iff, List.forall₂_map_right_iff, List.forall₂_same]
    exact fun s _ => invocation_copied h s.1

/-- An invocation of the macro in the source and that in the copy. -/
def NamedCopied (base : List Char) (v v' : Naming × Invocation) : Prop :=
  v'.1 = v.1 ∧ InvocationCopied base v.2 v'.2

theorem ownOr_copied {search search' : Invocation → List (Naming × Invocation)}
    (hsearch : ∀ i i', InvocationCopied base i i' →
      List.Forall₂ (NamedCopied base) (search i) (search' i')) {i i' : Invocation}
    (h : InvocationCopied base i i') :
    List.Forall₂ (NamedCopied base) (ownOr search i) (ownOr search' i') := by
  unfold ownOr
  rw [h.path]
  cases naming? i.path with
  | some naming => exact .cons ⟨rfl, h⟩ .nil
  | none => exact hsearch i i' h

theorem reachable_copied (depth : Nat) {found found' : List Invocation}
    (h : List.Forall₂ (InvocationCopied base) found found') :
    List.Forall₂ (NamedCopied base) (reachable depth found) (reachable depth found') := by
  induction depth generalizing found found' with
  | zero => exact List.rel_flatMap h fun i i' hi => ownOr_copied (fun _ _ _ => .nil) hi
  | succ depth ih =>
    exact List.rel_flatMap h fun i i' hi =>
      ownOr_copied (fun _ _ hi => ih (invocationsInside?_copied hi.body)) hi

/-! ## Snippets and rejections -/

/-- The string that a body is, or what is said of it. -/
theorem stringOf_copied {ts ts' : List Tree} (h : BodyCopied base ts ts') :
    (∃ message, Grammar.stringOf ts = .error message ∧ Grammar.stringOf ts' = .error message) ∨
      ∃ place text rest, Reads base place ∧ literal? place = some (.string text, rest) ∧
        Grammar.stringOf ts = .ok text ∧ Grammar.stringOf ts' = .ok (copied place text) := by
  rcases h with h | ⟨place, text, text', rfl, rfl⟩
  · cases h with
    | nil => exact Or.inl ⟨_, rfl, rfl⟩
    | cons ht hts =>
      cases ht with
      | group | note | word | mark => exact Or.inl ⟨_, rfl, rfl⟩
      | string hreads hliteral =>
        cases hts with
        | nil => exact Or.inr ⟨_, _, _, hreads, hliteral, rfl, rfl⟩
        | cons => exact Or.inl ⟨_, rfl, rfl⟩
      | @literal value hvalue =>
        cases value with
        | string text => exact absurd rfl (hvalue text)
        | integer | float | other => exact Or.inl ⟨_, rfl, rfl⟩
  · exact Or.inl ⟨_, rfl, rfl⟩

/-- The snippet is written in the source as the string at the place. -/
def WrittenAt (source : List Char) (s : FoundSnippet) (place : List Char) : Prop :=
  Reads (dropOrderMark source) place ∧ ∃ rest, literal? place = some (.string s.text.toList, rest)

/-- The snippet whose string stands at the place, in the copy. -/
def copiedSnippet (s : FoundSnippet) (place : List Char) : FoundSnippet :=
  { s with text := String.ofList (copied place s.text.toList) }

section Results

variable {file : String} {source : List Char} {v v' : Naming × Invocation}

theorem location_copied (hv : NamedCopied base v v') (hplace : v.2.place <:+ source) :
    locationOf file (crlf source) v'.2 = locationOf file source v.2 := by
  unfold locationOf
  rw [hv.2.place, before_crlf hplace]

/-- The snippet of an invocation in the source and in the copy. -/
theorem snippet?_copied (hv : NamedCopied (dropOrderMark source) v v') (hplace : v.2.place <:+ source) :
    Option.Rel (fun s s' => ∃ place, WrittenAt source s place ∧ s' = copiedSnippet s place)
      (snippet? file source v.2) (snippet? file (crlf source) v'.2) := by
  rw [snippet?_eq, snippet?_eq, location_copied hv hplace]
  rcases stringOf_copied hv.2.body with
    ⟨message, hbody, hbody'⟩ | ⟨place, text, rest, hreads, hliteral, hbody, hbody'⟩
  · rw [hbody, hbody']
    exact .none
  · rw [hbody, hbody']
    refine .some ⟨place, ⟨hreads, rest, ?_⟩, ?_⟩
    · rw [String.toList_ofList, hliteral]
    · rw [copiedSnippet, String.toList_ofList]

/-- What is rejected is rejected in the copy with the same message. -/
theorem rejection?_copied (hv : NamedCopied base v v') (hplace : v.2.place <:+ source) :
    rejection? file (crlf source) v' = rejection? file source v := by
  have hlocation : locationOf file (crlf source) v'.2 = locationOf file source v.2 :=
    location_copied hv hplace
  obtain ⟨naming, i⟩ := v
  obtain ⟨naming', i'⟩ := v'
  obtain ⟨hnaming, hi⟩ := hv
  dsimp only at hnaming hi hlocation
  subst hnaming
  cases naming' with
  | bare => rfl
  | qualified =>
    unfold rejection?
    dsimp only
    rw [hlocation]
    rcases stringOf_copied hi.body with
      ⟨message, hbody, hbody'⟩ | ⟨place, text, rest, -, -, hbody, hbody'⟩
    · rw [hbody, hbody']
    · rw [hbody, hbody']

theorem rejections_copied {vs vs' : List (Naming × Invocation)}
    (h : List.Forall₂ (fun v v' => v.2.place <:+ source ∧ NamedCopied base v v') vs vs') :
    vs'.filterMap (rejection? file (crlf source)) = vs.filterMap (rejection? file source) := by
  induction h with
  | nil => rfl
  | cons hv _ ih => rw [filterMap_cons_eq, filterMap_cons_eq, rejection?_copied hv.2 hv.1, ih]

end Results

/-- An invocation that is considered stands in the source. -/
theorem suffix_of_mem_reachable {source : List Char} {trees : List Tree} {found : List Invocation}
    (htrees : Source.trees? source = some trees) (hfound : Grammar.invocations trees = .ok found)
    {v : Naming × Invocation} (hv : v ∈ reachable (Source.sizes trees) found) :
    v.2.place <:+ source := by
  have hof := fun i (hi : i ∈ found) => Grammar.of_mem_invocations hfound hi
  obtain ⟨visits, hvisits, hmap⟩ :=
    visits_reachable (Source.sizes trees) found fun i hi => (hof i hi).inside.sizes_lt
  rw [← hmap] at hv
  obtain ⟨⟨route, naming, i⟩, hmem, rfl⟩ := List.mem_map.1 hv
  have hplace := placeIn_of_reached ((hvisits.mem_iff route naming i).1 hmem).1 fun j hj =>
    ⟨(hof j hj).place, (hof j hj).inside.places_subset⟩
  rcases hplace with hnil | hmem
  · change i.place <:+ source
    rw [hnil]
    exact List.nil_suffix
  · exact Source.placed_of_trees? htrees _ hmem

theorem ofSource_eq (file : String) {source : String} {trees : List Tree} {found : List Invocation}
    (htrees : Source.trees? source.toList = some trees)
    (hfound : Grammar.invocations trees = .ok found) :
    ofSource file source = .ok
      ⟨(reachable (Source.sizes trees) found).filterMap fun v => snippet? file source.toList v.2,
        (reachable (Source.sizes trees) found).filterMap (rejection? file source.toList)⟩ := by
  unfold ofSource
  rw [htrees]
  dsimp only
  rw [hfound]
  dsimp only
  rw [foldl_add]
  rfl

theorem exists_of_ofSource {file source : String} {scan : Scan} (h : ofSource file source = .ok scan) :
    ∃ trees found, Source.trees? source.toList = some trees ∧
      Grammar.invocations trees = .ok found := by
  unfold ofSource at h
  split at h
  · cases h
  · next trees htrees =>
    split at h
    · cases h
    · next found hfound => exact ⟨trees, found, htrees, hfound⟩

/-- Snippets with the places of their strings. -/
theorem exists_places {source : List Char} {ss ss' : List FoundSnippet}
    (h : List.Forall₂ (fun s s' => ∃ place, WrittenAt source s place ∧ s' = copiedSnippet s place)
      ss ss') :
    ∃ places, List.Forall₂ (WrittenAt source) ss places ∧
      ss' = List.zipWith copiedSnippet ss places := by
  induction h with
  | nil => exact ⟨[], .nil, rfl⟩
  | cons hs _ ih =>
    obtain ⟨place, hplace, rfl⟩ := hs
    obtain ⟨places, hplaces, rfl⟩ := ih
    exact ⟨place :: places, .cons hplace hplaces, rfl⟩

theorem crlf_eq_self_iff {cs : List Char} : crlf cs = cs ↔ '\n' ∉ cs := by
  refine ⟨fun h => ?_, Source.crlf_of_not_mem⟩
  have hlength := Source.length_crlf cs
  rw [h] at hlength
  exact List.count_eq_zero.1 (by omega)

/-- The snippet is on one line, or the line ends in it are line feeds in the copy too. -/
theorem copiedSnippet_eq_iff {s : FoundSnippet} {place : List Char} :
    copiedSnippet s place = s ↔ (isRaw place = true → '\n' ∉ s.text.toList) := by
  obtain ⟨text, location⟩ := s
  unfold copiedSnippet copied
  dsimp only
  split_ifs with hraw
  · rw [FoundSnippet.mk.injEq, ← String.toList_inj, String.toList_ofList, crlf_eq_self_iff]
    simp [hraw]
  · simp [hraw]

theorem zipWith_copiedSnippet_eq_iff {ss : List FoundSnippet} {places : List (List Char)}
    (h : ss.length = places.length) :
    List.zipWith copiedSnippet ss places = ss ↔
      List.Forall₂ (fun s place => isRaw place = true → '\n' ∉ s.text.toList) ss places := by
  induction ss generalizing places with
  | nil =>
    obtain rfl := List.eq_nil_of_length_eq_zero h.symm
    exact ⟨fun _ => .nil, fun _ => rfl⟩
  | cons s ss ih =>
    obtain ⟨place, places, rfl⟩ := List.exists_cons_of_length_eq_add_one h.symm
    rw [List.zipWith_cons_cons, List.cons.injEq, copiedSnippet_eq_iff, List.forall₂_cons,
      ih (Nat.succ.inj h)]

/-- The text with a carriage return in front of every line feed. -/
def withReturns (source : String) : String :=
  String.ofList (crlf source.toList)

/-- The scan of the copy of a source without carriage returns. The copy cannot be read if a line feed in
quotes is read in the source. Otherwise its scan has the same snippets and rejections at the same places
in the same order, but with a carriage return in front of each line feed in the raw strings; so it is
the scan of the source if and only if the raw strings among the snippets are on one line each. -/
theorem ofSource_crlf {file source : String} {scan : Scan} (hreturns : '\r' ∉ source.toList)
    (h : ofSource file source = .ok scan) :
    (∃ place, Reads (dropOrderMark source.toList) place ∧ quotesLineFeed place = true) ∧
        ofSource file (withReturns source) = .error (.scan file Source.unreadable) ∨
      (∀ place, Reads (dropOrderMark source.toList) place → quotesLineFeed place = false) ∧
        ∃ places, List.Forall₂ (WrittenAt source.toList) scan.snippets places ∧
          ofSource file (withReturns source) =
            .ok ⟨List.zipWith copiedSnippet scan.snippets places, scan.rejected⟩ ∧
          (ofSource file (withReturns source) = .ok scan ↔
            List.Forall₂ (fun s place => isRaw place = true → '\n' ∉ s.text.toList)
              scan.snippets places) := by
  obtain ⟨trees, found, htrees, hfound⟩ := exists_of_ofSource h
  have htext : (withReturns source).toList = crlf source.toList := String.toList_ofList
  rcases Source.trees?_crlf hreturns htrees with ⟨hquotes, hcopy⟩ | ⟨hnone, trees', hcopy, htrees'⟩
  · refine Or.inl ⟨hquotes, ?_⟩
    unfold ofSource
    rw [htext, hcopy]
  · refine Or.inr ⟨hnone, ?_⟩
    obtain ⟨found', hfound', hcopied⟩ := invocations_copied (Or.inl htrees') hfound
    have hreached := reachable_copied (Source.sizes trees) hcopied
    have hplaced := (List.forall₂_and_left _ _).2
      ⟨fun v hv => suffix_of_mem_reachable htrees hfound hv, hreached⟩
    have hreadable : Source.trees? (withReturns source).toList = some trees' := htext ▸ hcopy
    have hscan := ofSource_eq file hreadable hfound'
    rw [ofSource_eq file htrees hfound] at h
    obtain rfl := Except.ok.inj h
    rw [htext, (Source.outlines_copied htrees').1] at hscan
    obtain ⟨places, hplaces, hsnippets⟩ := exists_places (List.rel_filterMap
      (fun _ _ hv => snippet?_copied hv.2 hv.1) hplaced)
    rw [hsnippets, rejections_copied hplaced] at hscan
    refine ⟨places, hplaces, hscan, ?_⟩
    rw [hscan, Except.ok.injEq, Scan.mk.injEq, and_iff_left rfl]
    exact zipWith_copiedSnippet_eq_iff hplaces.length_eq

/-- A snippet over two lines in each kind of string. -/
def twoLines : String :=
  "sol!(\"a\nb\"); sol!(r\"a\nb\");"

theorem ofSource_crlf_twoLines :
    ∃ scan, ofSource "a.rs" twoLines = .ok scan ∧
      ((∃ place, Reads (dropOrderMark twoLines.toList) place ∧ quotesLineFeed place = true) ∧
          ofSource "a.rs" (withReturns twoLines) = .error (.scan "a.rs" Source.unreadable) ∨
        (∀ place, Reads (dropOrderMark twoLines.toList) place → quotesLineFeed place = false) ∧
          ∃ places, List.Forall₂ (WrittenAt twoLines.toList) scan.snippets places ∧
            ofSource "a.rs" (withReturns twoLines) =
              .ok ⟨List.zipWith copiedSnippet scan.snippets places, scan.rejected⟩ ∧
            (ofSource "a.rs" (withReturns twoLines) = .ok scan ↔
              List.Forall₂ (fun s place => isRaw place = true → '\n' ∉ s.text.toList)
                scan.snippets places)) := by
  have h : ofSource "a.rs" twoLines = .ok
      ⟨[⟨"a\nb", ⟨"a.rs", 1, 1⟩⟩, ⟨"a\nb", ⟨"a.rs", 2, 6⟩⟩], []⟩ := by
    decide +kernel
  exact ⟨_, h, ofSource_crlf (by decide +kernel) h⟩

/-- The raw string has another text in the copy, and so another identity. -/
theorem copy_changes_raw_string :
    '\r' ∉ twoLines.toList ∧
      ofSource "a.rs" twoLines = .ok
        ⟨[⟨"a\nb", ⟨"a.rs", 1, 1⟩⟩, ⟨"a\nb", ⟨"a.rs", 2, 6⟩⟩], []⟩ ∧
      ofSource "a.rs" (withReturns twoLines) = .ok
        ⟨[⟨"a\nb", ⟨"a.rs", 1, 1⟩⟩, ⟨"a\r\nb", ⟨"a.rs", 2, 6⟩⟩], []⟩ := by
  decide +kernel

/-- A line feed in quotes is a character of the source, and the copy cannot be read. -/
example : (ofSource "a.rs" "const C: char = '\n';").toOption = some {} ∧
    ofSource "a.rs" (withReturns "const C: char = '\n';") =
      .error (.scan "a.rs" Source.unreadable) := by
  decide +kernel

end EmbeddedSolidity.Scan
