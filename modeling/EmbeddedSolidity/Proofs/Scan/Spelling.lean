import EmbeddedSolidity.Proofs.Scan.LineEnds
import EmbeddedSolidity.Proofs.Source.Spelling

/-!
# Scanning a spelled text

A text is written as a literal into an invocation of the macro, and the source around it is scanned.
Only the value of the literal reaches the scan : the tokens in front of it and behind it are the same
for all texts, and the grammar does not see what a literal holds. So the scan gives the text back, in
whichever way it is spelled.

* `trees?_around` : the tokens of the source;
* `invocations_around` : its one invocation;
* `ofSource_spelling` : the scan.
-/

namespace EmbeddedSolidity.Source

variable {n : Nat} {opened : List (Delimiter × List Tree)} {done : List Tree} {cs rest : List Char}

/-! ## Steps of the lexer -/

theorem treesFrom_gap (h : lexeme? cs = some (.gap, rest)) :
    treesFrom (n + 1) opened done cs = treesFrom n opened done rest := by
  cases cs with
  | nil => cases h
  | cons c cs => rw [treesFrom_cons, h]

theorem treesFrom_leaf {tree : Tree} (h : lexeme? cs = some (.leaf tree, rest)) :
    treesFrom (n + 1) opened done cs = treesFrom n opened (tree :: done) rest := by
  cases cs with
  | nil => cases h
  | cons c cs => rw [treesFrom_cons, h]

theorem treesFrom_opening {d : Delimiter} (h : lexeme? cs = some (.opening d, rest)) :
    treesFrom (n + 1) opened done cs = treesFrom n ((d, done) :: opened) [] rest := by
  cases cs with
  | nil => cases h
  | cons c cs => rw [treesFrom_cons, h]

theorem treesFrom_closing {d : Delimiter} {before : List Tree}
    (h : lexeme? cs = some (.closing d, rest)) :
    treesFrom (n + 1) ((d, before) :: opened) done cs =
      treesFrom n opened (.group d done.reverse :: before) rest := by
  cases cs with
  | nil => cases h
  | cons c cs =>
    rw [treesFrom_cons, h]
    exact if_pos rfl

end EmbeddedSolidity.Source

namespace EmbeddedSolidity.Scan

open Grammar (Outline Invocation Site Readers)
open Source (Tree Spelling lexeme? lexeme?_spelling treesFrom trees?)

variable {cs written : List Char}

/-! ## The source -/

/-- A function whose body is an invocation of the macro with a literal. -/
def around (written : List Char) : List Char :=
  "fn f() \x7b ".toList ++ ("sol!(".toList ++ (written ++ "); \x7d".toList))

section Words

variable (tail : List Char)

theorem lexeme?_fn : lexeme? ('f' :: 'n' :: ' ' :: tail) =
    some (.leaf (.word ('f' :: 'n' :: ' ' :: tail) "fn" false), ' ' :: tail) := by
  rfl

theorem lexeme?_f : lexeme? ('f' :: '(' :: tail) =
    some (.leaf (.word ('f' :: '(' :: tail) "f" false), '(' :: tail) := by
  rfl

theorem lexeme?_sol : lexeme? ('s' :: 'o' :: 'l' :: '!' :: tail) =
    some (.leaf (.word ('s' :: 'o' :: 'l' :: '!' :: tail) "sol" false), '!' :: tail) := by
  rfl

end Words

/-- No literal goes on the text of a failed expansion. -/
theorem lexeme?_opening_spelling (h : Spelling cs written) (tail : List Char) :
    lexeme? ('(' :: (written ++ tail)) = some (.opening .parenthesis, written ++ tail) := by
  cases h with
  | quoted => rfl
  | raw => rfl

/-- The tokens of the source. -/
def treesAround (cs written : List Char) : List Tree :=
  let place (n : Nat) := (around written).drop n
  [.word (place 0) "fn" false, .word (place 3) "f" false, .group .parenthesis [],
    .group .brace
      [.word (place 9) "sol" false, .mark (place 12) '!' false,
        .group .parenthesis [.literal (.string cs)], .mark "; \x7d".toList ';' false]]

theorem around_eq (written : List Char) : around written =
    'f' :: 'n' :: ' ' :: 'f' :: '(' :: ')' :: ' ' :: '\x7b' :: ' ' ::
      's' :: 'o' :: 'l' :: '!' :: '(' :: (written ++ [')', ';', ' ', '\x7d']) :=
  rfl

theorem trees?_around (h : Spelling cs written) :
    trees? (around written) = some (treesAround cs written) := by
  have hliteral : lexeme? (written ++ [')', ';', ' ', '\x7d']) =
      some (.leaf (.literal (.string cs)), [')', ';', ' ', '\x7d']) :=
    lexeme?_spelling h rfl
  have hlength : (around written).length = written.length + 18 := by
    simp [around_eq]
  change treesFrom (around written).length [] [] (around written) = _
  rw [hlength]
  unfold treesAround
  rw [around_eq]
  -- the tokens in front of the literal
  rw [Source.treesFrom_leaf (lexeme?_fn _), Source.treesFrom_gap rfl, Source.treesFrom_leaf (lexeme?_f _),
    Source.treesFrom_opening rfl, Source.treesFrom_closing rfl, Source.treesFrom_gap rfl,
    Source.treesFrom_opening rfl, Source.treesFrom_gap rfl, Source.treesFrom_leaf (lexeme?_sol _),
    Source.treesFrom_leaf rfl, Source.treesFrom_opening (lexeme?_opening_spelling h _)]
  -- the literal and the tokens behind it
  rw [Source.treesFrom_leaf hliteral, Source.treesFrom_closing rfl, Source.treesFrom_leaf rfl,
    Source.treesFrom_gap rfl, Source.treesFrom_closing rfl]
  rfl

/-! ## The scan -/

/-- What the grammar sees of the source. -/
def outlinesAround : List Outline :=
  [.word 0 "fn" false, .word 1 "f" false, .group 2 .parenthesis [],
    .group 3 .brace
      [.word 4 "sol" false, .mark 5 '!' false, .group 6 .parenthesis [.literal .string],
        .mark 8 ';' false]]

theorem sites_outlinesAround :
    ((Readers.ofOutlines outlinesAround).file.whole.map fun found => found.map (·.1)) =
      .ok [⟨some 4, ["sol"], .parenthesis, 6⟩] :=
  rfl

/-- The one invocation of the source. -/
def invocationAround (cs written : List Char) : Invocation where
  place := (around written).drop 9
  path := ["sol"]
  delimiter := .parenthesis
  body := [.literal (.string cs)]

theorem invocations_around (cs written : List Char) :
    Grammar.invocations (treesAround cs written) = .ok [invocationAround cs written] := by
  have houtlines : Grammar.outlines (treesAround cs written) = outlinesAround := rfl
  unfold Grammar.invocations
  rw [houtlines]
  have hsites := sites_outlinesAround
  cases hwhole : (Readers.ofOutlines outlinesAround).file.whole with
  | error message =>
    rw [hwhole] at hsites
    cases hsites
  | ok found =>
    rw [hwhole] at hsites
    have hfound : found.map (·.1) = [⟨some 4, ["sol"], .parenthesis, 6⟩] := Except.ok.inj hsites
    have hmap : found.map (fun s => s.1.invocation (treesAround cs written)) =
        (found.map (·.1)).map (Site.invocation (treesAround cs written)) := by
      rw [List.map_map]
      rfl
    rw [hfound] at hmap
    exact congrArg Except.ok hmap

/-- A text that is written as a literal of any spelling into an invocation of the macro is found again by
the scan, at the place of the invocation, and nothing else is found or rejected. Every text has a
spelling, and it may be one that has quotes, escapes and hashes. -/
theorem ofSource_spelling (file text : String) :
    (∀ written, Spelling text.toList written →
      ofSource file ("fn f() \x7b sol!(" ++ String.ofList written ++ "); \x7d") =
        .ok ⟨[⟨text, ⟨file, 1, 10⟩⟩], []⟩) ∧
    Spelling text.toList (Text.quoted text).toList := by
  refine ⟨fun written h => ?_, Source.spelling_quoted text⟩
  have hwritten : (String.ofList written).toList = written := String.toList_ofList
  have hsource : ("fn f() \x7b sol!(" ++ String.ofList written ++ "); \x7d").toList = around written := by
    rw [String.toList_append, String.toList_append, hwritten, List.append_assoc]
    rfl
  have hvisit : reachable (Source.sizes (treesAround text.toList written))
      [invocationAround text.toList written] = [(.bare, invocationAround text.toList written)] := rfl
  have hlocation : locationOf file (around written) (invocationAround text.toList written) =
      ⟨file, 1, 10⟩ :=
    locationOf_eq file "fn f() \x7b ".toList (invocationAround text.toList written)
  have hsnippet : snippet? file (around written) (invocationAround text.toList written) =
      some ⟨text, ⟨file, 1, 10⟩⟩ := by
    rw [snippet?_eq, hlocation]
    change some (FoundSnippet.mk (String.ofList text.toList) _) = _
    rw [String.ofList_toList]
  rw [ofSource_eq file (hsource ▸ trees?_around h) (invocations_around text.toList written), hvisit,
    hsource]
  simp only [List.filterMap_cons, hsnippet]
  rfl

/-- A quote, a hash and a backslash, raw between two hashes. -/
def rawMarks : List Char :=
  ['r', '#', '#', '"', '"', '#', '\\', '"', '#', '#']

/-- The same text with three kinds of escapes. -/
def quotedMarks : List Char :=
  ['"', '\\', '"', '\\', 'u', '\x7b', '2', '_', '3', '\x7d', '\\', 'x', '5', 'c', '"']

theorem spelling_rawMarks : Spelling ['"', '#', '\\'] rawMarks :=
  .raw (k := 2) (by decide) (by decide) (by decide)

theorem spelling_quotedMarks : Spelling ['"', '#', '\\'] quotedMarks := by
  have hquote : Source.Spelled '"' ['\\', '"'] := .short (e := ('"', '"')) (by decide)
  have hdigits : Source.Digits 2 ('#').toNat ['2', '_', '3'] :=
    .digit (d := ('3', 3)) (.line (.first (d := ('2', 2)) (by decide))) (by decide)
  have hbackslash : Source.Spelled '\\' ['\\', 'x', '5', 'c'] :=
    .ascii (h := ('5', 5)) (l := ('c', 12)) (by decide) (by decide) (by decide) (by decide)
  exact .quoted (.cons hquote (.cons (.codePoint hdigits (by decide)) (.cons hbackslash .nil)))

theorem ofSource_spelling_marks :
    ofSource "a.rs" ("fn f() \x7b sol!(" ++ String.ofList rawMarks ++ "); \x7d") =
        .ok ⟨[⟨"\"#\\", ⟨"a.rs", 1, 10⟩⟩], []⟩ ∧
      ofSource "a.rs" ("fn f() \x7b sol!(" ++ String.ofList quotedMarks ++ "); \x7d") =
        .ok ⟨[⟨"\"#\\", ⟨"a.rs", 1, 10⟩⟩], []⟩ :=
  ⟨(ofSource_spelling "a.rs" "\"#\\").1 rawMarks spelling_rawMarks,
    (ofSource_spelling "a.rs" "\"#\\").1 quotedMarks spelling_quotedMarks⟩

end EmbeddedSolidity.Scan
