import EmbeddedSolidity.Compile
import EmbeddedSolidity.Proofs.Plan.Run
import EmbeddedSolidity.Scanner

/-!
# One scanner for many sources

A scanner is used for one source after the other, and some of them cannot be read or are no source
texts. Nothing of one source is found in the scan of another : whatever a scanner remembers, its
visits add to what it has noted just what the scan of the source holds (`Scanner.noted_visit`), and
it notes nothing before that (`Scanner.scanText_eq`). So each result is that of a scanner that has
seen no other source (`Scanner.results_scanAll`).
-/

namespace EmbeddedSolidity.Scanner

open FileSystem
open Grammar (Invocation)

variable {source : List Char}

/-! ## Visits -/

/-- An invocation is noted as a scan would take it, if it is searched so. -/
theorem noteOr_eq {search : Invocation → Scanner → Scanner}
    (inner : Invocation → List (Naming × Invocation))
    (hsearch : ∀ i s, search i s = (inner i).foldl (note source) s) (s : Scanner) (i : Invocation) :
    noteOr source search s i = (Scan.ownOr inner i).foldl (note source) s := by
  unfold noteOr Scan.ownOr
  cases Scan.naming? i.path with
  | some naming => rfl
  | none => exact hsearch i s

/-- The visits are those of a scan, in the same order. The induction is on the bound on the depth;
the scanner is any, because the visits of a body begin with what was noted before it. -/
theorem visit_eq (depth : Nat) (found : List Invocation) (s : Scanner) :
    visit source depth found s = (Scan.reachable depth found).foldl (note source) s := by
  induction depth generalizing found s with
  | zero =>
    unfold visit Scan.reachable
    rw [List.foldl_flatMap]
    congr 1
    funext s i
    exact noteOr_eq (fun _ => []) (fun _ _ => rfl) s i
  | succ depth ih =>
    unfold visit Scan.reachable
    rw [List.foldl_flatMap]
    congr 1
    funext s i
    exact noteOr_eq _ (fun i s => ih _ s) s i

/-- Noting leaves a scanner in its file, and adds to what it has noted. -/
theorem foldl_note (visited : List (Naming × Invocation)) (s : Scanner) :
    visited.foldl (note source) s =
      ⟨s.file, visited.foldl (Scan.add s.file source) s.noted⟩ := by
  induction visited generalizing s with
  | nil => rfl
  | cons v visited ih =>
    rw [List.foldl_cons, ih]
    rfl

/-- Visits leave a scanner in its file. -/
theorem noted_visit (depth : Nat) (found : List Invocation) (s : Scanner) :
    visit source depth found s =
      ⟨s.file, (Scan.reachable depth found).foldl (Scan.add s.file source) s.noted⟩ := by
  rw [visit_eq, foldl_note]

/-! ## Sources -/

/-- Whatever a scanner remembers, it gives the scan of the text; behind it, it is in the file of the
text and has noted nothing. -/
theorem scanText_eq (s : Scanner) (file source : String) :
    s.scanText file source = (Scan.ofSource file source, ⟨file, {}⟩) := by
  unfold scanText Scan.ofSource
  cases Source.trees? source.toList with
  | none => rfl
  | some trees =>
    dsimp only
    cases Grammar.invocations trees with
    | error message => rfl
    | ok found =>
      dsimp only
      rw [noted_visit]

/-- Whatever a scanner remembers, it gives the scan of the file. -/
theorem fst_scanFile (s : Scanner) (file : String) :
    Prod.fst <$> s.scanFile file = Scan.ofFile file := by
  unfold scanFile Scan.ofFile
  rw [map_bind]
  refine bind_congr fun text => ?_
  cases text with
  | ok source => rw [map_pure, scanText_eq]
  | error f => rw [map_pure]

/-- The scan of an input, without a scanner. -/
def Input.scanned : Input → Plan (Except Error Scan)
  | .text path source => return Scan.ofSource path source
  | .file path => Scan.ofFile path

/-- Whatever a scanner remembers, it gives the scan of the input. -/
theorem fst_scan (s : Scanner) (input : Input) : Prod.fst <$> s.scan input = input.scanned := by
  cases input with
  | text file source =>
    unfold scan Input.scanned
    rw [map_pure, scanText_eq]
  | file path => exact fst_scanFile s path

/-- The scan of an input, by a scanner that has seen no other. -/
def alone (input : Input) : Plan (Except Error Scan) :=
  Prod.fst <$> ({} : Scanner).scan input

theorem alone_eq_scanned (input : Input) : alone input = input.scanned :=
  fst_scan {} input

/-! ## Sources one after the other -/

/-- Scanning changes nothing. -/
theorem snd_run_alone (h : Host) (t : FileTree) (input : Input) :
    ((alone input).run h t).2 = t := by
  rw [alone_eq_scanned]
  cases input with
  | text file source => rfl
  | file path =>
    unfold Input.scanned Scan.ofFile
    rw [Plan.run_bind, Plan.run_readText]
    cases Plan.textAt h t path <;> rfl

/-- What a scanner remembers between its inputs has no part in the results: they are asked for and
given as if each input had a scanner of its own. -/
theorem fst_scanAll (s : Scanner) (inputs : List Input) :
    Prod.fst <$> s.scanAll inputs = inputs.mapM alone := by
  induction inputs generalizing s with
  | nil => rfl
  | cons input rest ih =>
    unfold scanAll
    rw [List.mapM_cons, alone_eq_scanned, ← fst_scan s, map_bind, bind_map_left]
    refine bind_congr fun scanned => ?_
    rw [← ih scanned.2, map_bind, bind_map_left]
    rfl

/-- Each on its own, in a tree that does not change. -/
theorem run_mapM_alone (h : Host) (t : FileTree) (inputs : List Input) :
    (inputs.mapM alone).run h t = (inputs.map fun input => ((alone input).run h t).1, t) := by
  induction inputs with
  | nil => rfl
  | cons input rest ih =>
    rw [List.mapM_cons, Plan.run_bind, snd_run_alone, Plan.run_bind, ih]
    rfl

/-- Scanner reuse leaks nothing. Whatever a scanner remembers, and whichever of its inputs cannot be
read or are no sources: it asks for the files that scanners of their own would ask for, and with the
same answers it gives their results. In particular each result on a file tree is that of a scanner
that has seen no other input. -/
theorem results_scanAll (s : Scanner) (inputs : List Input) :
    Prod.fst <$> s.scanAll inputs = inputs.mapM alone ∧
      ∀ (h : Host) (t : FileTree),
        ((s.scanAll inputs).run h t).1.1 = inputs.map fun input => ((alone input).run h t).1 := by
  refine ⟨fst_scanAll s inputs, fun h t => ?_⟩
  have hrun := congrArg (fun p => (p.run h t).1) (fst_scanAll s inputs)
  rwa [Plan.run_map, run_mapM_alone] at hrun

end EmbeddedSolidity.Scanner
