import EmbeddedSolidity.Proofs.Compile.Account

/-!
# Blank snippets

A blank snippet is refused before anything is done for it. So blank snippets leave no trace, wherever
they are put among the snippets of the files, and however these were found: each call is made in
the same tree and has the same answer as without them, and the report tells of each, up to the place
where the run was cut short, and is the same otherwise.

* `Compile.Abreast` : the attempts without and with blank snippets, side by side;
* `Compile.Account.Recounts.exists_padded` : an account with blank snippets more;
* `Compile.blank_snippets_leave_no_trace` : the two compilations.
-/

namespace EmbeddedSolidity

open FileSystem

/-! ## Entries put in -/

/-- The second list is the first one with entries put in, at any places, that satisfy the predicate. -/
inductive Interspersed {α : Type} (P : α → Prop) : List α → List α → Prop where
  | nil : Interspersed P [] []
  | keep {xs ys : List α} (x : α) : Interspersed P xs ys → Interspersed P (x :: xs) (x :: ys)
  | insert {xs ys : List α} {y : α} : P y → Interspersed P xs ys → Interspersed P xs (y :: ys)

namespace Interspersed

variable {α β : Type} {P : α → Prop} {xs xs' ys ys' : List α}

theorem refl (P : α → Prop) (xs : List α) : Interspersed P xs xs := by
  induction xs with
  | nil => exact .nil
  | cons x xs ih => exact ih.keep x

theorem append (hxs : Interspersed P xs ys) (hxs' : Interspersed P xs' ys') :
    Interspersed P (xs ++ xs') (ys ++ ys') := by
  induction hxs with
  | nil => exact hxs'
  | keep x _ ih => exact ih.keep x
  | insert hy _ ih => exact ih.insert hy

theorem flatMap {R : β → β → Prop} {f : β → List α} {vs ws : List β}
    (hf : ∀ v w, R v w → Interspersed P (f v) (f w)) (hvs : List.Forall₂ R vs ws) :
    Interspersed P (vs.flatMap f) (ws.flatMap f) := by
  induction hvs with
  | nil => exact .nil
  | cons hv _ ih => exact (hf _ _ hv).append ih

end Interspersed

theorem flatMap_eq_of_forall₂ {α β : Type} {R : β → β → Prop} {f : β → List α} {vs ws : List β}
    (hf : ∀ v w, R v w → f w = f v) (hvs : List.Forall₂ R vs ws) : ws.flatMap f = vs.flatMap f := by
  induction hvs with
  | nil => rfl
  | cons hv _ ih => rw [List.flatMap_cons, List.flatMap_cons, hf _ _ hv, ih]

namespace Compile

variable {c : Config} {made last : Option (Except Error Workspace)} {aborted : Bool}
  {found found' : List FoundSnippet} {xs ys : List Attempt}

/-! ## Attempts -/

/-- There is nothing to compile in the snippet. -/
def Blank (s : FoundSnippet) : Prop :=
  Text.isBlank s.text = true

/-- The failure is that of a blank snippet, at its place. -/
def OfBlank (d : Diagnostic) : Prop :=
  ∃ s, Blank s ∧ d = .located s.location (Snippet.blankError s.text)

/-- The attempts at snippets, and those at these with blank snippets more. Each blank snippet is
attempted at its place, unless that is behind the fatal failure that cuts both runs short. -/
inductive Abreast : List FoundSnippet → List FoundSnippet → List Attempt → List Attempt → Bool →
    Prop where
  | nil : Abreast [] [] [] [] false
  | fatal {x : Attempt} {rest rest' : List FoundSnippet} : x.Fatal → Interspersed Blank rest rest' →
    Abreast (x.found :: rest) (x.found :: rest') [x] [x] true
  | next {x : Attempt} {found found' : List FoundSnippet} {xs ys : List Attempt} {aborted : Bool} :
    ¬ x.Fatal → Abreast found found' xs ys aborted →
    Abreast (x.found :: found) (x.found :: found') (x :: xs) (x :: ys) aborted
  | blank {s : FoundSnippet} {found found' : List FoundSnippet} {xs ys : List Attempt}
    {aborted : Bool} : Blank s → Abreast found found' xs ys aborted →
    Abreast found (s :: found') xs (.ofBlank s :: ys) aborted

/-- What was tried without blank snippets can be tried with them. -/
theorem Tried.exists_abreast (htried : Tried found xs aborted)
    (hfound : Interspersed Blank found found') : ∃ ys, Abreast found found' xs ys aborted := by
  induction hfound generalizing xs with
  | nil =>
    cases htried
    exact ⟨[], .nil⟩
  | keep s hrest ih =>
    cases htried with
    | fatal _ hfatal => exact ⟨_, .fatal hfatal hrest⟩
    | next hx htried =>
      obtain ⟨ys, hys⟩ := ih htried
      exact ⟨_, .next hx hys⟩
  | insert hblank _ ih =>
    obtain ⟨ys, hys⟩ := ih htried
    exact ⟨_, .blank hblank hys⟩

namespace Abreast

theorem tried (h : Abreast found found' xs ys aborted) : Tried found' ys aborted := by
  induction h with
  | nil => exact .nil
  | fatal hfatal _ => exact .fatal _ hfatal
  | next hx _ ih => exact .next hx ih
  | blank _ _ ih => exact .next (x := .ofBlank _) (Attempt.not_fatal_ofBlank _) ih

/-- A blank snippet leaves the workspace as it is, made or not. -/
theorem served (h : Abreast found found' xs ys aborted) (hserved : Served c made xs last) :
    Served c made ys last := by
  induction h generalizing made with
  | nil | fatal => exact hserved
  | next _ _ ih =>
    cases hserved with
    | cons htook hserved => exact .cons htook (ih hserved)
  | blank hblank _ ih => exact .cons (.blank made hblank) (ih hserved)

theorem log_eq (h : Abreast found found' xs ys aborted) :
    ys.flatMap Attempt.log = xs.flatMap Attempt.log := by
  induction h with
  | nil | fatal => rfl
  | next _ _ ih => rw [List.flatMap_cons, List.flatMap_cons, ih]
  | blank _ _ ih => exact ih

theorem artifacts_eq (h : Abreast found found' xs ys aborted) :
    ys.flatMap Attempt.artifacts = xs.flatMap Attempt.artifacts := by
  induction h with
  | nil | fatal => rfl
  | next _ _ ih => rw [List.flatMap_cons, List.flatMap_cons, ih]
  | blank _ _ ih => exact ih

theorem diagnostics (h : Abreast found found' xs ys aborted) :
    Interspersed OfBlank (xs.flatMap Attempt.diagnostics) (ys.flatMap Attempt.diagnostics) := by
  induction h with
  | nil => exact .nil
  | fatal => exact .refl _ _
  | next _ _ ih =>
    rw [List.flatMap_cons, List.flatMap_cons]
    exact (Interspersed.refl _ _).append ih
  | blank hblank _ ih => exact ih.insert ⟨_, hblank, rfl⟩

end Abreast

/-! ## Visits -/

variable {scan : String → Plan (Except Error Scan)}
  {pad : String → List FoundSnippet → List FoundSnippet} {vs ws : List Visit} {v w : Visit}

/-- The scan of a file with more snippets. -/
def padded (pad : String → List FoundSnippet → List FoundSnippet) (file : String)
    (r : Except Error Scan) : Except Error Scan :=
  r.map fun found => { found with snippets := pad file found.snippets }

/-- A scanner that finds more snippets. -/
def padding (pad : String → List FoundSnippet → List FoundSnippet)
    (scan : String → Plan (Except Error Scan)) (file : String) : Plan (Except Error Scan) := do
  return padded pad file (← scan file)

namespace Visit

/-- The snippets that were found in the file. -/
def snippets (v : Visit) : List FoundSnippet :=
  match v.scan with
  | .ok found => found.snippets
  | .error _ => []

/-- The second visit is that to the same file with more snippets. -/
structure Beside (pad : String → List FoundSnippet → List FoundSnippet) (v w : Visit) : Prop where
  file : w.file = v.file
  reading : w.reading = v.reading
  scan : w.scan = padded pad v.file v.scan
  attempts : ∃ aborted, Abreast v.snippets w.snippets v.attempts w.attempts aborted

namespace Beside

theorem log_eq (h : Beside pad v w) : w.log = v.log := by
  obtain ⟨_, hattempts⟩ := h.attempts
  unfold log
  rw [h.reading, hattempts.log_eq]

theorem artifacts_eq (h : Beside pad v w) : w.artifacts = v.artifacts :=
  let ⟨_, hattempts⟩ := h.attempts
  hattempts.artifacts_eq

theorem rejected_eq (h : Beside pad v w) : w.rejected = v.rejected := by
  unfold rejected
  rw [h.scan]
  cases v.scan <;> rfl

theorem diagnostics (h : Beside pad v w) :
    Interspersed OfBlank v.diagnostics w.diagnostics := by
  obtain ⟨_, hattempts⟩ := h.attempts
  unfold Visit.diagnostics
  rw [h.rejected_eq]
  exact (Interspersed.refl _ _).append hattempts.diagnostics

/-- The file is scanned with the other scanner. -/
theorem ends (h : Beside pad v w) (hscan : Plan.Ends (scan v.file) v.reading v.scan) :
    Plan.Ends (padding pad scan w.file) w.reading w.scan := by
  rw [h.file, h.reading, h.scan]
  exact hscan.map (padded pad v.file)

end Beside

/-- The visit with more snippets, and attempts at them. -/
theorem beside_of_abreast {found : Scan} (hscan : v.scan = .ok found)
    (hys : Abreast found.snippets (pad v.file found.snippets) v.attempts ys aborted) :
    Beside pad v ⟨v.file, padded pad v.file v.scan, v.reading, ys⟩ := by
  refine ⟨rfl, rfl, rfl, aborted, ?_⟩
  unfold snippets
  rw [hscan]
  exact hys

/-- A visit to a file that could not be scanned. -/
theorem beside_of_error {e : Error} (hscan : v.scan = .error e) (hattempts : v.attempts = []) :
    Beside pad v v := by
  refine ⟨rfl, rfl, ?_, false, ?_⟩
  · rw [hscan]
    rfl
  · unfold snippets
    rw [hscan, hattempts]
    exact .nil

end Visit

/-- Files that were visited without blank snippets can be visited with them. -/
theorem Walked.exists_beside {files : List String} (hwalked : Walked files vs aborted)
    (hpad : ∀ file found, Interspersed Blank found (pad file found)) :
    ∃ ws, List.Forall₂ (Visit.Beside pad) vs ws ∧ Walked files ws aborted := by
  induction hwalked with
  | nil => exact ⟨[], .nil, .nil⟩
  | @unscanned v _ _ _ _ hscan hattempts _ ih =>
    obtain ⟨ws, hbeside, hwalked⟩ := ih
    exact ⟨v :: ws, .cons (Visit.beside_of_error hscan hattempts) hbeside,
      .unscanned hscan hattempts hwalked⟩
  | @fatal v found rest hscan htried =>
    obtain ⟨ys, hys⟩ := htried.exists_abreast (hpad v.file found.snippets)
    let w : Visit := ⟨v.file, padded pad v.file v.scan, v.reading, ys⟩
    have hw : w.scan = .ok { found with snippets := pad v.file found.snippets } :=
      congrArg (padded pad v.file) hscan
    exact ⟨[w], .cons (Visit.beside_of_abreast hscan hys) .nil, .fatal rest hw hys.tried⟩
  | @next v found _ _ _ hscan htried _ ih =>
    obtain ⟨ws, hbeside, hwalked⟩ := ih
    obtain ⟨ys, hys⟩ := htried.exists_abreast (hpad v.file found.snippets)
    let w : Visit := ⟨v.file, padded pad v.file v.scan, v.reading, ys⟩
    have hw : w.scan = .ok { found with snippets := pad v.file found.snippets } :=
      congrArg (padded pad v.file) hscan
    exact ⟨w :: ws, .cons (Visit.beside_of_abreast hscan hys) hbeside, .next hw hys.tried hwalked⟩

/-- Blank snippets do not change what becomes of the workspace. -/
theorem Served.beside (hserved : Served c made (vs.flatMap Visit.attempts) last)
    (hbeside : List.Forall₂ (Visit.Beside pad) vs ws) :
    Served c made (ws.flatMap Visit.attempts) last := by
  induction hbeside generalizing made with
  | nil => exact hserved
  | cons hvisit _ ih =>
    rw [List.flatMap_cons] at hserved ⊢
    obtain ⟨mid, hfirst, hrest⟩ := hserved.of_append
    obtain ⟨_, hattempts⟩ := hvisit.attempts
    exact (hattempts.served hfirst).append (ih hrest)

theorem scans_of_beside (hbeside : List.Forall₂ (Visit.Beside pad) vs ws)
    (hscans : ∀ v ∈ vs, Plan.Ends (scan v.file) v.reading v.scan) :
    ∀ w ∈ ws, Plan.Ends (padding pad scan w.file) w.reading w.scan := by
  induction hbeside with
  | nil => exact List.forall_mem_nil _
  | cons hvisit _ ih =>
    rw [List.forall_mem_cons] at hscans ⊢
    exact ⟨hvisit.ends hscans.1, ih hscans.2⟩

/-! ## Compilations -/

variable {a b : Account} {paths : List String}

/-- The second account is that of a compilation with more snippets. -/
structure Account.Padded (pad : String → List FoundSnippet → List FoundSnippet) (a b : Account) :
    Prop where
  visits : List.Forall₂ (Visit.Beside pad) a.visits b.visits
  rest : b = { a with visits := b.visits }

namespace Account.Padded

theorem log_eq (h : a.Padded pad b) : b.log = a.log := by
  rw [h.rest]
  unfold log
  rw [flatMap_eq_of_forall₂ (fun _ _ hvisit => hvisit.log_eq) h.visits]

theorem artifacts_eq (h : a.Padded pad b) : b.report.artifacts = a.report.artifacts := by
  rw [h.rest]
  exact flatMap_eq_of_forall₂ (fun _ _ hvisit => hvisit.artifacts_eq) h.visits

theorem diagnostics (h : a.Padded pad b) :
    Interspersed OfBlank a.report.diagnostics b.report.diagnostics := by
  rw [h.rest]
  have hvisits := Interspersed.flatMap (fun _ _ hvisit => hvisit.diagnostics) h.visits
  exact ((Interspersed.refl _ _).append hvisits).append (.refl _ _)

end Account.Padded

/-- An account of a compilation gives one of the compilation with blank snippets more. -/
theorem Account.Recounts.exists_padded (ha : a.Recounts scan c paths)
    (hpad : ∀ file found, Interspersed Blank found (pad file found)) :
    ∃ b, a.Padded pad b ∧ b.Recounts (padding pad scan) c paths := by
  obtain ⟨ws, hbeside, hwalked⟩ := ha.walked.exists_beside hpad
  exact ⟨{ a with visits := ws }, ⟨hbeside, rfl⟩, ha.collects, hwalked,
    scans_of_beside hbeside ha.scans, ha.served.beside hbeside, ha.finishes⟩

/-- With the same calls, so answered, the compilation with blank snippets more ends. -/
theorem exists_padded_of_ends (hpad : ∀ file found, Interspersed Blank found (pad file found))
    {log : List Exchange} {r : Report} (he : Plan.Ends (reportBy scan c paths) log r) :
    ∃ a b : Account, r = a.report ∧ log = a.log ∧ a.Recounts scan c paths ∧
      Plan.Ends (reportBy (padding pad scan) c paths) log b.report ∧
        b.Recounts (padding pad scan) c paths ∧ a.Padded pad b := by
  obtain ⟨a, rfl, rfl, ha⟩ := ends_reportBy_iff.1 he
  obtain ⟨b, hpadded, hb⟩ := ha.exists_padded hpad
  exact ⟨a, b, rfl, rfl, ha, ends_reportBy_iff.2 ⟨b, rfl, hpadded.log_eq.symm, hb⟩, hb, hpadded⟩

/-- Blank snippets have no effect but their diagnostics. Whatever scanner finds the snippets and
wherever blank ones are put among them: on every host each call is made in the same tree and answered
in the same way, and whatever the machine answers, the report has the same artifacts, and of the blank
snippets each one up to the fatal failure has one diagnostic more, at its place. -/
theorem blank_snippets_leave_no_trace (scan : String → Plan (Except Error Scan))
    (hpad : ∀ file found, Interspersed Blank found (pad file found)) (c : Config)
    (paths : List String) :
    (∀ (h : Host) (t : FileTree),
      (reportBy (padding pad scan) c paths).steps h t = (reportBy scan c paths).steps h t ∧
        ((reportBy (padding pad scan) c paths).run h t).2 = ((reportBy scan c paths).run h t).2) ∧
      ∀ log r, Plan.Ends (reportBy scan c paths) log r → ∃ a b : Account,
        r = a.report ∧ log = a.log ∧ a.Recounts scan c paths ∧
          Plan.Ends (reportBy (padding pad scan) c paths) log b.report ∧
            b.Recounts (padding pad scan) c paths ∧ a.Padded pad b ∧
              b.report.artifacts = r.artifacts ∧
                Interspersed OfBlank r.diagnostics b.report.diagnostics := by
  refine ⟨fun h t => ?_, fun log r he => ?_⟩
  · obtain ⟨_, b, -, -, -, hends, -⟩ :=
      exists_padded_of_ends hpad (Plan.ends_log h (reportBy scan c paths) t)
    obtain ⟨hsteps, hrun⟩ := hends.run_eq
    exact ⟨hsteps, by rw [hrun]⟩
  · obtain ⟨a, b, rfl, rfl, ha, hends, hb, hpadded⟩ := exists_padded_of_ends hpad he
    exact ⟨a, b, rfl, rfl, ha, hends, hb, hpadded, hpadded.artifacts_eq, hpadded.diagnostics⟩

/-- One blank snippet before those of each file and one behind them. -/
def surrounded (file : String) (found : List FoundSnippet) : List FoundSnippet :=
  ⟨" \n", ⟨file, 7, 0⟩⟩ :: (found ++ [⟨"", ⟨file, 9, 0⟩⟩])

theorem interspersed_surrounded (file : String) (found : List FoundSnippet) :
    Interspersed Blank found (surrounded file found) := by
  have hblank : ∀ location, Blank ⟨"", location⟩ ∧ Blank ⟨" \n", location⟩ :=
    fun _ => show Text.isBlank "" = true ∧ Text.isBlank " \n" = true by decide
  have hbehind : Interspersed Blank [] [⟨"", ⟨file, 9, 0⟩⟩] := .insert (hblank _).1 .nil
  have happend := (Interspersed.refl Blank found).append hbehind
  rw [List.append_nil] at happend
  exact .insert (hblank _).2 happend

theorem blank_snippets_leave_no_trace_surrounded :
    (∀ file found, Interspersed Blank found (surrounded file found)) ∧
      ∃ a b : Account, a.Padded surrounded b ∧
        ((report (Run.rooted "w") ["a.rs"]).run Workspace.bare blankAndText).1 = a.report ∧
        ((reportBy (padding surrounded Scan.ofFile) (Run.rooted "w") ["a.rs"]).run Workspace.bare
          blankAndText).1 = b.report ∧
        Interspersed OfBlank a.report.diagnostics b.report.diagnostics ∧
        b.report.diagnostics.map (fun d => d.location.map fun l => (l.line, l.column)) =
          [some (7, 0), some (1, 1), some (1, 10), some (9, 0)] := by
  obtain ⟨-, hends⟩ := blank_snippets_leave_no_trace Scan.ofFile
    interspersed_surrounded (Run.rooted "w") ["a.rs"]
  obtain ⟨a, b, hreport, -, -, hb, -, hpadded, -, hdiagnostics⟩ :=
    hends _ _ (Plan.ends_log Workspace.bare _ blankAndText)
  have hrun := congrArg Prod.fst hb.run_eq.2
  have hplaces : ((reportBy (padding surrounded Scan.ofFile) (Run.rooted "w") ["a.rs"]).run
      Workspace.bare blankAndText).1.diagnostics.map
        (fun d => d.location.map fun l => (l.line, l.column)) =
      [some (7, 0), some (1, 1), some (1, 10), some (9, 0)] := by
    decide +kernel
  rw [hrun] at hplaces
  rw [hreport] at hdiagnostics
  rw [← report_eq_reportBy] at hreport
  exact ⟨interspersed_surrounded, a, b, hpadded, hreport, hrun, hdiagnostics, hplaces⟩

end Compile

end EmbeddedSolidity
