import EmbeddedSolidity.Compile
import EmbeddedSolidity.Proofs.Plan.Frame

/-!
# A rule for compilations

A compilation scans its files, makes the workspace when it is first needed, compiles each snippet in it
and removes it in the end. In any logic of plans, what holds while there is no workspace and what
holds since it has been made follow for the whole from the few steps that it is made of.

* `Compile.progress`, `Compile.report_eq` : a compilation up to the end of its run;
* `Compile.Steps` : what has to be proved of the steps;
* `Compile.Steps.progress`, `Compile.Steps.finish` : the rule.
-/

namespace EmbeddedSolidity

namespace Run

/-- The run has this configuration, and what is known without and with its workspace. -/
def Kept {σ : Type} (c : Config) (Idle : σ → Prop) (Made : Except Error Workspace → σ → Prop)
    (r : Run) (s : σ) : Prop :=
  r.config = c ∧
    match r.made with
    | none => Idle s
    | some made => Made made s

/-- What is done at the end of a run whose workspace could not be made. -/
def abandon (c : Config) : Plan (Except Error Unit) := do
  let w : Workspace := ⟨c.root⟩
  if c.isDefaultRoot then w.destroy
  else if ← w.hasGeneratedManifest then w.destroy
  else return .ok ()

end Run

namespace Compile

/-- Collecting and compiling, before the workspace is removed. -/
def progress (c : Config) (paths : List String) : Plan Progress := do
  let collected ← collect paths
  files collected.files { run := .start c, report := { diagnostics := collected.diagnostics } }

/-- Removing the workspace, which may add to the report. -/
def close (p : Progress) : Plan Report := do
  match ← p.run.finish with
  | .ok () => return p.report
  | .error e => return p.report.addDiagnostic (.ofRun e)

theorem report_eq (c : Config) (paths : List String) :
    report c paths = progress c paths >>= close := by
  unfold report progress
  rw [bind_assoc]
  rfl

/-- What has to be known of the steps of a compilation. -/
structure Steps (L : Plan.Logic) (c : Config) (Idle : L.State → Prop)
    (Made : Except Error Workspace → L.State → Prop) (paths : List String) : Prop where
  scan : ∀ file ∈ paths, ∀ s, Idle s → L.Holds (Scan.ofFile file) s fun _ => Idle
  rescan : ∀ file ∈ paths, ∀ made s, Made made s → L.Holds (Scan.ofFile file) s fun _ => Made made
  create : ∀ s, Idle s → L.Holds (Workspace.create c) s Made
  compile : ∀ w text s, Made (.ok w) s →
    L.Holds (Run.compileIn c w text) s fun _ => Made (.ok w)

variable {L : Plan.Logic} {c : Config} {Idle : L.State → Prop}
  {Made : Except Error Workspace → L.State → Prop} {paths : List String} {s : L.State}

/-- The workspace is made if it has not been. -/
theorem Steps.workspace (hsteps : Steps L c Idle Made paths) {r : Run}
    (hkept : r.Kept c Idle Made s) :
    L.Holds r.workspace s fun out s' =>
      Made out.1 s' ∧ out.2.Kept c Idle Made s' ∧ out.2.made = some out.1 := by
  obtain ⟨rfl, hmade⟩ := hkept
  unfold Run.workspace
  cases hr : r.made with
  | some made =>
    rw [hr] at hmade
    refine L.holds_pure ⟨hmade, ⟨rfl, ?_⟩, hr⟩
    dsimp only
    rw [hr]
    exact hmade
  | none =>
    rw [hr] at hmade
    exact L.holds_bind (hsteps.create s hmade) fun made s' hs' => L.holds_pure ⟨hs', ⟨rfl, hs'⟩, rfl⟩

theorem Steps.compileText (hsteps : Steps L c Idle Made paths) {r : Run}
    (hkept : r.Kept c Idle Made s) (text : String) :
    L.Holds (r.compile text) s fun out => out.2.Kept c Idle Made := by
  unfold Run.compile
  cases Snippet.ofText text with
  | error e => exact L.holds_pure hkept
  | ok snippet =>
    refine L.holds_bind (hsteps.workspace hkept) ?_
    rintro ⟨made, r'⟩ s' ⟨hmade, hkept', heq⟩
    cases made with
    | error e => exact L.holds_pure hkept'
    | ok w =>
      dsimp only
      rw [hkept'.1]
      refine L.holds_bind (hsteps.compile w snippet s' hmade) fun result s'' hs'' => L.holds_pure ?_
      refine ⟨hkept'.1, ?_⟩
      dsimp only at heq ⊢
      rw [heq]
      exact hs''

/-- The induction is on the snippets; what is known of the run is the invariant. -/
theorem Steps.snippets (hsteps : Steps L c Idle Made paths) (found : List FoundSnippet) :
    ∀ {s : L.State} {p : Progress}, p.run.Kept c Idle Made s →
      L.Holds (snippets found p) s fun p' => p'.run.Kept c Idle Made := by
  induction found with
  | nil => exact fun hkept => L.holds_pure hkept
  | cons first rest ih =>
    intro s p hkept
    unfold Compile.snippets
    refine L.holds_bind (hsteps.compileText hkept first.text) ?_
    rintro ⟨result, run⟩ s' hs'
    cases result with
    | ok compiled => exact ih hs'
    | error e =>
      dsimp only
      split
      · exact L.holds_pure hs'
      · exact ih hs'

/-- The induction is on the files. -/
theorem Steps.files (hsteps : Steps L c Idle Made paths) :
    ∀ (fs : List String), (∀ file ∈ fs, file ∈ paths) → ∀ {s : L.State} {p : Progress},
      p.run.Kept c Idle Made s →
        L.Holds (files fs p) s fun p' => p'.run.Kept c Idle Made := by
  intro fs
  induction fs with
  | nil => exact fun _ _ _ hkept => L.holds_pure hkept
  | cons file rest ih =>
    intro hfiles s p hkept
    rw [List.forall_mem_cons] at hfiles
    have hscan : L.Holds (Scan.ofFile file) s fun _ => p.run.Kept c Idle Made := by
      obtain ⟨hconfig, hmade⟩ := hkept
      unfold Run.Kept
      cases hr : p.run.made with
      | none =>
        rw [hr] at hmade
        exact L.mono (hsteps.scan file hfiles.1 s hmade) fun _ s' hs' => ⟨hconfig, hs'⟩
      | some made =>
        rw [hr] at hmade
        exact L.mono (hsteps.rescan file hfiles.1 made s hmade) fun _ s' hs' => ⟨hconfig, hs'⟩
    unfold Compile.files
    refine L.holds_bind hscan fun r s' hs' => ?_
    cases r with
    | error e => exact ih hfiles.2 hs'
    | ok scan =>
      dsimp only
      refine L.holds_bind (hsteps.snippets scan.snippets hs') fun p' s'' hs'' => ?_
      split
      · exact L.holds_pure hs''
      · exact ih hfiles.2 hs''

/-- A compilation before its end. -/
theorem Steps.progress {found : Collect.Collected} (hsteps : Steps L c Idle Made found.files)
    (hcollect : L.Holds (collect paths) s fun found' s' => found' = found ∧ Idle s') :
    L.Holds (progress c paths) s fun p => p.run.Kept c Idle Made := by
  refine L.holds_bind hcollect ?_
  rintro _ s' ⟨rfl, hidle⟩
  exact hsteps.files _ (fun _ hfile => hfile) ⟨rfl, hidle⟩

/-- The end of a run. -/
theorem Steps.finish (hsteps : Steps L c Idle Made paths) {Q : Except Error Unit → L.State → Prop}
    (hdestroy : ∀ w s, Made (.ok w) s → L.Holds w.destroy s Q)
    (habandon : ∀ e s, Made (.error e) s → L.Holds (Run.abandon c) s Q) {r : Run}
    (hkept : r.Kept c Idle Made s) : L.Holds r.finish s Q := by
  obtain rfl := hkept.1
  refine L.holds_bind (hsteps.workspace hkept) ?_
  rintro ⟨made, r'⟩ s' ⟨hmade, -, -⟩
  cases made with
  | ok w => exact hdestroy w s' hmade
  | error e => exact habandon e s' hmade

end Compile

end EmbeddedSolidity
