import EmbeddedSolidity.Proofs.Workspace.Failure
import EmbeddedSolidity.Run

/-!
# What compiling a text gives

Whatever the machine answers, an error that ends a run is one of the workspace, and an artifact has
the name of its text. The first text that is not blank makes the workspace; if that fails, its error
is that of the text, and later texts are compiled in the workspace that was made.

* `Run.gives_compileIn` : the results of a step;
* `Run.took_of_ends` : the calls of a step;
* `Run.Served` : the calls of steps that share one workspace.
-/

namespace EmbeddedSolidity

open FileSystem

/-- An error, if it is one, is one of the workspace if it ends the run. -/
def FatalOfWorkspace {α : Type} (r : Except Error α) : Prop :=
  ∀ e, r = .error e → e.isFatal = true → e.OfWorkspace

theorem Snippet.text_of_ofText {text : String} {s : Snippet} (hs : ofText text = .ok s) :
    s.text = text ∧ Text.isBlank text = false := by
  unfold ofText at hs
  split at hs
  · cases hs
  · next hblank =>
    cases hs
    exact ⟨rfl, by simpa using hblank⟩

theorem Snippet.error_of_ofText {text : String} {e : Error} (he : ofText text = .error e) :
    e = blankError text ∧ Text.isBlank text = true := by
  unfold ofText at he
  split at he
  · next hblank =>
    cases he
    exact ⟨rfl, hblank⟩
  · cases he

/-! ## Results -/

namespace Workspace

theorem gives_stage (w : Workspace) (s : Snippet) :
    (w.stage s).Gives FatalOfWorkspace := by
  refine Plan.always_bind (Plan.gives_any _) fun written _ => Plan.always_pure fun e he _ => ?_
  cases written with
  | ok a => cases he
  | error f => exact ⟨w.sourcePath s.id, f.text, (Except.error.inj he).symm⟩

/-- No failure of a compiler ends the run. -/
theorem gives_runCompiler (w : Workspace) (c : Config) (id : Snippet.Id) :
    (w.runCompiler c id).Gives FatalOfWorkspace := by
  have hbuild : ∀ fault output, FatalOfWorkspace (.error (.build id fault output) : Except Error Unit) :=
    fun _ _ e he hfatal => by
      cases he
      cases hfatal
  refine Plan.always_bind (Plan.gives_any _) fun program _ => ?_
  cases program with
  | none => exact Plan.always_pure (hbuild _ _)
  | some program =>
    refine Plan.always_bind (Plan.gives_any _) fun outcome _ => ?_
    cases outcome with
    | error f => exact Plan.always_pure (hbuild _ _)
    | ok outcome =>
      dsimp only
      split
      · exact Plan.always_pure (hbuild _ _)
      · exact Plan.always_pure nofun

/-- An artifact is parsed from a text; no failure to do so ends the run. -/
theorem gives_readArtifact (w : Workspace) (id : Snippet.Id) :
    (w.readArtifact id).Gives fun r => FatalOfWorkspace r ∧
      ∀ a, r = .ok a → ∃ text, Artifact.parse id (w.artifactPath id) text = .ok a := by
  have hartifact : ∀ path message,
      FatalOfWorkspace (.error (.artifact id path message) : Except Error Artifact) :=
    fun _ _ e he hfatal => by
      cases he
      cases hfatal
  refine Plan.always_bind (Plan.gives_any _) fun text _ => ?_
  split
  · next text =>
    refine Plan.always_pure ⟨?_, fun a ha => ⟨text, ha⟩⟩
    unfold Artifact.parse
    split
    · exact hartifact _ _
    · split
      · exact hartifact _ _
      · exact nofun
  · exact Plan.always_pure ⟨hartifact _ _, nofun⟩
  · exact Plan.always_pure ⟨hartifact _ _, nofun⟩

end Workspace

namespace Run

variable {c : Config}

/-- A snippet that is compiled has its own name and an artifact that was parsed; an error that ends
the run is one of the workspace. -/
theorem gives_compileIn (c : Config) (w : Workspace) (s : Snippet) :
    (compileIn c w s).Gives fun r => FatalOfWorkspace r ∧ ∀ compiled, r = .ok compiled →
      compiled.id = s.id ∧
        ∃ text, Artifact.parse s.id (w.artifactPath s.id) text = .ok compiled.artifact := by
  have hforward : ∀ {α : Type} (e : Error), FatalOfWorkspace (.error e : Except Error α) →
      FatalOfWorkspace (.error e : Except Error Compiled) ∧ ∀ compiled,
        (.error e : Except Error Compiled) = .ok compiled → compiled.id = s.id ∧
          ∃ text, Artifact.parse s.id (w.artifactPath s.id) text = .ok compiled.artifact :=
    fun e he => ⟨fun e' heq => he e' (congrArg Except.error (Except.error.inj heq)), nofun⟩
  have hbuild : (w.buildSnippet c s).Gives FatalOfWorkspace :=
    Plan.always_andThen (w.gives_stage s)
      (fun e he e' heq => he e' (congrArg Except.error (Except.error.inj heq)))
      fun _ _ => w.gives_runCompiler c s.id
  refine Plan.always_andThen hbuild (fun e he => hforward e he) fun _ _ => ?_
  refine Plan.always_andThen (w.gives_readArtifact s.id) (fun e he => hforward e he.1)
    fun artifact hread => Plan.always_pure ⟨nofun, fun compiled hcompiled => ?_⟩
  cases hcompiled
  exact ⟨rfl, hread.2 artifact rfl⟩

/-! ## Steps of a run -/

/-- One text of a run, from what had become of the workspace before to what has become of it after :
the calls for the text, and its result. -/
inductive Took (c : Config) (text : String) : Option (Except Error Workspace) → List Exchange →
    Except Error Compiled → Option (Except Error Workspace) → Prop where
  | blank (made : Option (Except Error Workspace)) : Text.isBlank text = true →
    Took c text made [] (.error (Snippet.blankError text)) made
  | failed {log : List Exchange} {e : Error} : Text.isBlank text = false →
    Plan.Ends (Workspace.create c) log (.error e) →
    Took c text none log (.error e) (some (.error e))
  | first {making building : List Exchange} {w : Workspace} {s : Snippet}
    {result : Except Error Compiled} : Snippet.ofText text = .ok s →
    Plan.Ends (Workspace.create c) making (.ok w) → Plan.Ends (compileIn c w s) building result →
    Took c text none (making ++ building) result (some (.ok w))
  | later {log : List Exchange} {w : Workspace} {s : Snippet} {result : Except Error Compiled} :
    Snippet.ofText text = .ok s → Plan.Ends (compileIn c w s) log result →
    Took c text (some (.ok w)) log result (some (.ok w))

variable {text : String} {log : List Exchange} {result : Except Error Compiled} {r r' : Run}
  {made made' : Option (Except Error Workspace)}

/-- The workspace is not known to be impossible. -/
def Live (made : Option (Except Error Workspace)) : Prop :=
  ∀ e, made ≠ some (.error e)

/-- The workspace is made where it is first needed. -/
theorem ends_workspace {m : Except Error Workspace} (he : Plan.Ends r.workspace log (m, r')) :
    r'.config = r.config ∧ r'.made = some m ∧
      (r.made = none ∧ Plan.Ends (Workspace.create r.config) log m ∨ r.made = some m ∧ log = []) := by
  unfold workspace at he
  cases hmade : r.made with
  | none =>
    rw [hmade] at he
    obtain ⟨making, m', rest, rfl, hcreate, hpure⟩ := he.of_bind
    obtain ⟨rfl, hr⟩ := hpure.of_pure
    cases hr
    rw [List.append_nil]
    exact ⟨rfl, rfl, Or.inl ⟨rfl, hcreate⟩⟩
  | some m' =>
    rw [hmade] at he
    obtain ⟨rfl, hr⟩ := he.of_pure
    cases hr
    exact ⟨rfl, hmade, Or.inr ⟨rfl, rfl⟩⟩

/-- What compiling a text does. -/
theorem took_of_ends (hlive : Live r.made) (he : Plan.Ends (r.compile text) log (result, r')) :
    r'.config = r.config ∧ Took r.config text r.made log result r'.made := by
  unfold compile at he
  cases hs : Snippet.ofText text with
  | error e =>
    rw [hs] at he
    obtain ⟨rfl, hr⟩ := he.of_pure
    cases hr
    obtain ⟨rfl, hblank⟩ := Snippet.error_of_ofText hs
    exact ⟨rfl, .blank _ hblank⟩
  | ok s =>
    rw [hs] at he
    obtain ⟨making, ⟨m, r₁⟩, building, rfl, hworkspace, hbuilding⟩ := he.of_bind
    obtain ⟨hconfig, hmade₁, hmaking⟩ := ends_workspace hworkspace
    cases m with
    | error e =>
      obtain ⟨rfl, hr⟩ := hbuilding.of_pure
      cases hr
      rcases hmaking with ⟨hmade, hcreate⟩ | ⟨hmade, -⟩
      · rw [hmade, hmade₁, List.append_nil]
        exact ⟨hconfig, .failed (Snippet.text_of_ofText hs).2 hcreate⟩
      · -- No run goes on with a workspace that could not be made.
        exact absurd hmade (hlive e)
    | ok w =>
      obtain ⟨building, result', rest, rfl, hcompile, hpure⟩ := hbuilding.of_bind
      obtain ⟨rfl, hr⟩ := hpure.of_pure
      cases hr
      rw [hconfig] at hcompile
      rcases hmaking with ⟨hmade, hcreate⟩ | ⟨hmade, rfl⟩ <;>
        rw [hmade, hmade₁, List.append_nil]
      · exact ⟨hconfig, .first hs hcreate hcompile⟩
      · exact ⟨hconfig, .later hs hcompile⟩

theorem ends_workspace_of_create {m : Except Error Workspace}
    (he : Plan.Ends (Workspace.create c) log m) :
    Plan.Ends (workspace ⟨c, none⟩) log (m, ⟨c, some m⟩) :=
  he.map fun m => (m, (⟨c, some m⟩ : Run))

theorem ends_workspace_of_made (m : Except Error Workspace) :
    Plan.Ends (workspace ⟨c, some m⟩) [] (m, ⟨c, some m⟩) :=
  .done _

/-- Compiling a text can do all that is described. -/
theorem Took.ends (htook : Took c text made log result made') :
    Plan.Ends (compile ⟨c, made⟩ text) log (result, ⟨c, made'⟩) := by
  unfold compile
  cases htook with
  | blank _ hblank =>
    rw [Snippet.ofText_of_blank hblank]
    exact Plan.ends_pure _
  | failed hblank hcreate =>
    cases hs : Snippet.ofText text with
    | error e =>
      rw [(Snippet.error_of_ofText hs).2] at hblank
      cases hblank
    | ok s =>
      rw [← List.append_nil log]
      exact (ends_workspace_of_create hcreate).bind (.done _)
  | first hs hcreate hcompile =>
    rw [hs]
    exact (ends_workspace_of_create hcreate).bind (hcompile.map _)
  | later hs hcompile =>
    rw [hs]
    exact (ends_workspace_of_made _).bind (hcompile.map _)

theorem Took.fatalOfWorkspace (htook : Took c text made log result made') :
    FatalOfWorkspace result := by
  cases htook with
  | blank =>
    intro e he hfatal
    cases he
    cases hfatal
  | failed _ hcreate =>
    intro e he _
    cases he
    exact ((Workspace.always_create c _ _ hcreate).2.1 _ rfl).elim
      Workspace.OfFault.ofWorkspace Workspace.Refusal.ofWorkspace
  | first _ _ hcompile => exact (gives_compileIn c _ _ _ _ hcompile).2.1
  | later _ hcompile => exact (gives_compileIn c _ _ _ _ hcompile).2.1

/-- A text that is compiled has its own name and an artifact that was parsed. -/
theorem Took.compiled (htook : Took c text made log result made') {compiled : Compiled}
    (hresult : result = .ok compiled) : compiled.id = .ofText text ∧
      ∃ path json, Artifact.parse compiled.id path json = .ok compiled.artifact := by
  have hgives : ∀ {w s log}, Snippet.ofText text = .ok s → Plan.Ends (compileIn c w s) log result →
      compiled.id = .ofText text ∧
        ∃ path json, Artifact.parse compiled.id path json = .ok compiled.artifact := by
    intro w s log hs hcompile
    obtain ⟨hid, json, hparse⟩ := (gives_compileIn c w s log result hcompile).2.2 compiled hresult
    refine ⟨by rw [hid, Snippet.id, (Snippet.text_of_ofText hs).1], w.artifactPath s.id, json, ?_⟩
    rw [hid]
    exact hparse
  cases htook with
  | blank => cases hresult
  | failed => cases hresult
  | first hs _ hcompile => exact hgives hs hcompile
  | later hs hcompile => exact hgives hs hcompile

/-- Only a fatal failure makes the workspace impossible. -/
theorem Took.live (htook : Took c text made log result made') (hlive : Live made)
    (hresult : ∀ e, result = .error e → e.isFatal = false) : Live made' := by
  cases htook with
  | blank => exact hlive
  | @failed _ e _ hcreate =>
    have hfatal := ((Workspace.always_create c _ _ hcreate).2.1 e rfl).elim
      Workspace.OfFault.ofWorkspace Workspace.Refusal.ofWorkspace
    exact absurd (hresult e rfl) (by rw [hfatal.isFatal]; nofun)
  | first | later => exact nofun

/-- What has become of the workspace stays. -/
theorem Took.kept (htook : Took c text made log result made') {m : Except Error Workspace}
    (hmade : made = some m) : made' = some m := by
  cases htook with
  | blank => exact hmade
  | failed | first => cases hmade
  | later => exact hmade

/-- A fatal failure is behind an attempt to make the workspace, which is at the root. -/
theorem Took.made_of_fatal (htook : Took c text made log result made') {e : Error}
    (hresult : result = .error e) (hfatal : e.isFatal = true) : ∃ m, made' = some m := by
  cases htook with
  | blank =>
    cases hresult
    cases hfatal
  | failed | first | later => exact ⟨_, rfl⟩

/-- The workspace that is made is at the root. -/
theorem Took.root (htook : Took c text made log result made')
    (hmade : ∀ w, made = some (.ok w) → w = ⟨c.root⟩) : ∀ w, made' = some (.ok w) → w = ⟨c.root⟩ := by
  cases htook with
  | blank => exact hmade
  | failed => exact nofun
  | @first _ _ w _ _ _ hcreate =>
    intro w' hw
    cases hw
    exact (Workspace.always_create c _ _ hcreate).2.2 w rfl
  | later => exact hmade

/-! ## The end of a run -/

/-- If the workspace has been needed, the end of the run makes none. -/
theorem always_finish {m : Except Error Workspace} (hmade : r.made = some m)
    (hroot : ∀ w, m = .ok w → w = ⟨r.config.root⟩) : r.finish.Always
      (fun call => call = .read (Workspace.manifestPath ⟨r.config.root⟩) ∨
        call = .removeTree r.config.root) fun _ => True := by
  have hdestroy : (Workspace.destroy ⟨r.config.root⟩).Always
      (fun call => call = .read (Workspace.manifestPath ⟨r.config.root⟩) ∨
        call = .removeTree r.config.root) fun _ => True :=
    Workspace.always_destroy _ (Or.inr rfl)
  unfold finish workspace
  rw [hmade, pure_bind]
  cases m with
  | ok w =>
    rw [hroot w rfl]
    exact hdestroy
  | error e =>
    dsimp only
    split
    · exact hdestroy
    · refine Plan.always_bind (Workspace.always_hasGeneratedManifest _ (Or.inl rfl)) fun known _ => ?_
      split
      · exact hdestroy
      · exact Plan.always_pure trivial

end Run

end EmbeddedSolidity
