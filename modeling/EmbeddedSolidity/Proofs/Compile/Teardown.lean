import EmbeddedSolidity.Proofs.Compile.Account
import EmbeddedSolidity.Proofs.Plan.Fault

/-!
# The end of a compilation

However a compilation ends, with all snippets tried or with a fatal failure, its last call removes the
workspace that it made, and no call between the making and that one removes anything. If anything is
left at the root then, the last diagnostic of the report says so. Compilers may have done anything to
the root, and any number of calls may have failed.

* `Compile.Account.Sound.exists_phases` : the calls before the workspace is made, to make it, to build
  in it and to close it;
* `compileSources_removes_workspace` : what is left at the root.
-/

namespace EmbeddedSolidity

open FileSystem

instance : DecidablePred Call.Starts
  | .execute _ _ _ => .isTrue trivial
  | .kind _ | .isDirectory _ | .list _ | .read _ | .write _ _ | .makeDirectories _ | .removeFile _
  | .removeTree _ | .locate _ => .isFalse id

/-- The call takes something away. -/
def Call.Removes : Call → Prop
  | .removeFile _ | .removeTree _ => True
  | _ => False

theorem Call.Looks.not_removes {call : Call} (hlooks : call.Looks) : ¬ call.Removes := by
  cases call <;> first | exact hlooks.elim | exact id

theorem Call.Starts.not_removes {call : Call} (hstarts : call.Starts) : ¬ call.Removes := by
  cases call <;> first | exact hstarts.elim | exact id

variable {c : Config} {log : List Exchange} {made last : Option (Except Error Workspace)}

/-- Compiling a snippet in a workspace removes nothing. -/
theorem Run.not_removes_of_compileIn {w : Workspace} {s : Snippet} {r : Except Error Compiled}
    (he : Plan.Ends (compileIn c w s) log r) : ∀ x ∈ log, ¬ x.1.Removes := by
  obtain ⟨answer, rest, rfl, -, hrest⟩ := write_of_compileIn he
  refine List.forall_mem_cons.2 ⟨id, fun x hx => ?_⟩
  exact (hrest x hx).elim Call.Looks.not_removes Call.Starts.not_removes

/-- The end of a run starts no program. -/
theorem Run.not_starts_of_finish (r : Run) : r.finish.Always (fun call => ¬ call.Starts) fun _ => True := by
  have hdestroy : ∀ w : Workspace, w.destroy.Always (fun call => ¬ call.Starts) fun _ => True :=
    fun w => Workspace.always_destroy w id
  have hworkspace : r.workspace.Always (fun call => ¬ call.Starts) fun _ => True := by
    unfold workspace
    split
    · exact Plan.always_pure trivial
    · exact Plan.always_bind (Workspace.always_create r.config) fun _ _ => Plan.always_pure trivial
  refine Plan.always_bind hworkspace fun out _ => ?_
  split
  · exact hdestroy _
  · dsimp only
    split
    · exact hdestroy _
    · refine Plan.always_bind (Workspace.always_hasGeneratedManifest _ id) fun known _ => ?_
      split
      · exact hdestroy _
      · exact Plan.always_pure trivial

/-- A call behind the making of a workspace : it removes nothing, and starts a program only if the
workspace has been made. -/
def Call.Uses (m : Except Error Workspace) (call : Call) : Prop :=
  ¬ call.Removes ∧ (call.Starts → ∃ w, m = .ok w)

theorem Call.Looks.uses {call : Call} (hlooks : call.Looks) (m : Except Error Workspace) :
    call.Uses m :=
  ⟨hlooks.not_removes, fun hstarts => absurd hstarts hlooks.not_starts⟩

namespace Compile

variable {xs : List Attempt} {a : Account} {paths : List String}

/-! ## Attempts -/

/-- Attempts that do not need the workspace make no calls. -/
theorem Served.log_of_none (hserved : Served c made xs last) (hlast : last = none) :
    xs.flatMap Attempt.log = [] := by
  induction hserved with
  | nil => rfl
  | @cons made made' _ x xs htook hserved ih =>
    have hmade' : made' = none := by
      cases hm : made' with
      | none => rfl
      | some m => rw [hserved.kept hm] at hlast; cases hlast
    rw [List.flatMap_cons, ih hlast, List.append_nil]
    subst hmade'
    generalize hlog : x.log = log at htook
    generalize hresult : x.result = result at htook
    generalize hafter : (none : Option (Except Error Workspace)) = after at htook
    cases htook with
    | blank => rfl
    | failed | first | later => cases hafter

/-- The calls of attempts behind the making of the workspace. -/
theorem Served.uses {m : Except Error Workspace} (hserved : Served c made xs last)
    (hmade : made = some m) : ∀ x ∈ xs.flatMap Attempt.log, x.1.Uses m := by
  induction hserved with
  | nil => exact List.forall_mem_nil _
  | @cons made made' _ x xs htook hserved ih =>
    have hmade' := htook.kept hmade
    rw [List.flatMap_cons]
    refine List.forall_mem_append.2 ⟨?_, ih hmade'⟩
    generalize x.log = log at htook
    generalize x.result = result at htook
    cases htook with
    | blank => exact List.forall_mem_nil _
    | failed | first => cases hmade
    | later _ hcompile =>
      cases hmade
      exact fun x hx => ⟨Run.not_removes_of_compileIn hcompile x hx, fun _ => ⟨_, rfl⟩⟩

/-- The first calls of attempts make the workspace, and the others use it. -/
theorem Served.exists_making {m : Except Error Workspace} (hserved : Served c made xs last)
    (hmade : made = none) (hlast : last = some m) : ∃ making building,
      xs.flatMap Attempt.log = making ++ building ∧ Plan.Ends (Workspace.create c) making m ∧
        ∀ x ∈ building, x.1.Uses m := by
  induction hserved with
  | nil => rw [hmade] at hlast; cases hlast
  | @cons made made' _ x xs htook hserved ih =>
    rw [List.flatMap_cons]
    cases hm : made' with
    | none =>
      have hlog : x.log = [] := by
        have hone := (Served.cons htook (.nil made')).log_of_none hm
        simpa using hone
      rw [hlog, List.nil_append]
      exact ih hm hlast
    | some m' =>
      have hm' : m' = m := Option.some.inj ((hserved.kept hm).symm.trans hlast)
      have hmore := hserved.uses hm
      subst hm' hmade hm
      generalize x.log = log at htook ⊢
      generalize x.result = result at htook
      cases htook with
      | failed _ hcreate =>
        exact ⟨log, xs.flatMap Attempt.log, rfl, hcreate, hmore⟩
      | @first making building _ _ _ _ hcreate hcompile =>
        refine ⟨making, building ++ xs.flatMap Attempt.log, List.append_assoc _ _ _, hcreate, ?_⟩
        refine List.forall_mem_append.2 ⟨fun x hx => ?_, hmore⟩
        exact ⟨Run.not_removes_of_compileIn hcompile x hx, fun _ => ⟨_, rfl⟩⟩

/-! ## Visits -/

/-- Reading a file for its scan only looks. -/
theorem looks_of_scans {vs : List Visit}
    (hscans : ∀ v ∈ vs, Plan.Ends (Scan.ofFile v.file) v.reading v.scan) :
    ∀ v ∈ vs, ∀ x ∈ v.reading, x.1.Looks :=
  fun v hv => (Scan.always_ofFile v.file _ _ (hscans v hv)).1

/-- Visits that do not need the workspace only look. -/
theorem looks_of_served {vs : List Visit} (hreading : ∀ v ∈ vs, ∀ x ∈ v.reading, x.1.Looks)
    (hserved : Served c made (vs.flatMap Visit.attempts) none) :
    ∀ x ∈ vs.flatMap Visit.log, x.1.Looks := by
  intro x hx
  obtain ⟨v, hv, hx⟩ := List.mem_flatMap.1 hx
  rcases List.mem_append.1 hx with hx | hx
  · exact hreading v hv x hx
  · -- There are no calls for the attempts of any visit.
    have hnone := hserved.log_of_none rfl
    rw [List.flatMap_assoc] at hnone
    rw [List.flatMap_eq_nil_iff.1 hnone v hv] at hx
    cases hx

/-- The calls of visits behind the making of the workspace. -/
theorem uses_of_served {vs : List Visit} {m : Except Error Workspace}
    (hreading : ∀ v ∈ vs, ∀ x ∈ v.reading, x.1.Looks)
    (hserved : Served c (some m) (vs.flatMap Visit.attempts) last) :
    ∀ x ∈ vs.flatMap Visit.log, x.1.Uses m := by
  intro x hx
  obtain ⟨v, hv, hx⟩ := List.mem_flatMap.1 hx
  rcases List.mem_append.1 hx with hx | hx
  · exact (hreading v hv x hx).uses m
  · have hcalls := hserved.uses rfl
    rw [List.flatMap_assoc] at hcalls
    exact hcalls x (List.mem_flatMap.2 ⟨v, hv, hx⟩)

/-- The calls of a compilation: those that look before the workspace is needed, those that make it,
those in it, and those that close it. -/
structure Phases (c : Config) (log before making building closing : List Exchange)
    (m : Except Error Workspace) : Prop where
  log_eq : log = before ++ making ++ building ++ closing
  looks : ∀ x ∈ before, x.1.Looks
  makes : Plan.Ends (Workspace.create c) making m
  uses : ∀ x ∈ building, x.1.Uses m
  closes : ∀ x ∈ closing, ¬ x.1.Starts

/-- A program is started only in a workspace that was made. -/
theorem Phases.ok_of_starts {before making building closing : List Exchange}
    {m : Except Error Workspace} (hphases : Phases c log before making building closing m)
    (hstarts : ∃ x ∈ log, x.1.Starts) : ∃ w, m = .ok w := by
  obtain ⟨x, hx, hstarts⟩ := hstarts
  rw [hphases.log_eq, List.mem_append, List.mem_append, List.mem_append] at hx
  rcases hx with ((hx | hx) | hx) | hx
  · exact absurd hstarts (hphases.looks x hx).not_starts
  · exact absurd hstarts ((Workspace.always_create c _ _ hphases.makes).1 x hx)
  · exact (hphases.uses x hx).2 hstarts
  · exact absurd hstarts (hphases.closes x hx)

/-- In visits that need the workspace it is made at some point. -/
theorem phases_of_served {vs : List Visit} {m : Except Error Workspace}
    (hreading : ∀ v ∈ vs, ∀ x ∈ v.reading, x.1.Looks)
    (hserved : Served c none (vs.flatMap Visit.attempts) (some m)) :
    ∃ before making building, Phases c (vs.flatMap Visit.log) before making building [] m := by
  induction vs with
  | nil => cases hserved
  | cons v vs ih =>
    rw [List.forall_mem_cons] at hreading
    rw [List.flatMap_cons] at hserved ⊢
    obtain ⟨mid, hvisit, hrest⟩ := hserved.of_append
    cases mid with
    | none =>
      obtain ⟨before, making, building, hphases⟩ := ih hreading.2 hrest
      refine ⟨v.reading ++ before, making, building, ?_, ?_, hphases.makes, hphases.uses,
        hphases.closes⟩
      · unfold Visit.log at hphases ⊢
        rw [hvisit.log_of_none rfl, hphases.log_eq]
        simp
      · exact List.forall_mem_append.2 ⟨hreading.1, hphases.looks⟩
    | some m' =>
      obtain rfl : m' = m := Option.some.inj ((hrest.kept rfl).symm)
      obtain ⟨making, building, hlog, hmakes, huses⟩ := hvisit.exists_making rfl rfl
      refine ⟨v.reading, making, building ++ vs.flatMap Visit.log, ?_, hreading.1, hmakes, ?_,
        List.forall_mem_nil _⟩
      · unfold Visit.log at *
        rw [hlog]
        simp
      · exact List.forall_mem_append.2 ⟨huses, uses_of_served hreading.2 hrest⟩

/-! ## Compilations -/

/-- The report before the end of the run. -/
def Account.gathered (a : Account) : Report where
  artifacts := a.visits.flatMap Visit.artifacts
  diagnostics := a.collected.diagnostics ++ a.visits.flatMap Visit.diagnostics

theorem Account.report_of_ok {u : Unit} (hending : a.ending = .ok u) : a.report = a.gathered := by
  simp [Account.report, Account.gathered, Account.teardown, hending]

theorem Account.report_of_error {e : Error} (hending : a.ending = .error e) :
    a.report = a.gathered.addDiagnostic (.ofRun e) := by
  simp [Account.report, Account.gathered, Account.teardown, hending, Report.addDiagnostic]

/-- A workspace is removed with one call, and only what it answers tells whether that failed. -/
theorem ends_destroy {w : Workspace} {r : Except Error Unit} (he : Plan.Ends w.destroy log r) :
    ∃ answer : Except Fault Unit, log = [⟨.removeTree w.root, answer⟩] ∧
      (r = .ok () ∧ (answer = .ok () ∨ answer = .error .notFound) ∨
        ∃ f : Fault, r = .error (.workspace w.root f.text)) := by
  obtain ⟨first, answer, rest, rfl, hcall, hrest⟩ := he.of_bind
  obtain rfl := hcall.of_call
  refine ⟨answer, ?_⟩
  split at hrest
  · obtain ⟨rfl, rfl⟩ := hrest.of_pure
    exact ⟨rfl, Or.inl ⟨rfl, Or.inl rfl⟩⟩
  · obtain ⟨rfl, rfl⟩ := hrest.of_pure
    exact ⟨rfl, Or.inl ⟨rfl, Or.inr rfl⟩⟩
  · next f _ =>
    obtain ⟨rfl, rfl⟩ := hrest.of_pure
    exact ⟨rfl, Or.inr ⟨f, rfl⟩⟩

/-- Every compilation makes its workspace, in a visit or in the end, and closes it then. -/
theorem Account.Sound.exists_phases (hsound : a.Sound c paths) :
    ∃ before making building closing m, Phases c a.log before making building closing m ∧
      ∀ w, m = .ok w → Plan.Ends w.destroy closing a.ending := by
  have hreading := looks_of_scans hsound.scans
  have hcollecting := (always_collect paths _ _ hsound.collects).1
  have hserved : Served c none (a.visits.flatMap Visit.attempts) a.made := hsound.served
  have hfinish := hsound.finishes
  have hcloses := (Run.not_starts_of_finish _ _ _ hfinish).1
  cases hmade : a.made with
  | none =>
    rw [hmade] at hserved hfinish
    obtain ⟨making, ⟨m, r⟩, closing, hclosing, hworkspace, hrest⟩ := hfinish.of_bind
    obtain ⟨-, -, ⟨-, hmaking⟩ | ⟨hnone, -⟩⟩ := Run.ends_workspace hworkspace
    · rw [hclosing] at hcloses
      refine ⟨a.collecting ++ a.visits.flatMap Visit.log, making, [], closing, m, ⟨?_, ?_, hmaking,
        List.forall_mem_nil _, (List.forall_mem_append.1 hcloses).2⟩, fun w hw => ?_⟩
      · unfold Account.log
        rw [hclosing]
        simp
      · exact List.forall_mem_append.2 ⟨hcollecting, looks_of_served hreading hserved⟩
      · subst hw
        exact hrest
    · cases hnone
  | some m =>
    rw [hmade] at hserved hfinish
    obtain ⟨before, making, building, hphases⟩ := phases_of_served hreading hserved
    refine ⟨a.collecting ++ before, making, building, a.closing, m, ⟨?_, ?_, hphases.makes,
      hphases.uses, hcloses⟩, fun w hw => ?_⟩
    · unfold Account.log
      rw [hphases.log_eq]
      simp
    · exact List.forall_mem_append.2 ⟨hcollecting, hphases.looks⟩
    · subst hw
      exact hfinish

end Compile

open Compile in
/-- The workspace does not outlive its run unnoticed. Whatever compilers do and whichever calls fail:
once it has been made, nothing is removed until the last call of all, which removes its root; then
nothing is at the root, or the last diagnostic is that of the root, behind all that was gathered. -/
theorem compileSources_removes_workspace {temporary : String} {o : Options} {c : Config}
    {paths : List String} {h : Host} {t t' : FileTree} {log : List Exchange}
    {result : Except Error Report} (hresolve : o.resolve temporary = .ok c)
    (hrun : (compileSources temporary o paths).Meets h t log result t') :
    ∃ (a : Account) (before making building closing : List Exchange) (m : Except Error Workspace),
      result = .ok a.report ∧ log = a.log ∧ a.Sound c paths ∧
        Phases c log before making building closing m ∧ ∀ w, m = .ok w →
          (∃ answer, closing = [⟨.removeTree c.root, answer⟩]) ∧
          (a.report = a.gathered ∧ t'.kind h.current c.root = .error .notFound ∨
            ∃ message, a.report = a.gathered.addDiagnostic (.ofRun (.workspace c.root message))) := by
  obtain ⟨a, rfl, rfl, hsound⟩ := ends_compileSources hresolve hrun.ends
  obtain ⟨before, making, building, closing, m, hphases, hdestroy⟩ := hsound.exists_phases
  refine ⟨a, before, making, building, closing, m, rfl, rfl, hsound, hphases, fun w hw => ?_⟩
  have hroot : w = ⟨c.root⟩ := (Workspace.always_create c _ _ hphases.makes).2.2 w hw
  obtain ⟨answer, hclosing, hending⟩ := ends_destroy (hdestroy w hw)
  rw [hroot] at hclosing hending
  refine ⟨⟨answer, hclosing⟩, ?_⟩
  rcases hending with ⟨hok, hanswer⟩ | ⟨f, herror⟩
  · rw [hphases.log_eq, hclosing] at hrun
    obtain ⟨t₁, hmeets⟩ := hrun.last
    exact Or.inl ⟨Account.report_of_ok hok, hmeets.gone hanswer⟩
  · exact Or.inr ⟨f.text, Account.report_of_error herror⟩

/-- A host whose compiler puts a file in the place of the workspace. -/
def replacing : Host where
  current := []
  search := ["/bin"]
  execute := fun _ _ _ t => (.ok ⟨.exited 0, ByteArray.empty, ByteArray.empty⟩,
    (t.eraseAll ["w"]).put ["w"] (.file ByteArray.empty false))

/-- A source file with one snippet, and the compiler. -/
def oneSource : FileTree :=
  ⟨[(["bin"], .directory), (["bin", "forge"], .file ByteArray.empty true),
    (["a.rs"], .file "sol!(\"A\");".toUTF8 false)]⟩

/-- A compilation in the directory `w`. -/
def compileOne : Plan (Except Error Report) :=
  compileSources "/tmp" { workspace := some "w" } ["a.rs"]

open Compile in
theorem compileSources_removes_workspace_replaced :
    Options.resolve "/tmp" { workspace := some "w" } = .ok (Run.rooted "w") ∧
      ∃ a : Account, a.Sound (Run.rooted "w") ["a.rs"] ∧
        (compileOne.run replacing oneSource).1 = .ok a.report ∧
        ∃ message, a.report = a.gathered.addDiagnostic (.ofRun (.workspace "w" message)) := by
  obtain ⟨a, before, making, building, closing, m, hreport, hlog, hsound, hphases, hend⟩ :=
    compileSources_removes_workspace (o := { workspace := some "w" }) (c := Run.rooted "w") rfl
      (Plan.meets_log replacing compileOne oneSource)
  have hfile : (compileOne.run replacing oneSource).2.kind [] "w" = .ok .file := by
    decide +kernel
  have hstarts : ∃ x ∈ compileOne.log replacing oneSource, x.1.Starts := by
    decide +kernel
  obtain ⟨w, hw⟩ := hphases.ok_of_starts hstarts
  refine ⟨rfl, a, hsound, hreport, (hend w hw).2.resolve_left fun hgone => ?_⟩
  rw [show replacing.current = [] from rfl, show (Run.rooted "w").root = "w" from rfl, hfile] at hgone
  cases hgone.2

end EmbeddedSolidity
