import EmbeddedSolidity.Proofs.Plan.Log
import EmbeddedSolidity.Run
import Mathlib.Logic.Function.Basic

/-!
# Handlers

Any number of handlers compile the snippets of one run side by side. One task makes the workspace;
each handler waits for its result, and then goes on with its own plan. The machine answers one call
at a time, of the task or of any handler. Between the start and the end of a compiler the others go
on, and once a compiler has been started, processes may change the tree at any time, but for the
directory of the sources.

* `Handlers.Step`, `Handlers.Runs` : what can happen, and what has happened;
* `Handlers.made`, `Handlers.own` : the calls of the task and of a handler;
* `Run.write_of_compileIn`, `Run.calls_of_compiled` : the calls with which a snippet is compiled;
* `Handlers.Runs.alone`, `Handlers.runs_compile` : a run of one snippet is one of these;
* `Handlers.Runs.started` : how far a handler comes at least.
-/

namespace EmbeddedSolidity

open FileSystem

/-- The call looks at the tree and does not change it. -/
def Call.Looks : Call → Prop
  | .kind _ | .isDirectory _ | .list _ | .read _ | .locate _ => True
  | _ => False

theorem Call.Looks.answer {call : Call} (hlooks : call.Looks) (h : Host) (t : FileTree) :
    (h.answer t call).2 = t := by
  cases call <;> first | exact hlooks.elim | rfl

theorem Call.Looks.not_starts {call : Call} (hlooks : call.Looks) : ¬ call.Starts := by
  cases call <;> first | exact hlooks.elim | exact id

/-! ## The calls of a handler -/

namespace Workspace

open Plan

variable {w : Workspace} {c : Config} {s : Snippet} {id : Snippet.Id} {log : List Exchange}

/-- A snippet is written with one call. -/
theorem ends_stage {r : Except Error String} (he : Ends (w.stage s) log r) :
    ∃ answer, log = [⟨.write (w.sourcePath s.id) s.text.toUTF8, answer⟩] ∧
      ∀ path, r = .ok path → answer = .ok () := by
  obtain ⟨first, answer, second, rfl, hwrite, hrest⟩ := he.of_bind
  obtain rfl := hwrite.of_call
  obtain ⟨rfl, rfl⟩ := hrest.of_pure
  cases answer with
  | error f => exact ⟨.error f, rfl, nofun⟩
  | ok => exact ⟨.ok (), rfl, fun _ _ => rfl⟩

/-- A compiler is looked for and run. -/
theorem ends_runCompiler {r : Except Error Unit} (he : Ends (w.runCompiler c id) log r) :
    (∀ x ∈ log, x.1.Looks ∨ x.1.Starts) ∧ (r = .ok () → ∃ program outcome,
      log = [⟨.locate c.executable, some program⟩,
        ⟨.execute program w.root c.timeout, .ok outcome⟩]) := by
  obtain ⟨first, found, second, rfl, hlocate, hrest⟩ := he.of_bind
  obtain rfl := hlocate.of_call
  cases found with
  | none =>
    obtain ⟨rfl, rfl⟩ := hrest.of_pure
    exact ⟨by simp [Call.Looks], nofun⟩
  | some program =>
    obtain ⟨first, answer, second, rfl, hexecute, hend⟩ := hrest.of_bind
    obtain rfl := hexecute.of_call
    have hsecond : second = [] ∧ (r = .ok () → ∃ outcome, answer = .ok outcome) := by
      cases answer with
      | error f =>
        obtain ⟨rfl, rfl⟩ := hend.of_pure
        exact ⟨rfl, nofun⟩
      | ok outcome =>
        dsimp only at hend
        split at hend
        · obtain ⟨rfl, rfl⟩ := hend.of_pure
          exact ⟨rfl, nofun⟩
        · obtain ⟨rfl, rfl⟩ := hend.of_pure
          exact ⟨rfl, fun _ => ⟨outcome, rfl⟩⟩
    obtain ⟨rfl, hok⟩ := hsecond
    refine ⟨by simp [Call.Looks, Call.Starts], fun hr => ?_⟩
    obtain ⟨outcome, rfl⟩ := hok hr
    exact ⟨program, outcome, rfl⟩

/-- An artifact is read with one call. -/
theorem ends_readArtifact {r : Except Error Artifact} (he : Ends (w.readArtifact id) log r) :
    ∃ answer, log = [⟨.read (w.artifactPath id), answer⟩] ∧ ∀ artifact, r = .ok artifact →
      ∃ bytes text, answer = .ok bytes ∧ Text.decode? bytes = some text ∧
        Artifact.parse id (w.artifactPath id) text = .ok artifact := by
  obtain ⟨first, result, second, rfl, hread, hrest⟩ := he.of_bind
  obtain ⟨answer, rfl, hanswer⟩ := hread.of_readText
  split at hrest
  · next text =>
    obtain ⟨rfl, rfl⟩ := hrest.of_pure
    obtain ⟨bytes, rfl, hdecoded⟩ := hanswer text rfl
    exact ⟨.ok bytes, rfl, fun artifact hparsed => ⟨bytes, text, rfl, hdecoded, hparsed⟩⟩
  · obtain ⟨rfl, rfl⟩ := hrest.of_pure
    exact ⟨answer, rfl, nofun⟩
  · obtain ⟨rfl, rfl⟩ := hrest.of_pure
    exact ⟨answer, rfl, nofun⟩

end Workspace

namespace Run

open Plan

variable {c : Config} {w : Workspace} {s : Snippet} {log : List Exchange}

/-- The call that writes a snippet. -/
def writing (w : Workspace) (s : Snippet) : Call :=
  .write (w.sourcePath s.id) s.text.toUTF8

/-- The first call writes the snippet, and only if that succeeds there are more, of which none
writes. -/
theorem write_of_compileIn {r : Except Error Compiled} (he : Ends (compileIn c w s) log r) :
    ∃ answer rest, log = ⟨writing w s, answer⟩ :: rest ∧ (rest ≠ [] → answer = .ok ()) ∧
      ∀ x ∈ rest, x.1.Looks ∨ x.1.Starts := by
  have hbuild : ∀ {log r}, Ends (w.buildSnippet c s) log r →
      ∃ answer rest, log = ⟨writing w s, answer⟩ :: rest ∧
        (rest ≠ [] ∨ r = .ok () → answer = .ok ()) ∧ ∀ x ∈ rest, x.1.Looks ∨ x.1.Starts := by
    intro log r he
    rcases he.of_andThen with ⟨e, hstage, rfl⟩ | ⟨first, path, second, rfl, hstage, hrun⟩
    · obtain ⟨answer, rfl, -⟩ := Workspace.ends_stage hstage
      exact ⟨answer, [], rfl, fun h => h.elim (absurd rfl) nofun, List.forall_mem_nil _⟩
    · obtain ⟨answer, rfl, hok⟩ := Workspace.ends_stage hstage
      exact ⟨answer, second, rfl, fun _ => hok path rfl, (Workspace.ends_runCompiler hrun).1⟩
  rcases he.of_andThen with ⟨e, hrun, rfl⟩ | ⟨first, ⟨⟩, second, rfl, hrun, hmore⟩
  · obtain ⟨answer, rest, rfl, hok, hcalls⟩ := hbuild hrun
    exact ⟨answer, rest, rfl, fun hne => hok (Or.inl hne), hcalls⟩
  · obtain ⟨answer, rest, rfl, hok, hcalls⟩ := hbuild hrun
    refine ⟨answer, rest ++ second, rfl, fun _ => hok (Or.inr rfl),
      List.forall_mem_append.2 ⟨hcalls, ?_⟩⟩
    have hread : ∀ {log r}, Ends (w.readArtifact s.id) log r → ∀ x ∈ log, x.1.Looks := by
      intro log r he
      obtain ⟨answer, rfl, -⟩ := Workspace.ends_readArtifact he
      exact List.forall_mem_singleton.2 trivial
    rcases hmore.of_andThen with ⟨e, hartifact, rfl⟩ | ⟨third, artifact, fourth, rfl, hartifact, hend⟩
    · exact fun x hx => Or.inl (hread hartifact x hx)
    · obtain ⟨rfl, rfl⟩ := hend.of_pure
      rw [List.append_nil]
      exact fun x hx => Or.inl (hread hartifact x hx)

/-- A snippet that was compiled has been written, the compiler has ended, and then its artifact has
been read. -/
theorem calls_of_compiled {compiled : Compiled} (he : Ends (compileIn c w s) log (.ok compiled)) :
    compiled.id = s.id ∧ ∃ program outcome bytes text,
      log = [⟨writing w s, .ok ()⟩, ⟨.locate c.executable, some program⟩,
        ⟨.execute program w.root c.timeout, .ok outcome⟩,
        ⟨.read (w.artifactPath s.id), .ok bytes⟩] ∧
      Text.decode? bytes = some text ∧
      Artifact.parse s.id (w.artifactPath s.id) text = .ok compiled.artifact := by
  rcases he.of_andThen with ⟨e, -, hr⟩ | ⟨first, ⟨⟩, second, rfl, hbuild, hmore⟩
  · cases hr
  rcases hbuild.of_andThen with ⟨e, -, hr⟩ | ⟨stage, path, run, rfl, hstage, hrun⟩
  · cases hr
  rcases hmore.of_andThen with ⟨e, -, hr⟩ | ⟨third, artifact, fourth, rfl, hartifact, hend⟩
  · cases hr
  obtain ⟨rfl, hcompiled⟩ := hend.of_pure
  obtain rfl := Except.ok.inj hcompiled
  obtain ⟨answer, rfl, hok⟩ := Workspace.ends_stage hstage
  obtain rfl := hok path rfl
  obtain ⟨program, outcome, rfl⟩ := (Workspace.ends_runCompiler hrun).2 rfl
  obtain ⟨answer, rfl, hread⟩ := Workspace.ends_readArtifact hartifact
  obtain ⟨bytes, text, rfl, hdecoded, hparsed⟩ := hread artifact rfl
  exact ⟨rfl, program, outcome, bytes, text, rfl, hdecoded, hparsed⟩

end Run

/-! ## Handlers that share a workspace -/

/-- How far a handler has come. -/
inductive Handler where
  /-- It waits for the workspace. -/
  | awaiting
  /-- It goes on with a plan. -/
  | working (rest : Plan (Except Error Compiled))
  /-- A program has been started for it and has not ended, or has not been found to have ended. -/
  | building (program directory : String) (limit : Option Nat)
    (next : Except Fault Outcome → Plan (Except Error Compiled))
  | returned (r : Except Error Compiled)

namespace Handlers

variable {ι : Type} [DecidableEq ι]

/-- The tree, what is left of the task that makes the workspace, and the handlers. -/
structure State (ι : Type) where
  tree : FileTree
  creation : Plan (Except Error Workspace)
  handlers : ι → Handler

/-- At first all handlers wait for the workspace. -/
def State.initial (c : Config) (t : FileTree) : State ι :=
  ⟨t, Workspace.create c, fun _ => .awaiting⟩

/-- The state with one handler further. -/
def State.at (s : State ι) (i : ι) (handler : Handler) : State ι :=
  { s with handlers := Function.update s.handlers i handler }

/-- What can happen. -/
inductive Event (ι : Type) where
  /-- A call of the task that makes the workspace is answered. -/
  | made (x : Exchange)
  /-- A handler gets the workspace. -/
  | entered (i : ι)
  /-- A call of a handler is answered. -/
  | asked (i : ι) (x : Exchange)
  /-- A program is started for a handler, in this tree. -/
  | started (i : ι) (t : FileTree)
  /-- The program of a handler has ended, or could not be started. -/
  | ended (i : ι) (x : Exchange)
  | returned (i : ι) (r : Except Error Compiled)
  /-- A process has changed the tree. -/
  | changed

/-- The directory of the sources stays where it is, with all that is in it. -/
def KeepsSources (h : Host) (c : Config) (t t' : FileTree) : Prop :=
  ∀ p, t.entryAt h.current true (Workspace.sourceDirectory ⟨c.root⟩) = .ok (p, .directory) →
    t'.entryAt h.current true (Workspace.sourceDirectory ⟨c.root⟩) = .ok (p, .directory) ∧
      ∀ q, p <+: q → t'.get? q = t.get? q

/-- What can happen next, after what has happened. -/
inductive Step (h : Host) (c : Config) (snippet : ι → Snippet) (trace : List (Event ι)) :
    State ι → Event ι → State ι → Prop where
  | make {s : State ι} {call : Call} {next : call.Answer → Plan (Except Error Workspace)} :
    s.creation = .ask call next →
    Step h c snippet trace s (.made ⟨call, (h.answer s.tree call).1⟩)
      ⟨(h.answer s.tree call).2, next (h.answer s.tree call).1, s.handlers⟩
  | enter {s : State ι} {i : ι} {w : Workspace} :
    s.handlers i = .awaiting → s.creation = .done (.ok w) →
    Step h c snippet trace s (.entered i) (s.at i (.working (Run.compileIn c w (snippet i))))
  | fail {s : State ι} {i : ι} {e : Error} :
    s.handlers i = .awaiting → s.creation = .done (.error e) →
    Step h c snippet trace s (.returned i (.error e)) (s.at i (.returned (.error e)))
  | ask {s : State ι} {i : ι} {call : Call} {next : call.Answer → Plan (Except Error Compiled)} :
    s.handlers i = .working (.ask call next) → ¬ call.Starts →
    Step h c snippet trace s (.asked i ⟨call, (h.answer s.tree call).1⟩)
      (State.at { s with tree := (h.answer s.tree call).2 } i
        (.working (next (h.answer s.tree call).1)))
  | start {s : State ι} {i : ι} {program directory : String} {limit : Option Nat}
    {next : Except Fault Outcome → Plan (Except Error Compiled)} :
    s.handlers i = .working (.ask (.execute program directory limit) next) →
    Step h c snippet trace s (.started i s.tree) (s.at i (.building program directory limit next))
  | stop {s : State ι} {i : ι} {program directory : String} {limit : Option Nat}
    {next : Except Fault Outcome → Plan (Except Error Compiled)} (answer : Except Fault Outcome) :
    s.handlers i = .building program directory limit next →
    Step h c snippet trace s (.ended i ⟨.execute program directory limit, answer⟩)
      (s.at i (.working (next answer)))
  | finish {s : State ι} {i : ι} {r : Except Error Compiled} :
    s.handlers i = .working (.done r) →
    Step h c snippet trace s (.returned i r) (s.at i (.returned r))
  /-- A process works for as long as it likes, also when its handler has returned. -/
  | change {s : State ι} {j : ι} {before t' : FileTree} :
    .started j before ∈ trace → KeepsSources h c s.tree t' →
    Step h c snippet trace s .changed { s with tree := t' }

/-- What has happened since the run began in the tree `t`. -/
inductive Runs (h : Host) (c : Config) (snippet : ι → Snippet) (t : FileTree) :
    List (Event ι) → State ι → Prop where
  | start : Runs h c snippet t [] (.initial c t)
  | step {trace : List (Event ι)} {s s' : State ι} {ev : Event ι} :
    Runs h c snippet t trace s → Step h c snippet trace s ev s' →
    Runs h c snippet t (trace ++ [ev]) s'

/-- The calls of the task that makes the workspace. -/
def made (trace : List (Event ι)) : List Exchange :=
  trace.filterMap fun
    | .made x => some x
    | _ => none

/-- The call of a handler that has been answered. -/
def exchange? (i : ι) : Event ι → Option Exchange
  | .asked j x | .ended j x => if j = i then some x else none
  | _ => none

/-- The calls of a handler. -/
def own (i : ι) (trace : List (Event ι)) : List Exchange :=
  trace.filterMap (exchange? i)

/-! ## A handler by itself -/

variable {h : Host} {c : Config} {snippet : ι → Snippet} {t : FileTree} {trace : List (Event ι)}
  {s : State ι} {i : ι}

/-- Programs do not change the sources. -/
def SparesSources (h : Host) (c : Config) : Prop :=
  ∀ program directory limit t, KeepsSources h c t (h.execute program directory limit t).2

theorem State.at_self (s : State ι) (i : ι) (handler : Handler) :
    (s.at i handler).handlers i = handler := by
  unfold State.at
  exact Function.update_self i handler s.handlers

/-- While the other handlers rest, a handler carries out its plan. -/
theorem Runs.alone (hspares : SparesSources h c) (p : Plan (Except Error Compiled)) :
    ∀ {trace : List (Event ι)} {s : State ι}, Runs h c snippet t trace s →
      s.handlers i = .working p → ∃ trace' s', Runs h c snippet t trace' s' ∧
        s'.tree = (p.run h s.tree).2 ∧ s'.handlers i = .returned (p.run h s.tree).1 := by
  induction p with
  | done r =>
    intro trace s hruns hworking
    exact ⟨_, _, hruns.step (.finish hworking), rfl, State.at_self s i _⟩
  | ask call next ih =>
    intro trace s hruns hworking
    by_cases hstarts : call.Starts
    · cases call with
      | execute program directory limit =>
        have hstarted := hruns.step (.start hworking)
        have hchanged := hstarted.step (.change (List.mem_append_right _ List.mem_cons_self)
          (hspares program directory limit s.tree))
        exact ih _ (hchanged.step (.stop (h.execute program directory limit s.tree).1
          (State.at_self s i _))) (State.at_self _ i _)
      | _ => exact hstarts.elim
    · exact ih _ (hruns.step (.ask hworking hstarts)) (State.at_self _ i _)

/-- While the handlers wait, the task makes the workspace. -/
theorem runs_creation (h : Host) (c : Config) (snippet : ι → Snippet) (t : FileTree) :
    ∃ trace, Runs h c snippet t trace
      ⟨((Workspace.create c).run h t).2, .done ((Workspace.create c).run h t).1,
        fun _ => .awaiting⟩ := by
  have hall : ∀ (p : Plan (Except Error Workspace)) {trace : List (Event ι)} {s : State ι},
      Runs h c snippet t trace s → s.creation = p →
        ∃ trace', Runs h c snippet t trace' ⟨(p.run h s.tree).2, .done (p.run h s.tree).1,
          s.handlers⟩ := by
    intro p
    induction p with
    | done r =>
      intro trace s hruns hdone
      refine ⟨trace, ?_⟩
      change Runs h c snippet t trace ⟨s.tree, .done r, s.handlers⟩
      rwa [← hdone]
    | ask call next ih =>
      intro trace s hruns hask
      exact ih _ (hruns.step (.make hask)) rfl
  exact hall _ .start rfl

/-- Once the workspace has been made, a handler gets it. -/
theorem runs_entered {w : Workspace} {t' : FileTree} (snippet : ι → Snippet)
    (hmade : (Workspace.create c).run h t = (.ok w, t')) (i : ι) :
    ∃ trace s, Runs h c snippet t trace s ∧ s.tree = t' ∧
      s.handlers i = .working (Run.compileIn c w (snippet i)) := by
  obtain ⟨trace, hcreated⟩ := runs_creation h c snippet t
  rw [hmade] at hcreated
  exact ⟨_, _, hcreated.step (.enter (i := i) rfl rfl), rfl, State.at_self _ i _⟩

/-- A run that compiles one snippet makes the workspace and then carries out one plan. -/
theorem run_compile (h : Host) (c : Config) (s : Snippet) (t : FileTree) :
    ((Run.start c).compile s.text).run h t =
      match (Workspace.create c).run h t with
      | (.error e, t') => ((.error e, ⟨c, some (.error e)⟩), t')
      | (.ok w, t') => (((((Run.compileIn c w s).run h t').1, ⟨c, some (.ok w)⟩)),
          ((Run.compileIn c w s).run h t').2) := by
  have hworkspace : (Run.start c).workspace.run h t =
      ((((Workspace.create c).run h t).1, ⟨c, some ((Workspace.create c).run h t).1⟩),
        ((Workspace.create c).run h t).2) := by
    change (Workspace.create c >>= _).run h t = _
    rw [Plan.run_bind]
    rfl
  unfold Run.compile
  rw [Snippet.ofText_text]
  dsimp only
  rw [Plan.run_bind, hworkspace]
  rcases (Workspace.create c).run h t with ⟨e | w, t'⟩
  · rfl
  · dsimp only
    rw [Plan.run_bind]
    rfl

/-- A run that compiles one snippet is a run of one handler. -/
theorem runs_compile (hspares : SparesSources h c) (snippet : ι → Snippet) (t : FileTree) (i : ι) :
    ∃ trace s, Runs h c snippet t trace s ∧
      s.tree = (((Run.start c).compile (snippet i).text).run h t).2 ∧
      s.handlers i = .returned (((Run.start c).compile (snippet i).text).run h t).1.1 := by
  rw [run_compile]
  rcases hmade : (Workspace.create c).run h t with ⟨e | w, t'⟩
  · obtain ⟨trace, hcreated⟩ := runs_creation h c snippet t
    rw [hmade] at hcreated
    exact ⟨_, _, hcreated.step (.fail (i := i) rfl rfl), rfl, State.at_self _ i _⟩
  · obtain ⟨trace, s, hruns, rfl, hworking⟩ := runs_entered snippet hmade i
    dsimp only
    exact hruns.alone hspares _ hworking

/-- A call of a handler is answered. -/
theorem Runs.asked {p : Plan (Except Error Compiled)} {call : Call}
    {next : call.Answer → Plan (Except Error Compiled)} {answer : call.Answer} {t' : FileTree}
    (hruns : Runs h c snippet t trace s) (hworking : s.handlers i = .working p)
    (hask : p = .ask call next) (hcall : ¬ call.Starts) (hanswer : h.answer s.tree call = (answer, t')) :
    ∃ trace' s', Runs h c snippet t trace' s' ∧ s'.tree = t' ∧
      s'.handlers i = .working (next answer) := by
  subst hask
  have hasked := hruns.step (.ask hworking hcall)
  rw [hanswer] at hasked
  exact ⟨_, _, hasked, rfl, State.at_self _ i _⟩

/-- A handler that can write its text and finds a program starts it. -/
theorem Runs.started {w : Workspace} {program : String} {t' : FileTree}
    (hruns : Runs h c snippet t trace s)
    (hworking : s.handlers i = .working (Run.compileIn c w (snippet i)))
    (hwrite : h.answer s.tree (Run.writing w (snippet i)) = ((.ok () : Except Fault Unit), t'))
    (hlocate : t'.locate h.current h.search c.executable = some program) :
    ∃ trace' s', Runs h c snippet t trace' s' ∧ .started i t' ∈ trace' := by
  obtain ⟨next, hfirst, next', hsecond, hthird⟩ :
      ∃ next : Except Fault Unit → Plan (Except Error Compiled),
        Run.compileIn c w (snippet i) = .ask (Run.writing w (snippet i)) next ∧
        ∃ next' : Option String → Plan (Except Error Compiled),
          next (.ok ()) = .ask (.locate c.executable) next' ∧
          ∀ program, ∃ next'',
            next' (some program) = .ask (.execute program w.root c.timeout) next'' :=
    ⟨_, rfl, _, rfl, fun _ => ⟨_, rfl⟩⟩
  obtain ⟨trace₁, s₁, hruns₁, rfl, hworking₁⟩ := hruns.asked hworking hfirst id hwrite
  have hanswer : h.answer s₁.tree (.locate c.executable) =
      ((some program : Option String), s₁.tree) := by
    rw [← hlocate]
    rfl
  obtain ⟨trace₂, s₂, hruns₂, htree, hworking₂⟩ := hruns₁.asked hworking₁ hsecond id hanswer
  obtain ⟨next'', hstart⟩ := hthird program
  rw [hstart] at hworking₂
  rw [← htree]
  exact ⟨_, _, hruns₂.step (.start hworking₂), List.mem_append_right _ List.mem_cons_self⟩

end Handlers

end EmbeddedSolidity
