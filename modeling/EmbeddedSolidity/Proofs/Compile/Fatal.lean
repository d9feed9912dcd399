import EmbeddedSolidity.Proofs.Compile.Teardown

/-!
# The fatal failure of a report

A compilation is cut short at a snippet that fails fatally. The report does not note which failure that
was: it names the first one of a fatal kind. No failure before the run is cut short is of this kind, so
the right one is named then. But a workspace that cannot be removed is a failure of this kind too, and
that one is named if every file and every snippet has been tried.

* `Compile.Account.CutAt` : the run was cut short at an attempt;
* `Compile.Account.Sound.fatal?_of_aborted`, `fatal?_of_going` : what the report of a run names;
* `compileSources_fatal_iff` : when it names what cut the run short, and only that.
-/

namespace EmbeddedSolidity

open FileSystem

namespace Report

variable {r : Report} {d : Diagnostic} {e : Error}

/-- All failures of a fatal kind are one. -/
theorem fatal?_eq_some (hmem : d ∈ r.diagnostics) (hd : d.error = e) (hfatal : e.isFatal = true)
    (honly : ∀ d ∈ r.diagnostics, d.error.isFatal = true → d.error = e) : r.fatal? = some e := by
  unfold fatal?
  cases hfound : (r.diagnostics.map (·.error)).find? Error.isFatal with
  | none =>
    have hnot := List.find?_eq_none.1 hfound e (List.mem_map.2 ⟨d, hmem, hd⟩)
    exact absurd hfatal hnot
  | some e' =>
    obtain ⟨d', hmem', rfl⟩ := List.mem_map.1 (List.mem_of_find?_eq_some hfound)
    rw [honly d' hmem' (List.find?_some hfound)]

theorem fatal?_eq_none (hnone : ∀ d ∈ r.diagnostics, d.error.isFatal = false) :
    r.fatal? = none := by
  refine List.find?_eq_none.2 fun e he => ?_
  obtain ⟨d, hd, rfl⟩ := List.mem_map.1 he
  rw [hnone d hd]
  exact Bool.false_ne_true

/-- A failure that is added is named only if there was none to name. -/
theorem fatal?_addDiagnostic (hfatal : d.error.isFatal = true) :
    (r.addDiagnostic d).fatal? = some (r.fatal?.getD d.error) := by
  unfold fatal? addDiagnostic
  rw [List.map_append, List.find?_append]
  cases (r.diagnostics.map (·.error)).find? Error.isFatal with
  | none => exact List.find?_cons_of_pos hfatal
  | some e => rfl

end Report

/-- The failure to end a run is one of the workspace. -/
theorem Run.gives_finish (r : Run) : r.finish.Gives fun result => ∀ e, result = .error e →
    e.OfWorkspace := by
  have hdestroy : ∀ w : Workspace, w.destroy.Gives fun result => ∀ e, result = .error e →
      e.OfWorkspace := by
    refine fun w log result he => ⟨fun _ _ => trivial, fun e herror => ?_⟩
    obtain ⟨_, -, ⟨hok, -⟩ | ⟨f, hf⟩⟩ := Compile.ends_destroy he
    · rw [hok] at herror
      cases herror
    · rw [hf] at herror
      exact ⟨w.root, f.text, (Except.error.inj herror).symm⟩
  refine Plan.always_bind (Plan.gives_any _) fun out _ => ?_
  split
  · exact hdestroy _
  · dsimp only
    split
    · exact hdestroy _
    · refine Plan.always_bind (Plan.gives_any _) fun known _ => ?_
      split
      · exact hdestroy _
      · exact Plan.always_pure nofun

namespace Compile

variable {c : Config} {a : Account} {paths : List String} {d : Diagnostic} {e : Error}

/-- The run was cut short at this attempt: it is the last one, and it failed fatally. Its failure
stands in the report at the place of its snippet. -/
structure Account.CutAt (a : Account) (x : Attempt) (e : Error) : Prop where
  aborted : a.aborted = true
  last : ∃ before, a.attempts = before ++ [x]
  result : x.result = .error e
  fatal : e.isFatal = true
  located : .located x.found.location e ∈ a.report.diagnostics

namespace Account.CutAt

variable {x y : Attempt} {e' : Error}

theorem not_going (hcut : a.CutAt x e) : ¬ a.aborted = false := by
  rw [hcut.aborted]
  exact Bool.noConfusion

/-- There is one last attempt, and it has one result. -/
theorem error_eq (hx : a.CutAt x e) (hy : a.CutAt y e') : e = e' := by
  obtain ⟨before, heq⟩ := hx.last
  obtain ⟨before', heq'⟩ := hy.last
  obtain ⟨-, hxy⟩ := List.append_inj' (heq.symm.trans heq') rfl
  cases hxy
  exact Except.error.inj (hx.result.symm.trans hy.result)

end Account.CutAt

theorem Attempt.mem_diagnostics {x : Attempt} :
    d ∈ x.diagnostics ↔ x.result = .error d.error ∧ d = .located x.found.location d.error := by
  unfold diagnostics
  cases x.result with
  | ok compiled => exact ⟨fun hd => (by cases hd), fun hd => (by cases hd.1)⟩
  | error e =>
    rw [List.mem_singleton]
    constructor
    · rintro rfl
      exact ⟨rfl, rfl⟩
    · rintro ⟨he, hd⟩
      rwa [Except.error.inj he]

/-- Failures of attempts are reported. -/
theorem Account.mem_gathered {x : Attempt} (hx : x ∈ a.attempts) (hd : d ∈ x.diagnostics) :
    d ∈ a.gathered.diagnostics := by
  obtain ⟨v, hv, hx⟩ := List.mem_flatMap.1 hx
  refine List.mem_append_right _ (List.mem_flatMap.2 ⟨v, hv, ?_⟩)
  exact List.mem_append_right _ (List.mem_flatMap.2 ⟨x, hx, hd⟩)

theorem Account.mem_report_of_gathered (hd : d ∈ a.gathered.diagnostics) :
    d ∈ a.report.diagnostics :=
  List.mem_append_left _ hd

namespace Account.Sound

/-- Before the end of the run only attempts fail fatally: what is wrong with paths and files is not
fatal. -/
theorem exists_attempt_of_fatal (hsound : a.Sound c paths) (hd : d ∈ a.gathered.diagnostics)
    (hfatal : d.error.isFatal = true) : ∃ x ∈ a.attempts, x.result = .error d.error := by
  rcases List.mem_append.1 hd with hcollected | hvisited
  · obtain ⟨path, message, rfl⟩ := hsound.unreadable d hcollected
    cases hfatal
  · obtain ⟨v, hv, hd⟩ := List.mem_flatMap.1 hvisited
    rcases List.mem_append.1 hd with hrejected | hattempted
    · unfold Visit.rejected at hrejected
      split at hrejected
      · next scan hscan =>
        obtain ⟨_, _, _, rfl⟩ := (hsound.places v hv scan hscan).rejected d hrejected
        cases hfatal
      · next e hscan =>
        obtain rfl := List.mem_singleton.1 hrejected
        obtain ⟨message, rfl⟩ := hsound.unscanned v hv e hscan
        cases hfatal
    · obtain ⟨x, hx, hd⟩ := List.mem_flatMap.1 hattempted
      exact ⟨x, List.mem_flatMap.2 ⟨v, hv, hx⟩, (Attempt.mem_diagnostics.1 hd).1⟩

/-- Nothing that is gathered in a run that goes on to its end is fatal. -/
theorem fatal?_gathered_of_going (hsound : a.Sound c paths) (hgoing : a.aborted = false) :
    a.gathered.fatal? = none := by
  refine Report.fatal?_eq_none fun d hd => Bool.eq_false_iff.2 fun hfatal => ?_
  obtain ⟨x, hx, hresult⟩ := hsound.exists_attempt_of_fatal hd hfatal
  exact hsound.stops.going hgoing x hx ⟨_, hresult, hfatal⟩

/-- In a run that was cut short the failure of the last attempt is the only one that is fatal. -/
theorem fatal?_gathered_of_aborted (hsound : a.Sound c paths) (haborted : a.aborted = true) :
    ∃ x e, a.CutAt x e ∧ a.gathered.fatal? = some e := by
  obtain ⟨before, x, hattempts, hbefore, e, hresult, hfatal⟩ := hsound.stops.last haborted
  have hx : x ∈ a.attempts := by
    rw [hattempts]
    exact List.mem_append_right _ List.mem_cons_self
  have hmem : .located x.found.location e ∈ a.gathered.diagnostics :=
    Account.mem_gathered hx (Attempt.mem_diagnostics.2 ⟨hresult, rfl⟩)
  refine ⟨x, e, ⟨haborted, ⟨before, hattempts⟩, hresult, hfatal,
    Account.mem_report_of_gathered hmem⟩, ?_⟩
  refine Report.fatal?_eq_some hmem rfl hfatal fun d hd hdfatal => ?_
  obtain ⟨y, hy, hyresult⟩ := hsound.exists_attempt_of_fatal hd hdfatal
  rw [hattempts, List.mem_append, List.mem_singleton] at hy
  rcases hy with hy | rfl
  · exact absurd ⟨_, hyresult, hdfatal⟩ (hbefore y hy)
  · exact Except.error.inj (hyresult.symm.trans hresult)

/-- The failure that the report names: that of the gathered ones, and if there is none the failure
of the end of the run. -/
theorem fatal?_report (hsound : a.Sound c paths) : a.report.fatal? =
    match a.ending with
    | .ok () => a.gathered.fatal?
    | .error e => some (a.gathered.fatal?.getD e) := by
  cases hending : a.ending with
  | ok u => rw [Account.report_of_ok hending]
  | error e =>
    have hfatal : e.isFatal = true :=
      ((Run.gives_finish _ _ _ hsound.finishes).2 e hending).isFatal
    rw [Account.report_of_error hending]
    exact Report.fatal?_addDiagnostic hfatal

/-- Of a run that was cut short the report names the failure that did it. -/
theorem fatal?_of_aborted (hsound : a.Sound c paths) (haborted : a.aborted = true) :
    a.report.fatal? = some e ↔ ∃ x, a.CutAt x e := by
  obtain ⟨x, e', hcut, hgathered⟩ := hsound.fatal?_gathered_of_aborted haborted
  have hnamed : a.report.fatal? = some e' := by
    rw [hsound.fatal?_report, hgathered]
    cases a.ending <;> rfl
  rw [hnamed]
  constructor
  · intro he
    cases he
    exact ⟨x, hcut⟩
  · rintro ⟨y, hy⟩
    rw [hcut.error_eq hy]

/-- Of a run that went on to its end it names the failure to remove the workspace. -/
theorem fatal?_of_going (hsound : a.Sound c paths) (hgoing : a.aborted = false) :
    a.report.fatal? = some e ↔ a.ending = .error e := by
  rw [hsound.fatal?_report, hsound.fatal?_gathered_of_going hgoing]
  cases a.ending with
  | ok u => exact ⟨fun he => (by cases he), fun he => (by cases he)⟩
  | error e' =>
    change some e' = some e ↔ _
    rw [Option.some.injEq, Except.error.injEq]

/-- What the report of a run names, if anything. -/
theorem fatal?_eq_some_iff (hsound : a.Sound c paths) : a.report.fatal? = some e ↔
    (∃ x, a.CutAt x e) ∨ a.aborted = false ∧ a.ending = .error e := by
  cases haborted : a.aborted with
  | true =>
    rw [hsound.fatal?_of_aborted haborted]
    exact (or_iff_left fun h => Bool.false_ne_true h.1.symm).symm
  | false =>
    rw [hsound.fatal?_of_going haborted, or_iff_right fun ⟨x, hcut⟩ => hcut.not_going haborted,
      and_iff_right rfl]

end Account.Sound

end Compile

open Compile in
/-- The report names a failure as the fatal one if it cut the run short, or if nothing did and the
workspace could not be removed. So it names what cut the run short, and only that, exactly if a run
that went through all files and snippets could remove its workspace. -/
theorem compileSources_fatal_iff {temporary : String} {o : Options} {c : Config}
    {paths : List String} {log : List Exchange} {r : Report} (hresolve : o.resolve temporary = .ok c)
    (he : Plan.Ends (compileSources temporary o paths) log (.ok r)) :
    ∃ a : Account, r = a.report ∧ log = a.log ∧ a.Sound c paths ∧
      (∀ e, r.fatal? = some e ↔ (∃ x, a.CutAt x e) ∨ a.aborted = false ∧ a.ending = .error e) ∧
      ((∀ e, r.fatal? = some e ↔ ∃ x, a.CutAt x e) ↔ a.aborted = true ∨ a.ending = .ok ()) := by
  obtain ⟨a, hreport, rfl, hsound⟩ := ends_compileSources hresolve he
  obtain rfl : r = a.report := Except.ok.inj hreport
  refine ⟨a, rfl, rfl, hsound, fun e => hsound.fatal?_eq_some_iff, ?_⟩
  cases haborted : a.aborted with
  | true => exact ⟨fun _ => Or.inl rfl, fun _ e => hsound.fatal?_of_aborted haborted⟩
  | false =>
    constructor
    · intro hnames
      cases hending : a.ending with
      | ok u => exact Or.inr rfl
      | error e =>
        obtain ⟨x, hcut⟩ := (hnames e).1 ((hsound.fatal?_of_going haborted).2 hending)
        exact absurd haborted hcut.not_going
    · rintro (htrue | hok) e
      · cases htrue
      · rw [hsound.fatal?_of_going haborted, hok]
        exact ⟨fun he => (by cases he), fun ⟨x, hcut⟩ => absurd haborted hcut.not_going⟩

/-- A source file with a blank snippet and two others, and a file in the place of the workspace. -/
def barredRoot : FileTree :=
  ⟨[(["a.rs"], .file "sol!(\"\");sol!(\"A\");sol!(\"B\");".toUTF8 false),
    (["w"], .file ByteArray.empty false)]⟩

open Compile in
theorem compileSources_fatal_iff_barredRoot :
    Options.resolve "/tmp" { workspace := some "w" } = .ok (Run.rooted "w") ∧
      ∃ r, Plan.Ends compileOne (compileOne.log Workspace.bare barredRoot) (.ok r) ∧
        ∃ (a : Account) (x : Attempt), r = a.report ∧ a.Sound (Run.rooted "w") ["a.rs"] ∧
          r.fatal? = some (Workspace.notDirectory "w") ∧ a.CutAt x (Workspace.notDirectory "w") := by
  have hends := Plan.ends_log Workspace.bare compileOne barredRoot
  -- All that is reported has a place, so nothing is reported of the end of the run.
  have hrun : (compileOne.run Workspace.bare barredRoot).1.toOption.map (fun r =>
      (r.fatal?, r.diagnostics.all (·.location.isSome))) =
        some (some (Workspace.notDirectory "w"), true) := by
    decide +kernel
  generalize (compileOne.run Workspace.bare barredRoot).1 = result at hends hrun
  cases result with
  | error e => cases hrun
  | ok r =>
    obtain ⟨hfatal, hplaces⟩ := Prod.mk.inj (Option.some.inj hrun)
    obtain ⟨a, rfl, -, hsound, hnames, -⟩ := compileSources_fatal_iff
      (o := { workspace := some "w" }) (c := Run.rooted "w") rfl hends
    rcases (hnames _).1 hfatal with ⟨x, hcut⟩ | ⟨-, hending⟩
    · exact ⟨rfl, a.report, hends, a, x, rfl, hsound, hfatal, hcut⟩
    · rw [Account.report_of_error hending] at hplaces
      have hplace := List.all_eq_true.1 hplaces _ (List.mem_append_right _ List.mem_cons_self)
      cases hplace

open Compile in
/-- Every file and every snippet has been tried when the workspace is to be removed and a file is in its
place: the report names that failure as if it had cut the run short. -/
theorem teardown_named_fatal : ∃ (a : Account) (e : Error),
    a.Sound (Run.rooted "w") ["a.rs"] ∧
      (compileOne.run replacing oneSource).1 = .ok a.report ∧ a.report.fatal? = some e ∧
        a.aborted = false ∧ ¬ ∃ x, a.CutAt x e := by
  obtain ⟨a, hreport, -, hsound⟩ := ends_compileSources (o := { workspace := some "w" })
    (c := Run.rooted "w") rfl (Plan.ends_log replacing compileOne oneSource)
  -- No failure that has a place is fatal.
  have hrun : (compileOne.run replacing oneSource).1.toOption.map (fun r =>
      (r.fatal?, r.diagnostics.all fun d => d.location.isNone || !d.error.isFatal)) =
        some (some (.workspace "w" Fault.notDirectory.text), true) := by
    decide +kernel
  rw [hreport] at hrun
  obtain ⟨hfatal, hplaces⟩ := Prod.mk.inj (Option.some.inj hrun)
  have hnot : ∀ x e, ¬ a.CutAt x e := by
    intro x e hcut
    have hplace := List.all_eq_true.1 hplaces _ hcut.located
    change (false || !e.isFatal) = true at hplace
    rw [hcut.fatal] at hplace
    cases hplace
  refine ⟨a, _, hsound, hreport, hfatal, Bool.eq_false_iff.2 fun haborted => ?_, fun ⟨x, hcut⟩ =>
    hnot x _ hcut⟩
  obtain ⟨x, e, hcut, -⟩ := hsound.fatal?_gathered_of_aborted haborted
  exact hnot x e hcut

end EmbeddedSolidity
