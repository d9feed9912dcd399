import EmbeddedSolidity.Compile
import EmbeddedSolidity.Proofs.Run.Handlers
import EmbeddedSolidity.Proofs.Run.Outcome
import EmbeddedSolidity.Proofs.Run.Session
import EmbeddedSolidity.Proofs.Scan.Snippets
import EmbeddedSolidity.Proofs.Workspace.Refusal

/-!
# Accounts of compilations

An account tells, file by file and snippet by snippet, what a compilation met, with the calls that
it made for each. The report and the log of a compilation are those of a sound account : each file
that was collected is visited in order, each of its snippets is tried in order and leaves one record,
and nothing comes behind the first fatal failure but the end of the run. However snippets are found
in files, the runs are exactly those that accounts tell of.

* `Compile.Tried`, `Compile.Walked` : the attempts at snippets and the visits of files, in order;
* `Compile.Served` : attempts that share one workspace;
* `Compile.ends_reportBy_iff` : runs and accounts, with any scanner;
* `Compile.ends_report` : a compilation has an account;
* `Compile.Walked.order` : files are visited and snippets are tried in order, each once;
* `compileSources_account` : so has the report of files and directories.
-/

namespace EmbeddedSolidity

open FileSystem
open Collect (Collected)

/-! ## Run-level errors of files -/

/-- The failure is that of a path that could not be read. -/
def Diagnostic.OfPath (d : Diagnostic) : Prop :=
  ∃ path message, d = .ofRun (.scan path message)

namespace Collect

/-- What is collected behind something else. -/
theorem always_append {p : Plan Collected} {found : Collected}
    (hp : p.Always Call.Looks fun more => ∀ d ∈ more.diagnostics, d.OfPath)
    (hfound : ∀ d ∈ found.diagnostics, d.OfPath) :
    (do return found.append (← p)).Always Call.Looks
      fun all : Collected => ∀ d ∈ all.diagnostics, d.OfPath :=
  Plan.always_bind hp fun _ hmore => Plan.always_pure (List.forall_mem_append.2 ⟨hfound, hmore⟩)

theorem always_entries {enter : String → Plan Collected} {directory : String}
    (henter : ∀ path, (enter path).Always Call.Looks
      fun found => ∀ d ∈ found.diagnostics, d.OfPath)
    (names : List String) :
    (entries enter directory names).Always Call.Looks
      fun found => ∀ d ∈ found.diagnostics, d.OfPath := by
  induction names with
  | nil => exact Plan.always_pure (List.forall_mem_nil _)
  | cons name rest ih =>
    have hnone : (pure {} : Plan Collected).Always Call.Looks
        fun found => ∀ d ∈ found.diagnostics, d.OfPath :=
      Plan.always_pure (List.forall_mem_nil _)
    refine Plan.always_bind (Plan.always_call (c := .isDirectory _) trivial) fun isDirectory _ => ?_
    dsimp only
    split
    · split
      · exact Plan.always_bind hnone fun _ => always_append ih
      · exact Plan.always_bind (henter _) fun _ => always_append ih
    · exact Plan.always_bind (Plan.always_pure (List.forall_mem_nil _)) fun _ => always_append ih

theorem always_below (depth : Nat) (directory : String) :
    (below depth directory).Always Call.Looks
      fun found => ∀ d ∈ found.diagnostics, d.OfPath := by
  induction depth generalizing directory with
  | zero => exact Plan.always_pure (List.forall_mem_nil _)
  | succ depth ih =>
    refine Plan.always_bind (Plan.always_call (c := .list _) trivial) fun listed _ => ?_
    split
    · exact Plan.always_pure (List.forall_mem_singleton.2 ⟨directory, _, rfl⟩)
    · exact always_entries ih _

theorem always_all (paths : List String) :
    (all paths).Always Call.Looks fun found => ∀ d ∈ found.diagnostics, d.OfPath := by
  induction paths with
  | nil => exact Plan.always_pure (List.forall_mem_nil _)
  | cons path rest ih =>
    refine Plan.always_bind (Plan.always_call (c := .isDirectory _) trivial) fun isDirectory _ => ?_
    dsimp only
    split
    · exact Plan.always_bind (always_below _ _) fun _ => always_append ih
    · exact Plan.always_bind (Plan.always_pure (List.forall_mem_nil _)) fun _ => always_append ih

end Collect

/-- Collecting only looks at the tree, and reports paths only. -/
theorem always_collect (paths : List String) :
    (collect paths).Always Call.Looks fun found => ∀ d ∈ found.diagnostics, d.OfPath :=
  Plan.always_bind (Collect.always_all paths) fun _ hfound => Plan.always_pure hfound

namespace Scan

/-- A scan of the file : the failures are those of its places, and so are the snippets. -/
structure IsOf (file : String) (scan : Scan) : Prop where
  rejected : ∀ d ∈ scan.rejected, ∃ line column message,
    d = .located ⟨file, line, column⟩ (.scan file message)
  snippets : ∀ s ∈ scan.snippets, s.location.file = file

theorem isOf_of_ofSource {file source : String} {scan : Scan}
    (hscan : ofSource file source = .ok scan) : scan.IsOf file := by
  unfold ofSource at hscan
  split at hscan
  · cases hscan
  · split at hscan
    · cases hscan
    · cases hscan
      rw [foldl_add]
      refine ⟨fun d hd => ?_, fun s hs => ?_⟩
      · obtain ⟨⟨naming, i⟩, -, hrejection⟩ := List.mem_filterMap.1 hd
        unfold rejection? at hrejection
        split at hrejection
        · cases hrejection
        · split at hrejection
          · cases hrejection
          · cases hrejection
            exact ⟨_, _, _, rfl⟩
      · obtain ⟨⟨naming, i⟩, -, hsnippet⟩ := List.mem_filterMap.1 hs
        unfold snippet? at hsnippet
        split at hsnippet
        · cases hsnippet
          rfl
        · cases hsnippet

/-- A file is read and scanned, or the failure is that of the file. -/
theorem always_ofFile (file : String) : (ofFile file).Always Call.Looks fun r =>
    (∀ e, r = .error e → ∃ message, e = .scan file message) ∧ ∀ scan, r = .ok scan → scan.IsOf file := by
  refine Plan.always_bind (Plan.always_readText trivial) fun text _ => ?_
  split
  · refine Plan.always_pure ⟨fun e he => ?_, fun scan hscan => isOf_of_ofSource hscan⟩
    unfold ofSource at he
    split at he
    · exact ⟨_, (Except.error.inj he).symm⟩
    · split at he
      · exact ⟨_, (Except.error.inj he).symm⟩
      · cases he
  · exact Plan.always_pure ⟨fun e he => ⟨_, (Except.error.inj he).symm⟩, nofun⟩

end Scan

/-! ## Reports with more -/

namespace Report

/-- A report with more artifacts and more failures. -/
def extend (r : Report) (artifacts : List LocatedArtifact) (diagnostics : List Diagnostic) : Report :=
  ⟨r.artifacts ++ artifacts, r.diagnostics ++ diagnostics⟩

theorem extend_nil (r : Report) : r.extend [] [] = r := by
  simp [extend]

theorem extend_extend (r : Report) (artifacts more : List LocatedArtifact)
    (diagnostics others : List Diagnostic) : (r.extend artifacts diagnostics).extend more others =
      r.extend (artifacts ++ more) (diagnostics ++ others) := by
  simp [extend]

theorem addArtifact_eq_extend (r : Report) (location : Location) (compiled : Compiled) :
    r.addArtifact location compiled = r.extend [⟨location, compiled⟩] [] := by
  simp [addArtifact, extend]

theorem addDiagnostic_eq_extend (r : Report) (d : Diagnostic) :
    r.addDiagnostic d = r.extend [] [d] := by
  simp [addDiagnostic, extend]

end Report

namespace Compile

/-! ## Accounts -/

/-- A snippet that was tried, with the calls for it. -/
structure Attempt where
  found : FoundSnippet
  result : Except Error Compiled
  log : List Exchange

namespace Attempt

/-- The attempt failed and ended the run. -/
def Fatal (x : Attempt) : Prop :=
  ∃ e, x.result = .error e ∧ e.isFatal = true

/-- The artifact of an attempt, at the place of its snippet. -/
def artifacts (x : Attempt) : List LocatedArtifact :=
  match x.result with
  | .ok compiled => [⟨x.found.location, compiled⟩]
  | .error _ => []

/-- The failure of an attempt, at the place of its snippet. -/
def diagnostics (x : Attempt) : List Diagnostic :=
  match x.result with
  | .ok _ => []
  | .error e => [.located x.found.location e]

/-- The attempt at a blank snippet: it is refused without a call. -/
def ofBlank (s : FoundSnippet) : Attempt :=
  ⟨s, .error (Snippet.blankError s.text), []⟩

/-- A blank snippet does not end the run. -/
theorem not_fatal_ofBlank (s : FoundSnippet) : ¬ (ofBlank s).Fatal := by
  rintro ⟨e, he, hfatal⟩
  cases he
  cases hfatal

end Attempt

/-- A file that was visited, with the calls to read it and the attempts at its snippets. -/
structure Visit where
  file : String
  scan : Except Error Scan
  reading : List Exchange
  attempts : List Attempt

namespace Visit

/-- What is wrong with the file itself. -/
def rejected (v : Visit) : List Diagnostic :=
  match v.scan with
  | .ok scan => scan.rejected
  | .error e => [.ofRun e]

def artifacts (v : Visit) : List LocatedArtifact :=
  v.attempts.flatMap Attempt.artifacts

/-- What is wrong with the file comes before the failures of its snippets. -/
def diagnostics (v : Visit) : List Diagnostic :=
  v.rejected ++ v.attempts.flatMap Attempt.diagnostics

def log (v : Visit) : List Exchange :=
  v.reading ++ v.attempts.flatMap Attempt.log

end Visit

/-- Snippets are tried in order; the flag tells whether an attempt ended the run. -/
inductive Tried : List FoundSnippet → List Attempt → Bool → Prop where
  | nil : Tried [] [] false
  | fatal {x : Attempt} (rest : List FoundSnippet) : x.Fatal → Tried (x.found :: rest) [x] true
  | next {x : Attempt} {rest : List FoundSnippet} {xs : List Attempt} {aborted : Bool} :
    ¬ x.Fatal → Tried rest xs aborted → Tried (x.found :: rest) (x :: xs) aborted

/-- Files are visited in order; the flag tells whether an attempt ended the run. -/
inductive Walked : List String → List Visit → Bool → Prop where
  | nil : Walked [] [] false
  | unscanned {v : Visit} {e : Error} {rest : List String} {vs : List Visit} {aborted : Bool} :
    v.scan = .error e → v.attempts = [] → Walked rest vs aborted →
    Walked (v.file :: rest) (v :: vs) aborted
  | fatal {v : Visit} {scan : Scan} (rest : List String) : v.scan = .ok scan →
    Tried scan.snippets v.attempts true → Walked (v.file :: rest) [v] true
  | next {v : Visit} {scan : Scan} {rest : List String} {vs : List Visit} {aborted : Bool} :
    v.scan = .ok scan → Tried scan.snippets v.attempts false → Walked rest vs aborted →
    Walked (v.file :: rest) (v :: vs) aborted

/-- Attempts one after the other, from what had become of the workspace before to what has become of
it after. -/
inductive Served (c : Config) : Option (Except Error Workspace) → List Attempt →
    Option (Except Error Workspace) → Prop where
  | nil (made : Option (Except Error Workspace)) : Served c made [] made
  | cons {made made' last : Option (Except Error Workspace)} {x : Attempt} {xs : List Attempt} :
    Run.Took c x.found.text made x.log x.result made' → Served c made' xs last →
    Served c made (x :: xs) last

/-- What a compilation met, from the collection of the files to the end of the run. -/
structure Account where
  collected : Collected
  collecting : List Exchange
  visits : List Visit
  /-- An attempt ended the run. -/
  aborted : Bool
  /-- What became of the workspace before the end of the run. -/
  made : Option (Except Error Workspace)
  ending : Except Error Unit
  closing : List Exchange

namespace Account

def attempts (a : Account) : List Attempt :=
  a.visits.flatMap Visit.attempts

/-- The failure of the end of the run. -/
def teardown (a : Account) : List Diagnostic :=
  match a.ending with
  | .ok _ => []
  | .error e => [.ofRun e]

/-- What was collected comes first and the end of the run last. -/
def report (a : Account) : Report where
  artifacts := a.visits.flatMap Visit.artifacts
  diagnostics := a.collected.diagnostics ++ a.visits.flatMap Visit.diagnostics ++ a.teardown

def log (a : Account) : List Exchange :=
  a.collecting ++ a.visits.flatMap Visit.log ++ a.closing

end Account

/-! ## The loops -/

/-- The loop over files, with any scanner. -/
def filesBy (scan : String → Plan (Except Error Scan)) : List String → Progress → Plan Progress
  | [], p => return p
  | file :: rest, p => do
    match ← scan file with
    | .error e => filesBy scan rest { p with report := p.report.addDiagnostic (.ofRun e) }
    | .ok found =>
      let report := found.rejected.foldl Report.addDiagnostic p.report
      let p ← snippets found.snippets { p with report }
      if p.aborted then return p else filesBy scan rest p

theorem files_eq_filesBy (paths : List String) (p : Progress) :
    files paths p = filesBy Scan.ofFile paths p := by
  induction paths generalizing p with
  | nil => rfl
  | cons file rest ih =>
    refine congrArg (Scan.ofFile file >>= ·) (funext fun r => ?_)
    cases r with
    | error e => exact ih _
    | ok scan =>
      dsimp only
      simp only [ih]

/-- How trying snippets leads from one point of a compilation to another. -/
structure Tries (p : Progress) (found : List FoundSnippet) (xs : List Attempt)
    (log : List Exchange) (p' : Progress) : Prop where
  tried : Tried found xs p'.aborted
  served : Served p.run.config p.run.made xs p'.run.made
  config : p'.run.config = p.run.config
  log_eq : log = xs.flatMap Attempt.log
  artifacts : p'.report.artifacts = p.report.artifacts ++ xs.flatMap Attempt.artifacts
  diagnostics : p'.report.diagnostics = p.report.diagnostics ++ xs.flatMap Attempt.diagnostics
  live : p'.aborted = false → Run.Live p'.run.made

/-- How visiting files with a scanner leads from one point of a compilation to another. -/
structure Walks (scan : String → Plan (Except Error Scan)) (p : Progress) (files : List String)
    (vs : List Visit) (log : List Exchange) (p' : Progress) : Prop where
  walked : Walked files vs p'.aborted
  scans : ∀ v ∈ vs, Plan.Ends (scan v.file) v.reading v.scan
  served : Served p.run.config p.run.made (vs.flatMap Visit.attempts) p'.run.made
  config : p'.run.config = p.run.config
  log_eq : log = vs.flatMap Visit.log
  artifacts : p'.report.artifacts = p.report.artifacts ++ vs.flatMap Visit.artifacts
  diagnostics : p'.report.diagnostics = p.report.diagnostics ++ vs.flatMap Visit.diagnostics

variable {c : Config} {p p' : Progress} {log : List Exchange}
  {made made' last : Option (Except Error Workspace)} {xs ys : List Attempt}

theorem Served.append (hxs : Served c made xs made') (hys : Served c made' ys last) :
    Served c made (xs ++ ys) last := by
  induction hxs with
  | nil => exact hys
  | cons htook _ ih => exact .cons htook (ih hys)

theorem Served.of_append (hserved : Served c made (xs ++ ys) last) :
    ∃ mid, Served c made xs mid ∧ Served c mid ys last := by
  induction xs generalizing made with
  | nil => exact ⟨made, .nil made, hserved⟩
  | cons x xs ih =>
    cases hserved with
    | cons htook hserved =>
      obtain ⟨mid, hxs, hys⟩ := ih hserved
      exact ⟨mid, .cons htook hxs, hys⟩

/-- Snippets are tried one after the other. -/
theorem tries_of_ends (found : List FoundSnippet) (he : Plan.Ends (snippets found p) log p')
    (hlive : Run.Live p.run.made) (hgoing : p.aborted = false) :
    ∃ xs, Tries p found xs log p' := by
  induction found generalizing p log with
  | nil =>
    obtain ⟨rfl, rfl⟩ := he.of_pure
    refine ⟨[], ?_, .nil _, rfl, rfl, (List.append_nil _).symm, (List.append_nil _).symm,
      fun _ => hlive⟩
    rw [hgoing]
    exact .nil
  | cons found rest ih =>
    obtain ⟨first, ⟨result, run⟩, more, rfl, hfirst, hmore⟩ := he.of_bind
    obtain ⟨hconfig, htook⟩ := Run.took_of_ends hlive hfirst
    -- Both results that let the run go on put the attempt before those at the rest.
    have hcons : ∀ {report xs}, Tries { p with run, report } rest xs more p' →
        (∀ e, result = .error e → e.isFatal = false) →
        report.artifacts = p.report.artifacts ++ (Attempt.mk found result first).artifacts →
        report.diagnostics = p.report.diagnostics ++ (Attempt.mk found result first).diagnostics →
        ∃ xs, Tries p (found :: rest) xs (first ++ more) p' := by
      intro report xs htries hresult hartifacts hdiagnostics
      have hserved := htries.served
      dsimp only at hserved
      rw [hconfig] at hserved
      refine ⟨⟨found, result, first⟩ :: xs, .next (x := ⟨found, result, first⟩) ?_ htries.tried,
        .cons htook hserved, htries.config.trans hconfig, ?_, ?_, ?_, htries.live⟩
      · rintro ⟨e, he, hfatal⟩
        rw [hresult e he] at hfatal
        cases hfatal
      · rw [htries.log_eq, List.flatMap_cons]
      · rw [htries.artifacts, hartifacts, List.flatMap_cons, List.append_assoc]
      · rw [htries.diagnostics, hdiagnostics, List.flatMap_cons, List.append_assoc]
    cases result with
    | ok compiled =>
      obtain ⟨xs, htries⟩ := ih hmore (htook.live hlive nofun) hgoing
      exact hcons htries nofun rfl (List.append_nil _).symm
    | error e =>
      dsimp only at hmore
      split at hmore
      · next hfatal =>
        obtain ⟨rfl, rfl⟩ := hmore.of_pure
        rw [List.append_nil]
        refine ⟨[⟨found, .error e, first⟩], .fatal (x := ⟨found, .error e, first⟩) rest
          ⟨e, rfl, hfatal⟩, .cons htook (.nil _), hconfig, (List.append_nil _).symm,
          (List.append_nil _).symm, rfl, nofun⟩
      · next hfatal =>
        have hresult : ∀ e', (.error e : Except Error Compiled) = .error e' → e'.isFatal = false :=
          fun e' he => by
            cases he
            simpa using hfatal
        obtain ⟨xs, htries⟩ := ih hmore (htook.live hlive hresult) hgoing
        exact hcons htries hresult (List.append_nil _).symm rfl

theorem foldl_addDiagnostic (ds : List Diagnostic) (r : Report) :
    ds.foldl Report.addDiagnostic r = r.extend [] ds := by
  induction ds generalizing r with
  | nil => exact r.extend_nil.symm
  | cons d ds ih =>
    rw [List.foldl_cons, ih, Report.addDiagnostic_eq_extend, Report.extend_extend]
    rfl

/-- Files are visited one after the other. -/
theorem walks_of_ends {scan : String → Plan (Except Error Scan)} (paths : List String)
    (he : Plan.Ends (filesBy scan paths p) log p') (hlive : Run.Live p.run.made)
    (hgoing : p.aborted = false) : ∃ vs, Walks scan p paths vs log p' := by
  induction paths generalizing p log with
  | nil =>
    obtain ⟨rfl, rfl⟩ := he.of_pure
    refine ⟨[], ?_, List.forall_mem_nil _, .nil _, rfl, rfl, (List.append_nil _).symm,
      (List.append_nil _).symm⟩
    rw [hgoing]
    exact .nil
  | cons file rest ih =>
    obtain ⟨reading, result, more, rfl, hreading, hmore⟩ := he.of_bind
    cases result with
    | error e =>
      obtain ⟨vs, hwalks⟩ := ih hmore hlive hgoing
      let v : Visit := ⟨file, .error e, reading, []⟩
      refine ⟨v :: vs, .unscanned (v := v) rfl rfl hwalks.walked,
        List.forall_mem_cons.2 ⟨hreading, hwalks.scans⟩, hwalks.served, hwalks.config, ?_,
        hwalks.artifacts, ?_⟩
      · rw [hwalks.log_eq]
        simp [v, Visit.log]
      · rw [hwalks.diagnostics]
        simp [v, Visit.diagnostics, Visit.rejected, Report.addDiagnostic]
    | ok found =>
      dsimp only at hmore
      rw [foldl_addDiagnostic] at hmore
      obtain ⟨trying, p₁, more, rfl, htrying, hmore⟩ := hmore.of_bind
      obtain ⟨xs, htries⟩ := tries_of_ends found.snippets htrying hlive hgoing
      let v : Visit := ⟨file, .ok found, reading, xs⟩
      have htried := htries.tried
      by_cases haborted : p₁.aborted = true
      · rw [if_pos haborted] at hmore
        obtain ⟨rfl, rfl⟩ := hmore.of_pure
        rw [haborted] at htried
        refine ⟨[v], ?_, List.forall_mem_singleton.2 hreading, ?_, htries.config, ?_, ?_, ?_⟩
        · rw [haborted]
          exact .fatal (v := v) rest rfl htried
        · simpa [v] using htries.served
        · simp [v, Visit.log, htries.log_eq]
        · simp [v, Visit.artifacts, htries.artifacts, Report.extend]
        · simp [v, Visit.diagnostics, Visit.rejected, htries.diagnostics, Report.extend]
      · have hfalse : p₁.aborted = false := by simpa using haborted
        rw [if_neg haborted] at hmore
        rw [hfalse] at htried
        obtain ⟨vs, hwalks⟩ := ih hmore (htries.live hfalse) hfalse
        have hserved := hwalks.served
        rw [htries.config] at hserved
        refine ⟨v :: vs, .next (v := v) rfl htried hwalks.walked,
          List.forall_mem_cons.2 ⟨hreading, hwalks.scans⟩, htries.served.append hserved,
          hwalks.config.trans htries.config, ?_, ?_, ?_⟩
        · simp [v, Visit.log, htries.log_eq, hwalks.log_eq]
        · simp [v, Visit.artifacts, htries.artifacts, hwalks.artifacts, Report.extend]
        · simp [v, Visit.diagnostics, Visit.rejected, htries.diagnostics, hwalks.diagnostics,
          Report.extend]

section Runs

variable {aborted : Bool} {scan : String → Plan (Except Error Scan)}

/-- Snippets that were tried are compiled as the attempts say. -/
theorem Tried.ends {found : List FoundSnippet} {xs : List Attempt} (htried : Tried found xs aborted)
    (hserved : Served c made xs last) (r : Report) :
    Plan.Ends (snippets found ⟨⟨c, made⟩, r, false⟩) (xs.flatMap Attempt.log)
      ⟨⟨c, last⟩, r.extend (xs.flatMap Attempt.artifacts) (xs.flatMap Attempt.diagnostics),
        aborted⟩ := by
  induction htried generalizing made r with
  | nil =>
    cases hserved
    rw [List.flatMap_nil, List.flatMap_nil, List.flatMap_nil, Report.extend_nil]
    exact .done _
  | @fatal x rest hfatal =>
    obtain ⟨found, result, log⟩ := x
    obtain ⟨e, hresult, hfatal⟩ := hfatal
    dsimp only at hresult
    subst hresult
    cases hserved with
    | cons htook hserved =>
      cases hserved
      refine htook.ends.bind ?_
      dsimp only
      rw [if_pos hfatal, Report.addDiagnostic_eq_extend]
      exact .done _
  | @next x rest xs aborted hx _ ih =>
    obtain ⟨found, result, log⟩ := x
    cases hserved with
    | cons htook hserved =>
      refine htook.ends.bind ?_
      cases result with
      | ok compiled =>
        dsimp only
        rw [Report.addArtifact_eq_extend]
        have hrest := ih hserved (r.extend [⟨found.location, compiled⟩] [])
        rwa [Report.extend_extend] at hrest
      | error e =>
        dsimp only
        rw [if_neg fun hfatal => hx ⟨e, rfl, hfatal⟩, Report.addDiagnostic_eq_extend]
        have hrest := ih hserved (r.extend [] [.located found.location e])
        rwa [Report.extend_extend] at hrest

/-- Files that were visited are scanned and compiled as the visits say. -/
theorem Walked.ends {files : List String} {vs : List Visit} (hwalked : Walked files vs aborted)
    (hscans : ∀ v ∈ vs, Plan.Ends (scan v.file) v.reading v.scan)
    (hserved : Served c made (vs.flatMap Visit.attempts) last) (r : Report) :
    Plan.Ends (filesBy scan files ⟨⟨c, made⟩, r, false⟩) (vs.flatMap Visit.log)
      ⟨⟨c, last⟩, r.extend (vs.flatMap Visit.artifacts) (vs.flatMap Visit.diagnostics),
        aborted⟩ := by
  induction hwalked generalizing made r with
  | nil =>
    cases hserved
    rw [List.flatMap_nil, List.flatMap_nil, List.flatMap_nil, Report.extend_nil]
    exact .done _
  | @unscanned v e rest vs aborted hscan hattempts _ ih =>
    obtain ⟨file, result, reading, attempts⟩ := v
    dsimp only at hscan hattempts
    subst hscan hattempts
    rw [List.forall_mem_cons] at hscans
    rw [List.flatMap_cons, show Visit.log ⟨file, .error e, reading, []⟩ = reading from
      List.append_nil _]
    refine hscans.1.bind ?_
    dsimp only
    rw [Report.addDiagnostic_eq_extend]
    have hrest := ih hscans.2 hserved (r.extend [] [.ofRun e])
    rwa [Report.extend_extend] at hrest
  | @fatal v found rest hscan htried =>
    obtain ⟨file, result, reading, attempts⟩ := v
    dsimp only at hscan htried
    subst hscan
    rw [List.forall_mem_singleton] at hscans
    rw [List.flatMap_singleton] at hserved ⊢
    rw [List.flatMap_singleton, List.flatMap_singleton]
    refine hscans.bind ?_
    dsimp only
    rw [foldl_addDiagnostic, ← List.append_nil (attempts.flatMap Attempt.log)]
    refine (htried.ends hserved _).bind ?_
    rw [if_pos rfl, Report.extend_extend]
    exact .done _
  | @next v found rest vs aborted hscan htried _ ih =>
    obtain ⟨file, result, reading, attempts⟩ := v
    dsimp only at hscan htried
    subst hscan
    rw [List.forall_mem_cons] at hscans
    rw [List.flatMap_cons] at hserved
    obtain ⟨mid, htrying, hmore⟩ := hserved.of_append
    rw [List.flatMap_cons, List.flatMap_cons, List.flatMap_cons,
      show Visit.log ⟨file, .ok found, reading, attempts⟩ = reading ++ attempts.flatMap Attempt.log
        from rfl, List.append_assoc]
    refine hscans.1.bind ?_
    dsimp only
    rw [foldl_addDiagnostic]
    refine (htried.ends htrying _).bind ?_
    rw [if_neg Bool.false_ne_true, Report.extend_extend]
    have hrest := ih hscans.2 hmore (r.extend (attempts.flatMap Attempt.artifacts)
      (found.rejected ++ attempts.flatMap Attempt.diagnostics))
    rwa [Report.extend_extend] at hrest

end Runs

/-! ## Fatal failures -/

/-- Only the last attempt may have ended the run; the flag tells whether it has. -/
structure Stops (xs : List Attempt) (aborted : Bool) : Prop where
  going : aborted = false → ∀ x ∈ xs, ¬ x.Fatal
  last : aborted = true → ∃ before x, xs = before ++ [x] ∧ (∀ y ∈ before, ¬ y.Fatal) ∧ x.Fatal

variable {aborted : Bool} {x : Attempt}

theorem Stops.cons (hx : ¬ x.Fatal) (hxs : Stops xs aborted) : Stops (x :: xs) aborted := by
  refine ⟨fun hgoing => List.forall_mem_cons.2 ⟨hx, hxs.going hgoing⟩, fun haborted => ?_⟩
  obtain ⟨before, y, rfl, hbefore, hy⟩ := hxs.last haborted
  exact ⟨x :: before, y, rfl, List.forall_mem_cons.2 ⟨hx, hbefore⟩, hy⟩

theorem Stops.append (hxs : ∀ x ∈ xs, ¬ x.Fatal) (hys : Stops ys aborted) :
    Stops (xs ++ ys) aborted := by
  induction xs with
  | nil => exact hys
  | cons x xs ih =>
    rw [List.forall_mem_cons] at hxs
    exact (ih hxs.2).cons hxs.1

/-- Nothing comes behind a fatal failure. -/
theorem Stops.nil_of_fatal (hstops : Stops (x :: xs) aborted) (hx : x.Fatal) :
    xs = [] ∧ aborted = true := by
  cases haborted : aborted with
  | false => exact absurd hx (hstops.going haborted x List.mem_cons_self)
  | true =>
    obtain ⟨before, y, heq, hbefore, -⟩ := hstops.last haborted
    cases before with
    | nil => exact ⟨(List.cons.inj heq).2, rfl⟩
    | cons z before =>
      obtain ⟨rfl, -⟩ := List.cons.inj heq
      exact absurd hx (hbefore _ List.mem_cons_self)

theorem Stops.tail (hstops : Stops (x :: xs) aborted) (hx : ¬ x.Fatal) : Stops xs aborted := by
  refine ⟨fun hgoing => (List.forall_mem_cons.1 (hstops.going hgoing)).2, fun haborted => ?_⟩
  obtain ⟨before, y, heq, hbefore, hy⟩ := hstops.last haborted
  cases before with
  | nil =>
    obtain ⟨rfl, -⟩ := List.cons.inj heq
    exact absurd hy hx
  | cons z before =>
    exact ⟨before, y, (List.cons.inj heq).2, (List.forall_mem_cons.1 hbefore).2, hy⟩

theorem Tried.stops {found : List FoundSnippet} (htried : Tried found xs aborted) :
    Stops xs aborted := by
  induction htried with
  | nil => exact ⟨fun _ => List.forall_mem_nil _, nofun⟩
  | fatal _ hx => exact ⟨nofun, fun _ => ⟨[], _, rfl, List.forall_mem_nil _, hx⟩⟩
  | next hx _ ih => exact ih.cons hx

theorem Walked.stops {files : List String} {vs : List Visit} (hwalked : Walked files vs aborted) :
    Stops (vs.flatMap Visit.attempts) aborted := by
  induction hwalked with
  | nil => exact ⟨fun _ => List.forall_mem_nil _, nofun⟩
  | unscanned _ hattempts _ ih =>
    rw [List.flatMap_cons, hattempts]
    exact ih
  | fatal _ _ htried =>
    rw [List.flatMap_singleton]
    exact htried.stops
  | next _ htried _ ih => exact ih.append (htried.stops.going rfl)

/-! ## The workspace -/

theorem Served.kept {m : Except Error Workspace} (hserved : Served c made xs last)
    (hmade : made = some m) : last = some m := by
  induction hserved with
  | nil => exact hmade
  | cons htook _ ih => exact ih (htook.kept hmade)

/-- If the workspace could not be made, the error is that of the first text that is not blank, and
nothing was tried behind that. -/
theorem Served.failed {e : Error} (hserved : Served c made xs last) (hstops : Stops xs aborted)
    (hmade : made = none) (hlast : last = some (.error e)) :
    aborted = true ∧ ∃ blanks x, xs = blanks ++ [x] ∧
      (∀ y ∈ blanks, Text.isBlank y.found.text = true) ∧
      Text.isBlank x.found.text = false ∧ Plan.Ends (Workspace.create c) x.log (.error e) ∧
      x.result = .error e := by
  induction hserved with
  | nil =>
    rw [hmade] at hlast
    cases hlast
  | @cons made made' last x xs htook hserved ih =>
    obtain ⟨found, result, log⟩ := x
    dsimp only at htook
    subst hmade
    have hfatal := htook.fatalOfWorkspace
    cases htook with
    | blank _ hblank =>
      obtain ⟨haborted, blanks, y, rfl, hblanks, hy⟩ :=
        ih (hstops.tail (Attempt.not_fatal_ofBlank found)) rfl hlast
      exact ⟨haborted, _ :: blanks, y, rfl, List.forall_mem_cons.2 ⟨hblank, hblanks⟩, hy⟩
    | @failed _ e' hblank hcreate =>
      have hworkspace : e'.OfWorkspace := ((Workspace.always_create c _ _ hcreate).2.1 e' rfl).elim
        Workspace.OfFault.ofWorkspace Workspace.Refusal.ofWorkspace
      obtain ⟨rfl, haborted⟩ := hstops.nil_of_fatal ⟨e', rfl, hworkspace.isFatal⟩
      cases hserved
      cases hlast
      exact ⟨haborted, [], _, rfl, List.forall_mem_nil _, hblank, hcreate, rfl⟩
    | first =>
      rw [hserved.kept rfl] at hlast
      cases hlast

/-- What each attempt at a snippet is known by. -/
theorem Served.forall_took (hserved : Served c made xs last) :
    ∀ x ∈ xs, ∃ before after, Run.Took c x.found.text before x.log x.result after := by
  induction hserved with
  | nil => exact List.forall_mem_nil _
  | cons htook _ ih => exact List.forall_mem_cons.2 ⟨⟨_, _, htook⟩, ih⟩

theorem Served.root (hserved : Served c made xs last)
    (hmade : ∀ w, made = some (.ok w) → w = ⟨c.root⟩) : ∀ w, last = some (.ok w) → w = ⟨c.root⟩ := by
  induction hserved with
  | nil => exact hmade
  | cons htook _ ih => exact ih (htook.root hmade)

/-- Behind a fatal failure the workspace has been needed. -/
theorem Served.made_of_fatal (hserved : Served c made xs last) (hx : ∃ x ∈ xs, x.Fatal) :
    ∃ m, last = some m := by
  induction hserved with
  | nil =>
    obtain ⟨x, hmem, -⟩ := hx
    cases hmem
  | cons htook hserved ih =>
    obtain ⟨y, hmem, hy⟩ := hx
    rcases List.mem_cons.1 hmem with rfl | hmem
    · obtain ⟨e, he, hfatal⟩ := hy
      obtain ⟨m, hm⟩ := htook.made_of_fatal he hfatal
      exact ⟨m, hserved.kept hm⟩
    · exact ih ⟨y, hmem, hy⟩

/-! ## Compilations -/

/-- An account of what a compilation of such paths can meet. -/
structure Account.Sound (c : Config) (paths : List String) (a : Account) : Prop where
  collects : Plan.Ends (collect paths) a.collecting a.collected
  unreadable : ∀ d ∈ a.collected.diagnostics, d.OfPath
  walked : Walked a.collected.files a.visits a.aborted
  scans : ∀ v ∈ a.visits, Plan.Ends (Scan.ofFile v.file) v.reading v.scan
  unscanned : ∀ v ∈ a.visits, ∀ e, v.scan = .error e → ∃ message, e = .scan v.file message
  places : ∀ v ∈ a.visits, ∀ scan, v.scan = .ok scan → scan.IsOf v.file
  stops : Stops a.attempts a.aborted
  served : Served c none a.attempts a.made
  compiled : ∀ x ∈ a.attempts, ∀ compiled, x.result = .ok compiled →
    compiled.id = .ofText x.found.text ∧
      ∃ path json, Artifact.parse compiled.id path json = .ok compiled.artifact
  fatal : ∀ x ∈ a.attempts, FatalOfWorkspace x.result
  /-- The workspace could not be made: that is the failure of the first text that is not blank. -/
  failed : ∀ e, a.made = some (.error e) → a.aborted = true ∧
    ∃ blanks x, a.attempts = blanks ++ [x] ∧ (∀ y ∈ blanks, Text.isBlank y.found.text = true) ∧
      Text.isBlank x.found.text = false ∧ Plan.Ends (Workspace.create c) x.log (.error e) ∧
      x.result = .error e
  finishes : Plan.Ends (Run.finish ⟨c, a.made⟩) a.closing a.ending
  /-- Behind a fatal failure nothing is written and no program is started. -/
  closes : a.aborted = true → ∀ x ∈ a.closing,
    x.1 = .read (Workspace.manifestPath ⟨c.root⟩) ∨ x.1 = .removeTree c.root

/-- Collect, compile and clean up, with any scanner. -/
def reportBy (scan : String → Plan (Except Error Scan)) (c : Config) (paths : List String) :
    Plan Report := do
  let collected ← collect paths
  let p ← filesBy scan collected.files
    { run := .start c, report := { diagnostics := collected.diagnostics } }
  match ← p.run.finish with
  | .ok () => return p.report
  | .error e => return p.report.addDiagnostic (.ofRun e)

theorem report_eq_reportBy (c : Config) (paths : List String) :
    report c paths = reportBy Scan.ofFile c paths := by
  unfold report reportBy
  exact bind_congr fun _ => congrArg (· >>= _) (files_eq_filesBy _ _)

/-- The account tells of a compilation with this scanner. -/
structure Account.Recounts (scan : String → Plan (Except Error Scan)) (c : Config)
    (paths : List String) (a : Account) : Prop where
  collects : Plan.Ends (collect paths) a.collecting a.collected
  walked : Walked a.collected.files a.visits a.aborted
  scans : ∀ v ∈ a.visits, Plan.Ends (scan v.file) v.reading v.scan
  served : Served c none a.attempts a.made
  finishes : Plan.Ends (Run.finish ⟨c, a.made⟩) a.closing a.ending

/-- The runs of a compilation are those that accounts tell of. -/
theorem ends_reportBy_iff {scan : String → Plan (Except Error Scan)} {paths : List String}
    {r : Report} : Plan.Ends (reportBy scan c paths) log r ↔
      ∃ a : Account, r = a.report ∧ log = a.log ∧ a.Recounts scan c paths := by
  constructor
  · intro he
    obtain ⟨collecting, collected, more, rfl, hcollect, hmore⟩ := he.of_bind
    obtain ⟨walking, p, more, rfl, hfiles, hmore⟩ := hmore.of_bind
    obtain ⟨closing, ending, rest, rfl, hfinish, hpure⟩ := hmore.of_bind
    obtain ⟨vs, hwalks⟩ := walks_of_ends collected.files hfiles nofun rfl
    have hconfig : p.run.config = c := hwalks.config
    have hrun : p.run = ⟨c, p.run.made⟩ := by rw [← hconfig]
    rw [hrun] at hfinish
    let a : Account := ⟨collected, collecting, vs, p.aborted, p.run.made, ending, closing⟩
    have hreport : p.report = ⟨vs.flatMap Visit.artifacts,
        collected.diagnostics ++ vs.flatMap Visit.diagnostics⟩ := by
      have hartifacts : p.report.artifacts = [] ++ _ := hwalks.artifacts
      have hdiagnostics : p.report.diagnostics = collected.diagnostics ++ _ := hwalks.diagnostics
      rw [List.nil_append] at hartifacts
      rw [← hartifacts, ← hdiagnostics]
    refine ⟨a, ?_, ?_, hcollect, hwalks.walked, hwalks.scans, hwalks.served, hfinish⟩
    · cases ending with
      | ok u =>
        obtain ⟨-, rfl⟩ := hpure.of_pure
        simp [a, Account.report, Account.teardown, hreport]
      | error e =>
        obtain ⟨-, rfl⟩ := hpure.of_pure
        simp [a, Account.report, Account.teardown, hreport, Report.addDiagnostic]
    · have hrest : rest = [] := by
        cases ending <;> exact hpure.of_pure.1
      rw [hrest, hwalks.log_eq]
      simp [a, Account.log]
  · rintro ⟨a, rfl, rfl, ha⟩
    have hwalking := ha.walked.ends ha.scans ha.served { diagnostics := a.collected.diagnostics }
    unfold Account.log
    rw [List.append_assoc, ← List.append_nil a.closing]
    refine ha.collects.bind (hwalking.bind (ha.finishes.bind ?_))
    unfold Account.report Account.teardown
    cases a.ending with
    | ok u =>
      rw [List.append_nil]
      exact .done _
    | error e => exact .done _

/-- An account of a compilation of source files is sound. -/
theorem Account.Recounts.sound {a : Account} {paths : List String}
    (ha : a.Recounts Scan.ofFile c paths) : a.Sound c paths := by
  have hserved : Served c none a.attempts a.made := ha.served
  have hstops : Stops a.attempts a.aborted := ha.walked.stops
  refine ⟨ha.collects, (always_collect paths _ _ ha.collects).2, ha.walked, ha.scans,
    fun v hv => (Scan.always_ofFile v.file _ _ (ha.scans v hv)).2.1,
    fun v hv => (Scan.always_ofFile v.file _ _ (ha.scans v hv)).2.2, hstops, hserved,
    fun x hx compiled hresult => ?_, fun x hx => ?_,
    fun e he => hserved.failed hstops rfl he, ha.finishes, fun haborted => ?_⟩
  · obtain ⟨_, _, htook⟩ := hserved.forall_took x hx
    exact htook.compiled hresult
  · obtain ⟨_, _, htook⟩ := hserved.forall_took x hx
    exact htook.fatalOfWorkspace
  · obtain ⟨before, x, heq, -, hx⟩ := hstops.last haborted
    obtain ⟨m, hmade⟩ := hserved.made_of_fatal ⟨x, by rw [heq]; simp, hx⟩
    exact (Run.always_finish hmade (fun w hw => hserved.root nofun w (by rw [hmade, hw])) _ _
      ha.finishes).1

/-- Every compilation has an account of its report and its log. -/
theorem ends_report {paths : List String} {r : Report} (he : Plan.Ends (report c paths) log r) :
    ∃ a : Account, r = a.report ∧ log = a.log ∧ a.Sound c paths := by
  rw [report_eq_reportBy] at he
  obtain ⟨a, hreport, hlog, ha⟩ := ends_reportBy_iff.1 he
  exact ⟨a, hreport, hlog, ha.sound⟩

/-! ## The order of files and snippets -/

/-- Snippets are tried in order, each once, and all of them unless an attempt ended the run. -/
theorem Tried.order {found : List FoundSnippet} (htried : Tried found xs aborted) :
    ∃ rest, found = xs.map Attempt.found ++ rest ∧ (aborted = false → rest = []) := by
  induction htried with
  | nil => exact ⟨[], rfl, fun _ => rfl⟩
  | fatal rest _ => exact ⟨rest, rfl, nofun⟩
  | next _ _ ih =>
    obtain ⟨rest, rfl, hrest⟩ := ih
    exact ⟨rest, rfl, hrest⟩

/-- The snippets of the file were tried in order, each once, and all of them unless an attempt ended
the run. -/
def Visit.InOrder (v : Visit) (aborted : Bool) : Prop :=
  ∀ scan, v.scan = .ok scan → ∃ rest, scan.snippets = v.attempts.map Attempt.found ++ rest ∧
    (aborted = false → rest = [])

/-- So are the files visited. -/
theorem Walked.order {files : List String} {vs : List Visit} (hwalked : Walked files vs aborted) :
    (∃ rest, files = vs.map Visit.file ++ rest ∧ (aborted = false → rest = [])) ∧
      ∀ v ∈ vs, v.InOrder aborted := by
  have hvisit : ∀ {v : Visit} {scan : Scan} {b : Bool}, v.scan = .ok scan →
      Tried scan.snippets v.attempts b → (aborted = false → b = false) → v.InOrder aborted := by
    intro v scan b hscan htried hgoing scan' hok
    rw [hscan] at hok
    cases hok
    obtain ⟨rest, heq, hrest⟩ := htried.order
    exact ⟨rest, heq, fun h => hrest (hgoing h)⟩
  induction hwalked with
  | nil => exact ⟨⟨[], rfl, fun _ => rfl⟩, List.forall_mem_nil _⟩
  | unscanned hscan _ _ ih =>
    obtain ⟨⟨rest, rfl, hrest⟩, hvisits⟩ := ih hvisit
    refine ⟨⟨rest, rfl, hrest⟩, List.forall_mem_cons.2 ⟨fun scan hok => ?_, hvisits⟩⟩
    rw [hscan] at hok
    cases hok
  | fatal rest hscan htried =>
    exact ⟨⟨rest, rfl, nofun⟩, List.forall_mem_singleton.2 (hvisit hscan htried id)⟩
  | next hscan htried _ ih =>
    obtain ⟨⟨rest, rfl, hrest⟩, hvisits⟩ := ih hvisit
    exact ⟨⟨rest, rfl, hrest⟩,
      List.forall_mem_cons.2 ⟨hvisit hscan htried fun _ => rfl, hvisits⟩⟩

/-! ## Reports without failures -/

/-- Every snippet of the file was tried. -/
def Visit.Covers (v : Visit) : Prop :=
  ∀ scan, v.scan = .ok scan → ∀ s ∈ scan.snippets, ∃ x ∈ v.attempts, x.found = s

theorem Walked.covers {files : List String} {vs : List Visit} (hwalked : Walked files vs aborted)
    (hgoing : aborted = false) : ∀ file ∈ files, ∃ v ∈ vs, v.file = file ∧ v.Covers := by
  obtain ⟨⟨rest, rfl, hrest⟩, hvisits⟩ := hwalked.order
  intro file hfile
  rw [hrest hgoing, List.append_nil] at hfile
  obtain ⟨v, hv, rfl⟩ := List.mem_map.1 hfile
  refine ⟨v, hv, rfl, fun scan hscan s hs => ?_⟩
  obtain ⟨rest, heq, hnone⟩ := hvisits v hv scan hscan
  rw [heq, hnone hgoing, List.append_nil] at hs
  exact List.mem_map.1 hs

variable {a : Account} {paths : List String}

/-- Every artifact of the report is that of an attempt, at the place of its snippet. -/
theorem Account.exists_attempt {e : LocatedArtifact} (he : e ∈ a.report.artifacts) :
    ∃ x ∈ a.attempts, x.result = .ok e.compiled ∧ x.found.location = e.location := by
  obtain ⟨v, hv, he⟩ := List.mem_flatMap.1 he
  obtain ⟨x, hx, he⟩ := List.mem_flatMap.1 he
  refine ⟨x, List.mem_flatMap.2 ⟨v, hv, hx⟩, ?_⟩
  unfold Attempt.artifacts at he
  split at he
  · next hresult =>
    obtain rfl := List.mem_singleton.1 he
    exact ⟨hresult, rfl⟩
  · cases he

/-- In a report without failures every file is scanned without rejections, and each of its snippets
has an artifact. -/
theorem Account.Sound.of_isSuccess (hsound : a.Sound c paths) (hsuccess : a.report.isSuccess = true) :
    ∀ file ∈ a.collected.files, ∃ v ∈ a.visits, v.file = file ∧ ∃ scan, v.scan = .ok scan ∧
      scan.rejected = [] ∧ ∀ s ∈ scan.snippets, ∃ e ∈ a.report.artifacts,
        e.location = s.location ∧ e.compiled.id = .ofText s.text := by
  have hnone : a.report.diagnostics = [] := List.isEmpty_iff.1 hsuccess
  obtain ⟨hleft, -⟩ := List.append_eq_nil_iff.1 hnone
  obtain ⟨-, hvisits⟩ := List.append_eq_nil_iff.1 hleft
  have hvisit : ∀ v ∈ a.visits, v.rejected = [] ∧ ∀ x ∈ v.attempts, x.diagnostics = [] := by
    intro v hv
    obtain ⟨hrejected, hattempts⟩ :=
      List.append_eq_nil_iff.1 (List.flatMap_eq_nil_iff.1 hvisits v hv)
    exact ⟨hrejected, List.flatMap_eq_nil_iff.1 hattempts⟩
  have hok : ∀ v ∈ a.visits, ∀ x ∈ v.attempts, ∃ compiled, x.result = .ok compiled := by
    intro v hv x hx
    have hdiagnostics := (hvisit v hv).2 x hx
    unfold Attempt.diagnostics at hdiagnostics
    split at hdiagnostics
    · next compiled hresult => exact ⟨compiled, hresult⟩
    · cases hdiagnostics
  have hgoing : a.aborted = false := by
    refine Bool.eq_false_iff.2 fun haborted => ?_
    obtain ⟨before, x, heq, -, e, he, -⟩ := hsound.stops.last haborted
    have hx : x ∈ a.attempts := by
      rw [heq]
      simp
    obtain ⟨v, hv, hx⟩ := List.mem_flatMap.1 hx
    obtain ⟨compiled, hresult⟩ := hok v hv x hx
    rw [hresult] at he
    cases he
  intro file hfile
  obtain ⟨v, hv, hvfile, hcovers⟩ := hsound.walked.covers hgoing file hfile
  have hrejected := (hvisit v hv).1
  unfold Visit.rejected at hrejected
  split at hrejected
  · next scan hscan =>
    refine ⟨v, hv, hvfile, scan, hscan, hrejected, fun s hs => ?_⟩
    obtain ⟨x, hx, rfl⟩ := hcovers scan hscan s hs
    obtain ⟨compiled, hresult⟩ := hok v hv x hx
    have hx' : x ∈ a.attempts := List.mem_flatMap.2 ⟨v, hv, hx⟩
    refine ⟨⟨x.found.location, compiled⟩, ?_, rfl, (hsound.compiled x hx' compiled hresult).1⟩
    refine List.mem_flatMap.2 ⟨v, hv, List.mem_flatMap.2 ⟨x, hx, ?_⟩⟩
    unfold Attempt.artifacts
    rw [hresult]
    exact List.mem_singleton_self _
  · cases hrejected

end Compile

/-- With accepted options, and whatever the machine answers, the result is the report of a sound
account. -/
theorem ends_compileSources {temporary : String} {o : Options} {c : Config} {paths : List String}
    {log : List Exchange} {result : Except Error Report} (hresolve : o.resolve temporary = .ok c)
    (he : Plan.Ends (compileSources temporary o paths) log result) :
    ∃ a : Compile.Account, result = .ok a.report ∧ log = a.log ∧ a.Sound c paths := by
  unfold compileSources at he
  rw [hresolve] at he
  obtain ⟨first, r, rest, rfl, hreport, hpure⟩ := he.of_bind
  obtain ⟨rfl, rfl⟩ := hpure.of_pure
  obtain ⟨a, rfl, rfl, hsound⟩ := Compile.ends_report hreport
  exact ⟨a, rfl, List.append_nil _, hsound⟩

/-- The report of files and directories accounts for every snippet : on every host and tree it is
that of a sound account of all calls. -/
theorem compileSources_account {temporary : String} {o : Options} {c : Config}
    (hresolve : o.resolve temporary = .ok c) (paths : List String) (h : Host) (t : FileTree) :
    ∃ a : Compile.Account, ((compileSources temporary o paths).run h t).1 = .ok a.report ∧
      (compileSources temporary o paths).log h t = a.log ∧ a.Sound c paths :=
  ends_compileSources hresolve (Plan.ends_log h _ t)

/-- The log of a run begins with the collection of the files, and with nothing shorter or longer; so a
sound account tells of what the run collected. -/
theorem Compile.Account.Sound.collecting_eq {a : Compile.Account} {temporary : String} {o : Options}
    {c : Config} {paths : List String} {h : Host} {t : FileTree} (hsound : a.Sound c paths)
    (hresolve : o.resolve temporary = .ok c)
    (hlog : (compileSources temporary o paths).log h t = a.log) :
    a.collecting = (collect paths).log h t ∧ a.collected = ((collect paths).run h t).1 := by
  have hfirst : (collect paths).log h t <+: (compileSources temporary o paths).log h t := by
    unfold compileSources
    rw [hresolve]
    exact (Plan.log_prefix_bind h _ _ t).trans (Plan.log_prefix_bind h (Compile.report c paths) _ t)
  obtain ⟨rest, hrest⟩ := hfirst
  rw [hlog] at hrest
  unfold Compile.Account.log at hrest
  rw [List.append_assoc] at hrest
  exact (Plan.ends_log h (collect paths) t).unique hsound.collects hrest

/-- A source file with a blank snippet and one for which no compiler is found. -/
def blankAndText : FileTree :=
  ⟨[(["a.rs"], .file "sol!(\"\");sol!(\"A\");".toUTF8 false)]⟩

theorem compileSources_account_blankAndText :
    Options.resolve "/tmp" { workspace := some "w" } = .ok (Run.rooted "w") ∧
      ∃ a : Compile.Account, a.Sound (Run.rooted "w") ["a.rs"] ∧ a.report.artifacts.length = 0 ∧
        a.report.diagnostics.map (fun d => d.location.map fun l => l.column) = [some 1, some 10] := by
  obtain ⟨a, hreport, -, hsound⟩ := compileSources_account (o := { workspace := some "w" })
    (c := Run.rooted "w") rfl ["a.rs"] Workspace.bare blankAndText
  have hdiagnostics : ((compileSources "/tmp" { workspace := some "w" } ["a.rs"]).run
      Workspace.bare blankAndText).1.toOption.map (fun r => (r.artifacts.length,
        r.diagnostics.map fun d => d.location.map fun l => l.column)) =
      some (0, [some 1, some 10]) := by
    decide +kernel
  rw [hreport] at hdiagnostics
  have hpair := Option.some.inj hdiagnostics
  exact ⟨rfl, a, hsound, congrArg Prod.fst hpair, congrArg Prod.snd hpair⟩

end EmbeddedSolidity
