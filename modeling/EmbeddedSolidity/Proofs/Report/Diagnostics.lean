import EmbeddedSolidity.BuildScript
import EmbeddedSolidity.CommandLine.Run
import EmbeddedSolidity.Proofs.Plan.Log
import EmbeddedSolidity.Proofs.Workspace.Refusal

/-!
# Where failures are told

A command line tells the failures of a report on standard error, and a build script in warnings and
in the error that it ends with. Both write the artifacts of the report first, and both give up if
this fails : then nothing is told of the report. So what is told depends on the writing only, be the
answers of the machine what they may, and a run with failures is never a success.

* `CommandLine.ends_run`, `BuildScript.ends_run` : the two halves of a run;
* `Report.told_iff_written` : failures are told just if the artifacts were written;
* `Report.blocked_output_tells_nothing` : a file where the directory of artifacts should be.
-/

namespace EmbeddedSolidity

open FileSystem

variable {temporary : String} {o : Options} {paths : List String} {log first second : List Exchange}
  {report : Report}

/-! ## Texts -/

/-- The text is a part of the other. -/
def Text.Occurs (part text : String) : Prop :=
  ∃ before after, text = before ++ part ++ after

theorem Text.Occurs.append_left {part text : String} (h : Text.Occurs part text) (front : String) :
    Text.Occurs part (front ++ text) := by
  obtain ⟨before, after, rfl⟩ := h
  exact ⟨front ++ before, after, by simp only [String.append_assoc]⟩

/-- Texts that are joined occur in the whole. -/
theorem Text.occurs_intercalate (separator : String) {part : String} :
    ∀ {parts : List String}, part ∈ parts → Text.Occurs part (separator.intercalate parts)
  | [], h => nomatch h
  | [s], h => by
    obtain rfl := List.mem_singleton.1 h
    exact ⟨"", "", by simp⟩
  | s :: s' :: rest, h => by
    rw [String.intercalate_cons_cons]
    rcases List.mem_cons.1 h with rfl | h
    · exact ⟨"", separator ++ separator.intercalate (s' :: rest), by simp [String.append_assoc]⟩
    · exact (Text.occurs_intercalate separator h).append_left _

/-- A run of plans in sequence ends with the log of the first one and then of the other. -/
theorem Plan.ends_run_bind {α β : Type} {h : Host} {t t' : FileTree} {whole : Plan β} {p : Plan α}
    {f : α → Plan β} {a : α} (hwhole : whole = p >>= f) (hp : p.run h t = (a, t')) :
    Plan.Ends p (p.log h t) a ∧
      ∃ second, Plan.Ends whole (p.log h t ++ second) (whole.run h t).1 := by
  have hfirst := Plan.ends_log h p t
  have hboth := Plan.ends_log h (p >>= f) t
  rw [hp] at hfirst
  rw [Plan.log_bind] at hboth
  exact ⟨hfirst, _, hwhole ▸ hboth⟩

/-! ## Command lines -/

namespace CommandLine

/-- The line that tells a failure on standard error. -/
def errorLine (d : Diagnostic) : String :=
  red "error" ++ ": " ++ d.text ++ "\n"

/-- All failures are told on standard error, each once and in order, before what a run ends with. -/
def TellsFailures (r : Report) (errors : String) : Prop :=
  ∃ last, errors = String.join (r.diagnostics.map errorLine) ++ ("Error: " ++ last ++ "\n")

theorem foldl_complain (ds : List Diagnostic) (t : Transcript) :
    ds.foldl (fun t d => t.complain (errorLine d)) t =
      { t with errors := t.errors ++ String.join (ds.map errorLine) } := by
  induction ds generalizing t with
  | nil => simp
  | cons d ds ih =>
    rw [List.foldl_cons, ih, List.map_cons, String.join_cons]
    simp [Transcript.complain, String.append_assoc]

/-- A report with failures is presented with all of them, and not as a success. -/
theorem present_of_failures (asJson : Bool) (hne : report.diagnostics ≠ []) :
    (present asJson report).status ≠ 0 ∧ TellsFailures report (present asJson report).errors := by
  have hfailed : report.isSuccess = false := by
    unfold Report.isSuccess
    simpa using hne
  unfold present
  dsimp only
  rw [hfailed]
  generalize hshown : List.foldl _ _ report.diagnostics = shown
  have herrors : shown.errors = String.join (report.diagnostics.map errorLine) := by
    rw [← hshown]
    exact (congrArg Transcript.errors (foldl_complain _ _)).trans String.empty_append
  split
  · next e _ => exact ⟨Nat.one_ne_zero, "run aborted: " ++ e.message, by rw [← herrors]; rfl⟩
  · exact ⟨Nat.one_ne_zero, _, by rw [← herrors]; rfl⟩

/-- An error that ends a run tells no failure of a report. -/
theorem not_tellsFailures_abort (hne : report.diagnostics ≠ []) (message : String) :
    ¬ TellsFailures report (({} : Transcript).abort message).errors := by
  rintro ⟨last, heq⟩
  obtain ⟨d, rest, hd⟩ := List.exists_cons_of_ne_nil hne
  rw [hd, List.map_cons, String.join_cons] at heq
  have hhead := congrArg (fun s : String => s.toList.head?) heq
  simp [Transcript.abort, Transcript.complain, errorLine, red, styled] at hhead

/-- A compilation that is asked for is one of sources, and then the artifacts are written. -/
theorem ends_run {output : Option String} {asJson : Bool} {tr : Transcript}
    (hcompile : Plan.Ends (compileSources temporary o paths) first (.ok report))
    (hrun : Plan.Ends ((Request.compile o paths output asJson).run temporary) (first ++ second)
      tr) :
    ∃ written, Plan.Ends (writeIfAsked report output) second written ∧
      tr = match written with
        | .error e => ({} : Transcript).abort e.withHint
        | .ok () => present asJson report := by
  obtain ⟨first', compiled, second', hlog, hfirst, hrest⟩ := hrun.of_bind
  obtain ⟨rfl, rfl⟩ := hcompile.unique hfirst hlog
  obtain rfl := List.append_cancel_left hlog
  obtain ⟨third, written, fourth, rfl, hwrite, hlast⟩ := hrest.of_bind
  cases written with
  | error e =>
    obtain ⟨rfl, rfl⟩ := hlast.of_pure
    exact ⟨_, by rwa [List.append_nil], rfl⟩
  | ok u =>
    obtain ⟨rfl, rfl⟩ := hlast.of_pure
    exact ⟨_, by rwa [List.append_nil], rfl⟩

end CommandLine

/-! ## Build scripts -/

namespace BuildScript

/-- A text on one line has no line end. -/
theorem not_mem_oneLine (s : String) : '\n' ∉ (oneLine s).toList := by
  unfold oneLine
  rw [String.toList_ofList, List.mem_flatMap]
  rintro ⟨c, -, hc⟩
  split at hc
  · simp at hc
  · next hne =>
    obtain rfl := List.mem_singleton.1 hc
    exact hne rfl

/-- All failures are told in warnings, one line for each and in order, and in the error that the
build ends with. -/
structure TellsFailures (r : Report) (sources : String) (result : Except Error Report)
    (lines : String) : Prop where
  printed : lines = watchLine sources ++ String.join (r.diagnostics.map warningLine)
  single : ∀ d ∈ r.diagnostics, ∃ line, warningLine d = line ++ "\n" ∧ '\n' ∉ line.toList
  failed : ∃ e, result = .error e ∧ ∀ d ∈ r.diagnostics, Text.Occurs d.text e.message

/-- A report with failures is told in full. -/
theorem tellsFailures_conclude (sources : String) (hne : report.diagnostics ≠ []) :
    TellsFailures report sources (conclude report).1
      (watchLine sources ++ (conclude report).2) := by
  have hfailed : ¬ report.isSuccess = true := by
    unfold Report.isSuccess
    simpa using hne
  unfold conclude
  rw [if_neg hfailed]
  refine ⟨rfl, fun d _ => ⟨"cargo:warning=" ++ oneLine d.text, rfl, ?_⟩, _, rfl, fun d hd => ?_⟩
  · have hline := not_mem_oneLine d.text
    simp [hline]
  · exact (Text.occurs_intercalate "\n" (List.mem_map_of_mem hd)).append_left _

/-- An error without warnings does not tell failures. -/
theorem not_tellsFailures_watchLine (hne : report.diagnostics ≠ []) (sources : String)
    (result : Except Error Report) :
    ¬ TellsFailures report sources result (watchLine sources) := by
  rintro ⟨hlines, -, -⟩
  obtain ⟨d, rest, hd⟩ := List.exists_cons_of_ne_nil hne
  rw [hd, List.map_cons, String.join_cons] at hlines
  have hlength := congrArg String.length hlines
  simp only [warningLine, String.length_append] at hlength
  have hend : ("\n" : String).length = 1 := rfl
  omega

/-- A build script compiles sources, and then the artifacts are written. -/
theorem ends_run {package output lines : String} {result : Except Error Report}
    (hcompile : Plan.Ends
      (compileSources temporary (withWorkspace output o) [Path.join package "src"]) first
        (.ok report))
    (hrun : Plan.Ends (run temporary o package output) (first ++ second) (result, lines)) :
    ∃ written,
      Plan.Ends (report.writeArtifacts (Path.join output artifactDirectory)) second written ∧
      (result, lines) = match written with
        | .error e => (.error e, watchLine (Path.join package "src"))
        | .ok _ =>
          ((conclude report).1, watchLine (Path.join package "src") ++ (conclude report).2) := by
  obtain ⟨first', compiled, second', hlog, hfirst, hrest⟩ := hrun.of_bind
  obtain ⟨rfl, rfl⟩ := hcompile.unique hfirst hlog
  obtain rfl := List.append_cancel_left hlog
  obtain ⟨third, written, fourth, rfl, hwrite, hlast⟩ := hrest.of_bind
  cases written with
  | error e =>
    obtain ⟨rfl, heq⟩ := hlast.of_pure
    exact ⟨.error e, by rwa [List.append_nil], heq⟩
  | ok files =>
    obtain ⟨rfl, heq⟩ := hlast.of_pure
    exact ⟨.ok files, by rwa [List.append_nil], heq⟩

end BuildScript

/-! ## Both -/

namespace Report

/-- A run with failures is never a success. On a command line they are all told just if no artifacts
were to be written or they were written, and in a build script just if they were written. -/
theorem told_iff_written (temporary : String) (o : Options) {report : Report}
    (hne : report.diagnostics ≠ []) (first second : List Exchange) :
    (∀ (paths : List String) (output : Option String) (asJson : Bool)
      (tr : CommandLine.Transcript),
      Plan.Ends (compileSources temporary o paths) first (.ok report) →
      Plan.Ends ((CommandLine.Request.compile o paths output asJson).run temporary)
        (first ++ second) tr →
      tr.status ≠ 0 ∧ (CommandLine.TellsFailures report tr.errors ↔
        Plan.Ends (CommandLine.writeIfAsked report output) second (.ok ()))) ∧
    ∀ (package output : String) (result : Except Error Report) (lines : String),
      Plan.Ends (compileSources temporary (BuildScript.withWorkspace output o)
        [Path.join package "src"]) first (.ok report) →
      Plan.Ends (BuildScript.run temporary o package output) (first ++ second) (result, lines) →
      (∃ e, result = .error e) ∧
        (BuildScript.TellsFailures report (Path.join package "src") result lines ↔
          ∃ files, Plan.Ends
            (report.writeArtifacts (Path.join output BuildScript.artifactDirectory)) second
            (.ok files)) := by
  refine ⟨fun paths output asJson tr hcompile hrun => ?_,
    fun package output result lines hcompile hrun => ?_⟩
  · obtain ⟨written, hwrite, rfl⟩ := CommandLine.ends_run hcompile hrun
    cases written with
    | error e =>
      refine ⟨Nat.one_ne_zero,
        iff_of_false (CommandLine.not_tellsFailures_abort hne _) fun hok => ?_⟩
      cases (hwrite.unique hok (rfl : second ++ [] = second ++ [])).2
    | ok u =>
      obtain ⟨hstatus, htells⟩ := CommandLine.present_of_failures asJson hne
      exact ⟨hstatus, iff_of_true htells hwrite⟩
  · obtain ⟨written, hwrite, heq⟩ := BuildScript.ends_run hcompile hrun
    cases written with
    | error e =>
      obtain ⟨rfl, rfl⟩ := Prod.mk.inj heq
      refine ⟨⟨e, rfl⟩, iff_of_false (BuildScript.not_tellsFailures_watchLine hne _ _) ?_⟩
      rintro ⟨files, hok⟩
      cases (hwrite.unique hok (rfl : second ++ [] = second ++ [])).2
    | ok files =>
      obtain ⟨rfl, rfl⟩ := Prod.mk.inj heq
      have htells := BuildScript.tellsFailures_conclude (Path.join package "src") hne
      obtain ⟨e, he, -⟩ := htells.failed
      exact ⟨⟨e, he⟩, iff_of_true htells ⟨files, hwrite⟩⟩

/-! ## A blank snippet -/

open Workspace (bare)

/-- A package with a blank snippet, and other entries. -/
def blankPackage (others : List (Place × Entry)) : FileTree :=
  ⟨[(["pkg"], .directory), (["pkg", "src"], .directory),
    (["pkg", "src", "lib.rs"], .file "sol!(\"\");".toUTF8 false)] ++ others⟩

/-- The sources of the package. -/
def sources : String :=
  Path.join "pkg" "src"

/-- The package is compiled on a command line. -/
def commandLine : Plan CommandLine.Transcript :=
  (CommandLine.Request.compile {} ["pkg"] (some "out/inline-sol") false).run "/tmp"

/-- The package is compiled by its build script. -/
def buildScript : Plan (Except Error Report × String) :=
  BuildScript.run "/tmp" {} "pkg" "out"

/-- What the sources of the package are compiled to on a command line. -/
def compiledByCommandLine : Plan (Except Error Report) :=
  compileSources "/tmp" {} ["pkg"]

/-- What the sources of the package are compiled to by its build script. -/
def compiledByScript : Plan (Except Error Report) :=
  compileSources "/tmp" (BuildScript.withWorkspace "out" {}) [sources]

/-- If one of the snippets fails, there is a report with failures. -/
theorem exists_report {compiled : Plan (Except Error Report)} {t : FileTree}
    (hfails : (compiled.run bare t).1.toOption.map (·.diagnostics.isEmpty) = some false) :
    ∃ r t', compiled.run bare t = (.ok r, t') ∧ r.diagnostics ≠ [] := by
  obtain ⟨⟨result, t'⟩, hrun⟩ : ∃ out, compiled.run bare t = out := ⟨_, rfl⟩
  rw [hrun] at hfails
  cases result with
  | error e => cases hfails
  | ok r =>
    refine ⟨r, t', hrun, fun hnil => ?_⟩
    have hempty : r.diagnostics.isEmpty = false := Option.some.inj hfails
    rw [hnil] at hempty
    cases hempty

set_option maxRecDepth 100000 in
theorem fails_blankPackage :
    (compiledByCommandLine.run bare (blankPackage [])).1.toOption.map (·.diagnostics.isEmpty) =
        some false ∧
      (compiledByScript.run bare (blankPackage [])).1.toOption.map (·.diagnostics.isEmpty) =
        some false := by
  decide +kernel

set_option maxRecDepth 100000 in
theorem run_blankPackage :
    (commandLine.run bare (blankPackage [])).1.errors.toList.head? = some '\x1b' ∧
      (buildScript.run bare (blankPackage [])).1.2 ≠ BuildScript.watchLine sources := by
  decide +kernel

/-- A blank snippet is told on a command line and by a build script. -/
theorem told_blankPackage :
    (∃ r t', compiledByCommandLine.run bare (blankPackage []) = (.ok r, t') ∧ r.diagnostics ≠ [] ∧
      (commandLine.run bare (blankPackage [])).1.status ≠ 0 ∧
      CommandLine.TellsFailures r (commandLine.run bare (blankPackage [])).1.errors) ∧
    ∃ r t', compiledByScript.run bare (blankPackage []) = (.ok r, t') ∧ r.diagnostics ≠ [] ∧
      BuildScript.TellsFailures r sources (buildScript.run bare (blankPackage [])).1.1
        (buildScript.run bare (blankPackage [])).1.2 := by
  obtain ⟨hcommand, hscript⟩ := fails_blankPackage
  obtain ⟨herrors, hlines⟩ := run_blankPackage
  constructor
  · obtain ⟨r, t', hrun, hne⟩ := exists_report hcommand
    obtain ⟨hfirst, second, hboth⟩ :=
      Plan.ends_run_bind (show commandLine = compiledByCommandLine >>= _ from rfl) hrun
    obtain ⟨hstatus, htells⟩ := (told_iff_written "/tmp" {} hne _ second).1 _ _ _ _ hfirst hboth
    refine ⟨r, t', hrun, hne, hstatus, htells.2 ?_⟩
    obtain ⟨written, hwrite, htranscript⟩ := CommandLine.ends_run hfirst hboth
    cases written with
    | error e =>
      rw [htranscript] at herrors
      simp [CommandLine.Transcript.abort, CommandLine.Transcript.complain] at herrors
    | ok u => exact hwrite
  · obtain ⟨r, t', hrun, hne⟩ := exists_report hscript
    obtain ⟨hfirst, second, hboth⟩ :=
      Plan.ends_run_bind (show buildScript = compiledByScript >>= _ from rfl) hrun
    have htold := (told_iff_written "/tmp" {} hne _ second).2 "pkg" "out" _ _ hfirst hboth
    refine ⟨r, t', hrun, hne, htold.2.2 ?_⟩
    obtain ⟨written, hwrite, heq⟩ := BuildScript.ends_run hfirst hboth
    cases written with
    | error e => exact absurd (congrArg Prod.snd heq) hlines
    | ok files => exact ⟨files, hwrite⟩

/-- A file where the directory of artifacts should be. -/
def blocker : List (Place × Entry) :=
  [(["out"], .directory), (["out", "inline-sol"], .file "x".toUTF8 false)]

set_option maxRecDepth 100000 in
theorem fails_blocked :
    (compiledByCommandLine.run bare (blankPackage blocker)).1.toOption.map
        (·.diagnostics.isEmpty) = some false ∧
      (compiledByScript.run bare (blankPackage blocker)).1.toOption.map (·.diagnostics.isEmpty) =
        some false := by
  decide +kernel

/-- The error of a directory that cannot be made because a file is there. -/
def blocked : Error :=
  .output "out/inline-sol" FileSystem.Fault.exists.text

set_option maxRecDepth 100000 in
theorem run_blocked :
    (commandLine.run bare (blankPackage blocker)).1 =
        ({} : CommandLine.Transcript).abort blocked.withHint ∧
      (buildScript.run bare (blankPackage blocker)).1.2 = BuildScript.watchLine sources := by
  decide +kernel

/-- If artifacts cannot be written, a blank snippet is told neither on a command line nor by a build
script. -/
theorem blocked_output_tells_nothing :
    (∃ r t', compiledByCommandLine.run bare (blankPackage blocker) = (.ok r, t') ∧
      r.diagnostics ≠ [] ∧
      ¬ CommandLine.TellsFailures r (commandLine.run bare (blankPackage blocker)).1.errors) ∧
    ∃ r t', compiledByScript.run bare (blankPackage blocker) = (.ok r, t') ∧ r.diagnostics ≠ [] ∧
      ¬ BuildScript.TellsFailures r sources (buildScript.run bare (blankPackage blocker)).1.1
        (buildScript.run bare (blankPackage blocker)).1.2 := by
  obtain ⟨hcommand, hscript⟩ := fails_blocked
  obtain ⟨herrors, hlines⟩ := run_blocked
  obtain ⟨r, t', hrun, hne⟩ := exists_report hcommand
  obtain ⟨r', t'', hrun', hne'⟩ := exists_report hscript
  refine ⟨⟨r, t', hrun, hne, ?_⟩, r', t'', hrun', hne', ?_⟩
  · rw [herrors]
    exact CommandLine.not_tellsFailures_abort hne _
  · rw [hlines]
    exact BuildScript.not_tellsFailures_watchLine hne' _ _

end Report

end EmbeddedSolidity
