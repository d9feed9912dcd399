import EmbeddedSolidity.Proofs.FileSystem.Path
import EmbeddedSolidity.Proofs.Report.Diagnostics

/-!
# The lines of a build script

What a build script prints is read line by line, and each line is an instruction to the build tool.
Failures are printed too, with texts of compilers, artifacts and files in them, that may hold
anything. Each failure stays on its line: its line feeds are replaced, and nothing else that is
printed comes from outside (`lines_of_run`).

* `Text.cut_lines` : a text that is made of lines is cut into them;
* `BuildScript.oneLine_eq` : what becomes of the line feeds of a text;
* `BuildScript.lines_of_run` : the lines of a build script, whatever the machine answers.
-/

namespace EmbeddedSolidity

open FileSystem

namespace Text

/-- Lines without line feeds, each with one behind it, are what stands between the line feeds. -/
theorem cut_lines {lines : List String} (hlines : ∀ line ∈ lines, '\n' ∉ line.toList) :
    cut '\n' (String.join (lines.map (· ++ "\n"))).toList = lines.map String.toList ++ [[]] := by
  induction lines with
  | nil => rfl
  | cons line lines ih =>
    rw [List.forall_mem_cons] at hlines
    have hfirst : (String.join ((line :: lines).map (· ++ "\n"))).toList =
        line.toList ++ '\n' :: (String.join (lines.map (· ++ "\n"))).toList := by
      rw [List.map_cons, String.join_cons]
      simp
    rw [hfirst, cut_append, cut_of_not_mem hlines.1, ih hlines.2]
    rfl

/-- Putting a text in the place of each separator joins the pieces by it. -/
theorem flatMap_eq_intercalate (separator : Char) (between cs : List Char) :
    (cs.flatMap fun c => if c == separator then between else [c]) =
      between.intercalate (cut separator cs) := by
  induction cs with
  | nil => rfl
  | cons c rest ih =>
    obtain ⟨piece, pieces, hcut⟩ := List.exists_cons_of_ne_nil (cut_ne_nil separator rest)
    rw [List.flatMap_cons, ih, cut, hcut]
    split
    · rw [List.intercalate_cons_cons, List.nil_append]
    · cases pieces with
      | nil => rfl
      | cons piece' pieces => rfl

end Text

/-! ## Errors -/

/-- What is wrong with options is an error of the options. -/
theorem Options.exists_of_resolve_error {temporary : String} {o : Options} {e : Error}
    (hresolve : o.resolve temporary = .error e) : ∃ message, e = .options message := by
  unfold resolve at hresolve
  dsimp only [bind, Except.bind, pure, Except.pure] at hresolve
  -- Only the version and the executable can be refused.
  repeat' split at hresolve
  all_goals cases hresolve
  all_goals exact ⟨_, rfl⟩

/-- Only options that are refused keep a compilation from a report. -/
theorem exists_of_ends_compileSources {temporary : String} {o : Options} {paths : List String}
    {log : List Exchange} {e : Error}
    (he : Plan.Ends (compileSources temporary o paths) log (.error e)) :
    ∃ message, e = .options message := by
  unfold compileSources at he
  cases hresolve : o.resolve temporary with
  | error e' =>
    rw [hresolve] at he
    obtain ⟨-, heq⟩ := he.of_pure
    obtain rfl := Except.error.inj heq
    exact Options.exists_of_resolve_error hresolve
  | ok c =>
    rw [hresolve] at he
    obtain ⟨_, _, _, -, -, hpure⟩ := he.of_bind
    cases hpure.of_pure.2

namespace Report

theorem exists_of_ends_writeEach {directory : String} {artifacts : List (String × Artifact)}
    {log : List Exchange} {e : Error}
    (he : Plan.Ends (writeEach directory artifacts) log (.error e)) :
    ∃ path message, e = .output path message := by
  induction artifacts generalizing log with
  | nil => cases he.of_pure.2
  | cons x rest ih =>
    obtain ⟨_, written, _, -, -, hrest⟩ := he.of_bind
    cases written with
    | error f =>
      cases hrest.of_pure.2
      exact ⟨_, _, rfl⟩
    | ok u =>
      obtain ⟨_, result, _, -, hmore, hpure⟩ := hrest.of_bind
      cases result with
      | error e' =>
        cases hpure.of_pure.2
        exact ih hmore
      | ok paths => cases hpure.of_pure.2

/-- What keeps artifacts from being written is an error of the output. -/
theorem exists_of_ends_writeArtifacts {r : Report} {directory : String} {log : List Exchange}
    {e : Error} (he : Plan.Ends (r.writeArtifacts directory) log (.error e)) :
    ∃ path message, e = .output path message := by
  obtain ⟨_, made, _, -, -, hrest⟩ := he.of_bind
  cases made with
  | error f =>
    cases hrest.of_pure.2
    exact ⟨_, _, rfl⟩
  | ok u => exact exists_of_ends_writeEach hrest

end Report

/-! ## Lines -/

namespace BuildScript

variable {temporary package output out : String} {o : Options} {log : List Exchange}
  {result : Except Error Report}

/-- A text with ` | ` in the place of each of its line feeds. -/
def barred (s : String) : String :=
  " | ".intercalate ((Text.cut '\n' s.toList).map String.ofList)

theorem oneLine_eq (s : String) : oneLine s = barred s := by
  rw [← String.toList_inj]
  unfold oneLine barred
  rw [Text.flatMap_eq_intercalate '\n' [' ', '|', ' '], String.toList_ofList,
    String.toList_intercalate, List.map_map]
  congr 1
  exact ((List.map_congr_left fun _ _ => String.toList_ofList).trans (List.map_id _)).symm

example : barred "boom\ncargo:rustc-cfg=injected" = "boom | cargo:rustc-cfg=injected" := by
  decide +kernel

/-- The line that names the directory whose changes matter. -/
def watch (package : String) : String :=
  "cargo:rerun-if-changed=" ++ Path.join package "src"

/-- The line of a failure. -/
def warning (d : Diagnostic) : String :=
  "cargo:warning=" ++ barred d.text

/-- A text is the lines, each with a line feed behind it, and nothing else. -/
def HasLines (text : String) (lines : List String) : Prop :=
  Text.cut '\n' text.toList = lines.map String.toList ++ [[]]

theorem not_mem_watch (hpackage : '\n' ∉ package.toList) : '\n' ∉ (watch package).toList := by
  have hjoin : '\n' ∉ (Path.join package "src").toList := by
    unfold Path.join
    split_ifs
    · decide
    · simp [hpackage]
    · simp [hpackage]
  unfold watch
  simp [hjoin]

theorem not_mem_warning (d : Diagnostic) : '\n' ∉ (warning d).toList := by
  have hline := not_mem_oneLine d.text
  rw [oneLine_eq] at hline
  unfold warning
  simp [hline]

/-- Line feeds come neither from the name of the package nor from failures. -/
theorem hasLines_warnings (hpackage : '\n' ∉ package.toList) (ds : List Diagnostic) :
    HasLines (watchLine (Path.join package "src") ++ String.join (ds.map warningLine))
      (watch package :: ds.map warning) := by
  have htext : watchLine (Path.join package "src") ++ String.join (ds.map warningLine) =
      String.join ((watch package :: ds.map warning).map (· ++ "\n")) := by
    rw [List.map_cons, String.join_cons, List.map_map]
    congr 2
    refine List.map_congr_left fun d _ => ?_
    unfold warningLine
    rw [oneLine_eq]
    rfl
  unfold HasLines
  rw [htext]
  refine Text.cut_lines (List.forall_mem_cons.2 ⟨not_mem_watch hpackage, fun line hline => ?_⟩)
  obtain ⟨d, -, rfl⟩ := List.mem_map.1 hline
  exact not_mem_warning d

/-- Without failures there is one line. -/
theorem hasLines_watchLine (hpackage : '\n' ∉ package.toList) :
    HasLines (watchLine (Path.join package "src")) [watch package] := by
  have hlines := hasLines_warnings hpackage []
  rwa [List.map_nil, String.join_nil, String.append_empty] at hlines

/-- No text from outside adds a line. Whatever a compiler prints, an artifact or a source holds and
the machine answers, the output is one line, which names the sources; or the build fails with the
failures of a report. Then there is a line for each of them behind that, in order, its text with
` | ` in the place of line feeds, and the error has their number, and their texts as they are. -/
theorem lines_of_run (hpackage : '\n' ∉ package.toList)
    (hrun : Plan.Ends (run temporary o package output) log (result, out)) :
    ((∀ failed details, result ≠ .error (.run failed details)) ∧ HasLines out [watch package]) ∨
      ∃ first second report, log = first ++ second ∧
        Plan.Ends (compileSources temporary (withWorkspace output o) [Path.join package "src"])
          first (.ok report) ∧
        report.diagnostics ≠ [] ∧
        HasLines out (watch package :: report.diagnostics.map warning) ∧
        result = .error (.run report.diagnostics.length
          ("\n".intercalate (report.diagnostics.map Diagnostic.text))) := by
  obtain ⟨first, compiled, second, rfl, hcompile, hrest⟩ := hrun.of_bind
  cases compiled with
  | error e =>
    obtain ⟨message, rfl⟩ := exists_of_ends_compileSources hcompile
    obtain ⟨rfl, rfl⟩ := Prod.mk.inj hrest.of_pure.2
    exact Or.inl ⟨fun _ _ h => (by cases h), hasLines_watchLine hpackage⟩
  | ok report =>
    obtain ⟨written, hwrite, heq⟩ := ends_run hcompile hrun
    cases written with
    | error e =>
      obtain ⟨path, message, rfl⟩ := Report.exists_of_ends_writeArtifacts hwrite
      obtain ⟨rfl, rfl⟩ := Prod.mk.inj heq
      exact Or.inl ⟨fun _ _ h => (by cases h), hasLines_watchLine hpackage⟩
    | ok paths =>
      obtain ⟨rfl, rfl⟩ := Prod.mk.inj heq
      unfold conclude
      split
      · refine Or.inl ⟨fun _ _ h => (by cases h), ?_⟩
        rw [String.append_empty]
        exact hasLines_watchLine hpackage
      · next hfailed =>
        have hne : report.diagnostics ≠ [] := by
          unfold Report.isSuccess at hfailed
          simpa using hfailed
        exact Or.inr ⟨first, second, report, rfl, hcompile, hne,
          hasLines_warnings hpackage report.diagnostics, rfl⟩

/-! ## A compiler that prints an instruction -/

/-- A host whose compiler fails and prints what looks like an instruction on a line of its own. -/
def shouting : Host where
  current := []
  search := ["/bin"]
  execute := fun _ _ _ t =>
    (.ok ⟨.exited 1, ByteArray.empty, "boom\ncargo:rustc-cfg=injected\n".toUTF8⟩, t)

/-- A package with one snippet, and the compiler. -/
def shoutedAt : FileTree :=
  ⟨[(["bin"], .directory), (["bin", "forge"], .file ByteArray.empty true), (["out"], .directory),
    (["pkg"], .directory), (["pkg", "src"], .directory),
    (["pkg", "src", "lib.rs"], .file "sol!(\"A\");".toUTF8 false)]⟩

/-- The package is compiled by its build script. -/
def shoutedScript : Plan (Except Error Report × String) :=
  run "/tmp" {} "pkg" "out"

theorem failed_shouting :
    (match (shoutedScript.run shouting shoutedAt).1.1 with
      | .error (.run failed _) => failed
      | _ => 0) = 1 := by
  decide +kernel

theorem lines_of_run_shouting :
    '\n' ∉ "pkg".toList ∧ ∃ first second report,
      shoutedScript.log shouting shoutedAt = first ++ second ∧
      Plan.Ends (compileSources "/tmp" (withWorkspace "out" {}) [Path.join "pkg" "src"]) first
        (.ok report) ∧
      report.diagnostics.length = 1 ∧
      HasLines (shoutedScript.run shouting shoutedAt).1.2
        (watch "pkg" :: report.diagnostics.map warning) := by
  have hpackage : '\n' ∉ "pkg".toList := by decide
  have hends := Plan.ends_log shouting shoutedScript shoutedAt
  have hfailed := failed_shouting
  generalize (shoutedScript.run shouting shoutedAt).1 = ending at hends hfailed ⊢
  obtain ⟨result, out⟩ := ending
  rcases lines_of_run hpackage hends with
    ⟨hsilent, -⟩ | ⟨first, second, report, hlog, hcompile, -, hlines, hresult⟩
  · split at hfailed
    · next heq => exact absurd heq (hsilent _ _)
    · cases hfailed
  · rw [hresult] at hfailed
    exact ⟨hpackage, first, second, report, hlog, hcompile, hfailed, hlines⟩

end BuildScript

end EmbeddedSolidity
