import EmbeddedSolidity.Proofs.Plan.Log
import EmbeddedSolidity.Proofs.Workspace.Failure
import EmbeddedSolidity.Run

/-!
# Stages of a compilation

To compile a snippet is to write it, to find the compiler, to run it, and to read the artifact. The
first stage that fails decides the error, and nothing is done after it. `Run.Stages` has a case for
each point at which a compilation can end, with all the calls until then : what can happen is just
what it allows, whatever the machine answers.

* `Outcome.Refused`, `Outcome.Accepted` : how a compiler must have ended;
* `Artifact.ReadAs` : what is read where the artifact should be;
* `Run.ends_compileIn_iff` : the compilations that there are;
* `Run.compile_stages` : the same in a workspace that is ready, with what follows for the calls and
  the errors.
-/

namespace EmbeddedSolidity

open FileSystem (Fault)

/-! ## How a compiler ends -/

namespace Outcome

/-- The compiler ended with success and wrote nothing but blanks to standard error. -/
structure Accepted (o : Outcome) : Prop where
  status : o.ending = .exited 0
  silent : Text.isBlank (Text.decodeLossy o.errors) = true

/-- The output to show for a compiler that failed : what it wrote to standard error, or if that is
blank, what it wrote to standard output. -/
def shown (o : Outcome) : String :=
  if Text.isBlank (Text.decodeLossy o.errors) then Text.decodeLossy o.output
  else Text.decodeLossy o.errors

/-- The compiler is not accepted for this fault, with this output. -/
inductive Refused : Option Nat → Outcome → BuildFault → String → Prop where
  | timedOut {o : Outcome} {seconds : Nat} : o.ending = .timedOut →
    Refused (some seconds) o (.timedOut (seconds * 1000)) ""
  | killed {o : Outcome} {limit : Option Nat} : o.ending = .killed →
    Refused limit o (.exited none) o.shown
  | failed {o : Outcome} {limit : Option Nat} {status : Nat} : o.ending = .exited status →
    status ≠ 0 → Refused limit o (.exited (some status)) o.shown
  | wroteErrors {o : Outcome} {limit : Option Nat} : o.ending = .exited 0 →
    Text.isBlank (Text.decodeLossy o.errors) = false →
    Refused limit o .wroteErrors (Text.decodeLossy o.errors)

variable {o : Outcome} {limit : Option Nat}

theorem fault?_eq_none_iff : o.fault? limit = none ↔ o.Accepted := by
  obtain ⟨ending, output, errors⟩ := o
  constructor
  · intro hfault
    unfold fault? at hfault
    split at hfault
    · cases hfault
    · cases hfault
    · next hending =>
      dsimp only at hfault
      split at hfault
      · next hblank => exact ⟨hending, hblank⟩
      · cases hfault
    · cases hfault
  · rintro ⟨rfl, hblank⟩
    exact if_pos hblank

/-- Only with a limit a compiler takes too long. -/
theorem fault?_eq_some_iff (htimely : limit = none → o.ending ≠ .timedOut) {fault : BuildFault}
    {output : String} : o.fault? limit = some (fault, output) ↔ Refused limit o fault output := by
  constructor
  · intro hfault
    unfold fault? at hfault
    split at hfault
    · next hending =>
      cases limit with
      | none => exact absurd hending (htimely rfl)
      | some seconds =>
        cases hfault
        exact .timedOut hending
    · next hending =>
      cases hfault
      exact .killed hending
    · next hending =>
      dsimp only at hfault
      split at hfault
      · cases hfault
      · next hblank =>
        cases hfault
        exact .wroteErrors hending (by simpa using hblank)
    · next n hending =>
      cases hfault
      exact .failed hending (Nat.succ_ne_zero n)
  · obtain ⟨ending, out, err⟩ := o
    rintro (hending | hending | ⟨hending, hne⟩ | ⟨hending, hblank⟩) <;>
      obtain rfl : ending = _ := hending
    · rfl
    · rfl
    · next status =>
      obtain ⟨n, rfl⟩ := Nat.exists_eq_succ_of_ne_zero hne
      rfl
    · exact if_neg (by rw [hblank]; exact Bool.false_ne_true)

end Outcome

/-! ## What is read -/

namespace Artifact

variable {id : Snippet.Id} {path : String}

/-- What the answer to reading the artifact is taken for. -/
inductive ReadAs (id : Snippet.Id) (path : String) :
    Except Fault ByteArray → Except Error Artifact → Prop where
  | missing :
    ReadAs id path (.error .notFound) (.error (.artifact id path "artifact file not found"))
  | unreadable {f : Fault} : f ≠ .notFound →
    ReadAs id path (.error f) (.error (.artifact id path ("failed to read: " ++ f.text)))
  | notText {bytes : ByteArray} : Text.decode? bytes = none →
    ReadAs id path (.ok bytes)
      (.error (.artifact id path ("failed to read: " ++ Fault.notText.text)))
  | parsed {bytes : ByteArray} {text : String} : Text.decode? bytes = some text →
    ReadAs id path (.ok bytes) (parse id path text)

/-- The error of a text that is no artifact belongs to the snippet. -/
theorem snippet?_of_parse {text : String} {e : Error} (he : parse id path text = .error e) :
    e.snippet? = some id := by
  unfold parse at he
  split at he
  · cases he
    rfl
  · split at he
    · cases he
      rfl
    · cases he

theorem ReadAs.snippet? {answer : Except Fault ByteArray} {e : Error}
    (hread : ReadAs id path answer (.error e)) : e.snippet? = some id := by
  generalize hresult : (Except.error e : Except Error Artifact) = result at hread
  cases hread with
  | missing | unreadable | notText =>
    cases hresult
    rfl
  | parsed => exact snippet?_of_parse hresult.symm

/-- A text that was read is parsed. -/
theorem ReadAs.eq_parse {bytes : ByteArray} {text : String} {r : Except Error Artifact}
    (hread : ReadAs id path (.ok bytes) r) (htext : Text.decode? bytes = some text) :
    r = parse id path text := by
  cases hread with
  | notText hnone => cases htext.symm.trans hnone
  | parsed htext' =>
    obtain rfl := Option.some.inj (htext.symm.trans htext')
    rfl

/-- An artifact is read just from a text that is accepted as one. -/
theorem readAs_ok_iff {answer : Except Fault ByteArray} {a : Artifact} :
    ReadAs id path answer (.ok a) ↔ ∃ bytes text, answer = .ok bytes ∧
      Text.decode? bytes = some text ∧ parse id path text = .ok a := by
  constructor
  · intro hread
    generalize hresult : (Except.ok a : Except Error Artifact) = result at hread
    cases hread with
    | missing | unreadable | notText => cases hresult
    | @parsed bytes text htext => exact ⟨bytes, text, rfl, htext, rfl⟩
  · rintro ⟨bytes, text, rfl, htext, hparse⟩
    exact hparse ▸ .parsed htext

end Artifact

/-! ## Stages -/

/-- Without a limit no program takes too long. -/
def Timely (log : List Exchange) : Prop :=
  ∀ program directory outcome,
    ⟨.execute program directory none, .ok outcome⟩ ∈ log → outcome.ending ≠ .timedOut

theorem Timely.mono {log log' : List Exchange} (h : Timely log) (hsub : log' ⊆ log) :
    Timely log' :=
  fun program directory outcome hmem => h program directory outcome (hsub hmem)

theorem Timely.of_mem {log : List Exchange} (h : Timely log) (program directory : String)
    {limit : Option Nat} {outcome : Outcome}
    (hmem : ⟨.execute program directory limit, .ok outcome⟩ ∈ log) :
    limit = none → outcome.ending ≠ .timedOut := by
  rintro rfl
  exact h program directory outcome hmem

namespace Workspace

open Plan

variable {w : Workspace} {c : Config} {s : Snippet} {id : Snippet.Id} {log : List Exchange}

/-- The call that writes a snippet, and the answer to it. -/
def staging (w : Workspace) (s : Snippet) (answer : Except Fault Unit) : Exchange :=
  ⟨.write (w.sourcePath s.id) s.text.toUTF8, answer⟩

/-- A snippet that cannot be written is an error of the workspace. -/
theorem ends_stage_iff {r : Except Error String} : Ends (w.stage s) log r ↔
    (∃ f, log = [w.staging s (.error f)] ∧ r = .error (.workspace (w.sourcePath s.id) f.text)) ∨
      log = [w.staging s (.ok ())] ∧ r = .ok (w.sourcePath s.id) := by
  constructor
  · intro he
    obtain ⟨first, written, rest, rfl, hwrite, hrest⟩ := he.of_bind
    obtain rfl := hwrite.of_call
    obtain ⟨rfl, rfl⟩ := hrest.of_pure
    cases written with
    | error f => exact Or.inl ⟨f, rfl, rfl⟩
    | ok u => exact Or.inr ⟨rfl, rfl⟩
  · rintro (⟨f, rfl, rfl⟩ | ⟨rfl, rfl⟩)
    · exact (ends_call (.write _ _) (.error f)).bind (.done _)
    · exact (ends_call (.write _ _) (.ok ())).bind (.done _)

/-- The compiler is looked for and run : the calls for it, and what they give. -/
inductive CompilerRan (c : Config) (w : Workspace) (id : Snippet.Id) :
    List Exchange → Except Error Unit → Prop where
  | notFound :
    CompilerRan c w id [⟨.locate c.executable, none⟩]
      (.error (.build id .notStarted (c.executable ++ " not found: cannot find binary path")))
  | notStarted (program : String) (f : Fault) :
    CompilerRan c w id
      [⟨.locate c.executable, some program⟩, ⟨.execute program w.root c.timeout, .error f⟩]
      (.error (.build id .notStarted ("failed to run " ++ program ++ ": " ++ f.text)))
  | refused (program : String) {outcome : Outcome} {fault : BuildFault} {output : String} :
    Outcome.Refused c.timeout outcome fault output →
    CompilerRan c w id
      [⟨.locate c.executable, some program⟩, ⟨.execute program w.root c.timeout, .ok outcome⟩]
      (.error (.build id fault output))
  | accepted (program : String) {outcome : Outcome} : outcome.Accepted →
    CompilerRan c w id
      [⟨.locate c.executable, some program⟩, ⟨.execute program w.root c.timeout, .ok outcome⟩]
      (.ok ())

/-- How the compiler is found, started and ends decides. -/
theorem ends_runCompiler_iff (htimely : Timely log) {r : Except Error Unit} :
    Ends (w.runCompiler c id) log r ↔ CompilerRan c w id log r := by
  constructor
  · intro he
    obtain ⟨first, found, rest, rfl, hlocate, hrest⟩ := he.of_bind
    obtain rfl := hlocate.of_call
    cases found with
    | none =>
      obtain ⟨rfl, rfl⟩ := hrest.of_pure
      exact .notFound
    | some program =>
      obtain ⟨first, started, last, rfl, hexecute, hlast⟩ := Ends.of_bind hrest
      obtain rfl := hexecute.of_call
      cases started with
      | error f =>
        obtain ⟨rfl, rfl⟩ := hlast.of_pure
        exact .notStarted program f
      | ok outcome =>
        dsimp only at hlast
        cases hfault : outcome.fault? c.timeout with
        | none =>
          rw [hfault] at hlast
          obtain ⟨rfl, rfl⟩ := hlast.of_pure
          exact .accepted program (Outcome.fault?_eq_none_iff.1 hfault)
        | some fault =>
          obtain ⟨fault, output⟩ := fault
          rw [hfault] at hlast
          obtain ⟨rfl, rfl⟩ := hlast.of_pure
          have hlimit : c.timeout = none → outcome.ending ≠ .timedOut :=
            htimely.of_mem program w.root (by simp)
          exact .refused program ((Outcome.fault?_eq_some_iff hlimit).1 hfault)
  · intro hran
    unfold runCompiler
    cases hran with
    | notFound => exact (ends_call (.locate _) none).bind (.done _)
    | notStarted program f =>
      exact (ends_call (.locate _) (some program)).bind
        ((ends_call (.execute _ _ _) (.error f)).bind (.done _))
    | @refused program outcome fault output hrefused =>
      refine (ends_call (.locate _) (some program)).bind
        ((ends_call (.execute _ _ _) (.ok outcome)).bind ?_)
      have hlimit : c.timeout = none → outcome.ending ≠ .timedOut :=
        htimely.of_mem program w.root (by simp)
      have hfault := (Outcome.fault?_eq_some_iff hlimit).2 hrefused
      dsimp only
      rw [hfault]
      exact .done _
    | @accepted program outcome haccepted =>
      refine (ends_call (.locate _) (some program)).bind
        ((ends_call (.execute _ _ _) (.ok outcome)).bind ?_)
      dsimp only
      rw [Outcome.fault?_eq_none_iff.2 haccepted]
      exact .done _

/-- What is read at the place of the artifact decides. -/
theorem ends_readArtifact_iff {r : Except Error Artifact} :
    Ends (w.readArtifact id) log r ↔ ∃ answer, log = [⟨.read (w.artifactPath id), answer⟩] ∧
      Artifact.ReadAs id (w.artifactPath id) answer r := by
  constructor
  · intro he
    obtain ⟨first, text, rest, rfl, hread, hrest⟩ := he.of_bind
    obtain ⟨call, answer, decode, rfl, hcall, hdecode⟩ := hread.of_bind
    obtain rfl := hcall.of_call
    refine ⟨answer, ?_⟩
    cases answer with
    | error f =>
      obtain ⟨rfl, rfl⟩ := hdecode.of_pure
      by_cases hf : f = .notFound
      · subst hf
        obtain ⟨rfl, rfl⟩ := hrest.of_pure
        exact ⟨rfl, .missing⟩
      · have hmessage : rest = [] ∧
            r = .error (.artifact id (w.artifactPath id) ("failed to read: " ++ f.text)) := by
          cases f with
          | notFound => exact absurd rfl hf
          | _ => exact hrest.of_pure
        obtain ⟨rfl, rfl⟩ := hmessage
        exact ⟨rfl, .unreadable hf⟩
    | ok bytes =>
      dsimp only at hdecode
      cases htext : Text.decode? bytes with
      | none =>
        rw [htext] at hdecode
        obtain ⟨rfl, rfl⟩ := hdecode.of_pure
        obtain ⟨rfl, rfl⟩ := hrest.of_pure
        exact ⟨rfl, .notText htext⟩
      | some text =>
        rw [htext] at hdecode
        obtain ⟨rfl, rfl⟩ := hdecode.of_pure
        obtain ⟨rfl, rfl⟩ := hrest.of_pure
        exact ⟨rfl, .parsed htext⟩
  · rintro ⟨answer, rfl, hread⟩
    unfold readArtifact
    cases hread with
    | missing => exact (ends_readText_error .notFound).bind (.done _)
    | @unreadable f hf =>
      refine (ends_readText_error f).bind ?_
      cases f with
      | notFound => exact absurd rfl hf
      | _ => exact .done _
    | @notText bytes hnone =>
      have htext := ends_readText_bytes (w.artifactPath id) bytes
      rw [hnone] at htext
      exact htext.bind (.done _)
    | @parsed bytes text hsome =>
      have htext := ends_readText_bytes (w.artifactPath id) bytes
      rw [hsome] at htext
      exact htext.bind (.done _)

end Workspace

namespace Run

open Plan Workspace

/-- A compilation of a snippet in a workspace, with all its calls and its result : it ends at the
first stage that fails, or with the artifact. -/
inductive Stages (c : Config) (w : Workspace) (s : Snippet) :
    List Exchange → Except Error Compiled → Prop where
  | notStaged (f : Fault) :
    Stages c w s [w.staging s (.error f)] (.error (.workspace (w.sourcePath s.id) f.text))
  | notBuilt {building : List Exchange} {e : Error} : CompilerRan c w s.id building (.error e) →
    Stages c w s (w.staging s (.ok ()) :: building) (.error e)
  | notRead {building : List Exchange} {answer : Except Fault ByteArray} {e : Error} :
    CompilerRan c w s.id building (.ok ()) →
    Artifact.ReadAs s.id (w.artifactPath s.id) answer (.error e) →
    Stages c w s (w.staging s (.ok ()) :: building ++ [⟨.read (w.artifactPath s.id), answer⟩])
      (.error e)
  | compiled {building : List Exchange} {answer : Except Fault ByteArray} {a : Artifact} :
    CompilerRan c w s.id building (.ok ()) →
    Artifact.ReadAs s.id (w.artifactPath s.id) answer (.ok a) →
    Stages c w s (w.staging s (.ok ()) :: building ++ [⟨.read (w.artifactPath s.id), answer⟩])
      (.ok ⟨s.id, a⟩)

variable {c : Config} {w : Workspace} {s : Snippet} {log : List Exchange}
  {result : Except Error Compiled}

/-- The compilations of a snippet are those that end at one of the stages. -/
theorem ends_compileIn_iff (htimely : Timely log) :
    Ends (compileIn c w s) log result ↔ Stages c w s log result := by
  constructor
  · intro he
    rcases he.of_andThen with ⟨e, hbuild, rfl⟩ | ⟨first, ⟨⟩, second, rfl, hbuild, hrest⟩
    · rcases hbuild.of_andThen with ⟨e', hstage, heq⟩ | ⟨first, path, second, rfl, hstage, hrun⟩
      · obtain ⟨f, rfl, hf⟩ | ⟨-, hok⟩ := ends_stage_iff.1 hstage
        · obtain rfl := (Except.error.inj heq).trans (Except.error.inj hf)
          exact .notStaged f
        · cases hok
      · obtain ⟨f, -, hf⟩ | ⟨rfl, -⟩ := ends_stage_iff.1 hstage
        · cases hf
        · exact .notBuilt ((ends_runCompiler_iff (htimely.mono (by simp))).1 hrun)
    · rcases hbuild.of_andThen with ⟨e, -, hr⟩ | ⟨staging, path, building, rfl, hstage, hrun⟩
      · cases hr
      obtain ⟨f, -, hf⟩ | ⟨rfl, -⟩ := ends_stage_iff.1 hstage
      · cases hf
      have hran := (ends_runCompiler_iff (htimely.mono (by simp))).1 hrun
      rcases hrest.of_andThen with ⟨e, hread, rfl⟩ | ⟨reading, a, last, rfl, hread, hlast⟩
      · obtain ⟨answer, rfl, hreadAs⟩ := ends_readArtifact_iff.1 hread
        exact .notRead hran hreadAs
      · obtain ⟨answer, rfl, hreadAs⟩ := ends_readArtifact_iff.1 hread
        obtain ⟨rfl, rfl⟩ := hlast.of_pure
        rw [List.append_nil]
        exact .compiled hran hreadAs
  · intro hs
    have hbuild : ∀ {building r}, CompilerRan c w s.id building r → building ⊆ log →
        Ends (w.buildSnippet c s) (w.staging s (.ok ()) :: building) r := fun hran hsub =>
      (ends_stage_iff.2 (Or.inr ⟨rfl, rfl⟩)).andThen_ok
        ((ends_runCompiler_iff (htimely.mono hsub)).2 hran)
    cases hs with
    | notStaged f =>
      have hstage : Ends (w.stage s) [w.staging s (.error f)]
          (.error (.workspace (w.sourcePath s.id) f.text)) :=
        ends_stage_iff.2 (Or.inl ⟨f, rfl, rfl⟩)
      exact hstage.andThen_error.andThen_error
    | notBuilt hran => exact (hbuild hran (by simp)).andThen_error
    | notRead hran hreadAs =>
      have hread := ends_readArtifact_iff.2 ⟨_, rfl, hreadAs⟩
      exact (hbuild hran (by simp)).andThen_ok hread.andThen_error
    | @compiled building answer a hran hreadAs =>
      have hread : Ends (andThen (w.readArtifact s.id) fun a => pure (.ok (Compiled.mk s.id a)))
          ([⟨.read (w.artifactPath s.id), answer⟩] ++ []) (.ok ⟨s.id, a⟩ : Except Error Compiled) :=
        (ends_readArtifact_iff.2 ⟨_, rfl, hreadAs⟩).andThen_ok (ends_pure _)
      rw [List.append_nil] at hread
      exact (hbuild hran (by simp)).andThen_ok hread

/-! ## What follows -/

/-- Every stage succeeded : the snippet was written, the compiler was found and accepted, and the
artifact was read. -/
structure Succeeded (c : Config) (w : Workspace) (s : Snippet) (log : List Exchange)
    (compiled : Compiled) : Prop where
  id : compiled.id = s.id
  staged : w.staging s (.ok ()) ∈ log
  built : ∃ program outcome, ⟨.locate c.executable, some program⟩ ∈ log ∧
    ⟨.execute program w.root c.timeout, .ok outcome⟩ ∈ log ∧ outcome.Accepted
  read : ∃ bytes text, ⟨.read (w.artifactPath s.id), .ok bytes⟩ ∈ log ∧
    Text.decode? bytes = some text ∧
    Artifact.parse s.id (w.artifactPath s.id) text = .ok compiled.artifact

section CompilerRan

variable {id : Snippet.Id} {building : List Exchange} {r : Except Error Unit}
  (hran : CompilerRan c w id building r)

include hran in
/-- The compiler is looked for, and run if it is found. -/
theorem calls_of_compilerRan : building = [⟨.locate c.executable, none⟩] ∨
    ∃ program answer, building = [⟨.locate c.executable, some program⟩,
      ⟨.execute program w.root c.timeout, answer⟩] := by
  cases hran with
  | notFound => exact Or.inl rfl
  | notStarted program | refused program | accepted program => exact Or.inr ⟨program, _, rfl⟩

include hran in
/-- Only a compiler that was found is run. -/
theorem located_of_execute {program directory : String} {limit : Option Nat}
    {answer : (Call.execute program directory limit).Answer}
    (hmem : ⟨.execute program directory limit, answer⟩ ∈ building) :
    ⟨.locate c.executable, some program⟩ ∈ building := by
  obtain rfl | ⟨program', answer', rfl⟩ := calls_of_compilerRan hran
  · cases List.mem_singleton.1 hmem
  · rcases List.mem_cons.1 hmem with heq | hmem
    · cases heq
    · cases List.mem_singleton.1 hmem
      exact List.mem_cons_self

include hran in
theorem not_read_of_compilerRan {path : String} {answer : (Call.read path).Answer} :
    ⟨.read path, answer⟩ ∉ building := fun hmem => by
  obtain rfl | ⟨program, answer', rfl⟩ := calls_of_compilerRan hran
  · cases List.mem_singleton.1 hmem
  · rcases List.mem_cons.1 hmem with heq | hmem
    · cases heq
    · cases List.mem_singleton.1 hmem

end CompilerRan

/-- A compiler that is accepted was found and ended as it should. -/
theorem exists_accepted {id : Snippet.Id} {building : List Exchange}
    (hran : CompilerRan c w id building (.ok ())) : ∃ program outcome,
      building = [⟨.locate c.executable, some program⟩,
        ⟨.execute program w.root c.timeout, .ok outcome⟩] ∧ outcome.Accepted := by
  cases hran with
  | accepted program haccepted => exact ⟨program, _, rfl, haccepted⟩

/-- The error of a compiler belongs to the snippet. -/
theorem snippet?_of_compilerRan {id : Snippet.Id} {building : List Exchange} {e : Error}
    (hran : CompilerRan c w id building (.error e)) : e.snippet? = some id := by
  cases hran <;> rfl

variable (hs : Stages c w s log result)

include hs in
/-- A program is started only when the snippet was written and the program was found. -/
theorem Stages.staged_of_execute {program directory : String} {limit : Option Nat}
    {answer : (Call.execute program directory limit).Answer}
    (hmem : ⟨.execute program directory limit, answer⟩ ∈ log) :
    w.staging s (.ok ()) ∈ log ∧ ⟨.locate c.executable, some program⟩ ∈ log := by
  cases hs with
  | notStaged f => cases List.mem_singleton.1 hmem
  | notBuilt hran =>
    rcases List.mem_cons.1 hmem with heq | hmem
    · cases heq
    · exact ⟨List.mem_cons_self, List.mem_cons_of_mem _ (located_of_execute hran hmem)⟩
  | notRead hran | compiled hran =>
    rcases List.mem_append.1 hmem with hmem | hmem
    · rcases List.mem_cons.1 hmem with heq | hmem
      · cases heq
      · exact ⟨by simp, by simp [located_of_execute hran hmem]⟩
    · cases List.mem_singleton.1 hmem

include hs in
/-- An artifact is read only when the compiler was accepted. -/
theorem Stages.accepted_of_read {path : String} {answer : (Call.read path).Answer}
    (hmem : ⟨.read path, answer⟩ ∈ log) : path = w.artifactPath s.id ∧ ∃ program outcome,
      ⟨.execute program w.root c.timeout, .ok outcome⟩ ∈ log ∧ outcome.Accepted := by
  cases hs with
  | notStaged f => cases List.mem_singleton.1 hmem
  | notBuilt hran =>
    rcases List.mem_cons.1 hmem with heq | hmem
    · cases heq
    · exact absurd hmem (not_read_of_compilerRan hran)
  | notRead hran | compiled hran =>
    obtain ⟨program, outcome, rfl, haccepted⟩ := exists_accepted hran
    refine ⟨?_, program, outcome, by simp, haccepted⟩
    simp only [List.cons_append, List.nil_append, List.mem_cons, List.not_mem_nil, or_false] at hmem
    rcases hmem with heq | heq | heq | heq <;> cases heq
    rfl

include hs in
/-- Every error but one of the workspace belongs to the snippet. -/
theorem Stages.error_cases {e : Error} (he : result = .error e) :
    e.OfWorkspace ∨ e.snippet? = some s.id := by
  cases hs with
  | notStaged f =>
    cases he
    exact Or.inl ⟨_, _, rfl⟩
  | notBuilt hran =>
    cases he
    exact Or.inr (snippet?_of_compilerRan hran)
  | notRead _ hread =>
    cases he
    exact Or.inr hread.snippet?
  | compiled => cases he

include hs in
/-- A compilation gives an artifact just if every stage succeeds. -/
theorem Stages.ok_iff (compiled : Compiled) :
    result = .ok compiled ↔ Succeeded c w s log compiled := by
  constructor
  · rintro rfl
    cases hs with
    | @compiled building answer a hran hread =>
      obtain ⟨program, outcome, rfl, haccepted⟩ := exists_accepted hran
      obtain ⟨bytes, text, rfl, htext, hparse⟩ := Artifact.readAs_ok_iff.1 hread
      exact ⟨rfl, by simp, ⟨program, outcome, by simp, by simp, haccepted⟩, bytes, text, by simp,
        htext, hparse⟩
  · rintro ⟨hid, -, -, bytes, text, hmem, htext, hparse⟩
    -- The answer that was read stands at the end of the log, and only there.
    have hlast : ∀ {building r answer}, CompilerRan c w s.id building (.ok ()) →
        ⟨.read (w.artifactPath s.id), .ok bytes⟩ ∈
          w.staging s (.ok ()) :: building ++ [⟨.read (w.artifactPath s.id), answer⟩] →
        Artifact.ReadAs s.id (w.artifactPath s.id) answer r → r = .ok compiled.artifact := by
      intro building r answer hran hmem hread
      rcases List.mem_append.1 hmem with hmem | hmem
      · rcases List.mem_cons.1 hmem with heq | hmem
        · cases heq
        · exact absurd hmem (not_read_of_compilerRan hran)
      · cases List.mem_singleton.1 hmem
        exact (hread.eq_parse htext).trans hparse
    cases hs with
    | notStaged f => cases List.mem_singleton.1 hmem
    | notBuilt hran =>
      rcases List.mem_cons.1 hmem with heq | hmem
      · cases heq
      · exact absurd hmem (not_read_of_compilerRan hran)
    | notRead hran hread => cases hlast hran hmem hread
    | compiled hran hread =>
      obtain rfl := Except.ok.inj (hlast hran hmem hread)
      obtain ⟨id, artifact⟩ := compiled
      obtain rfl : id = s.id := hid
      rfl

/-- A text with something to compile is compiled in the workspace that is ready. -/
theorem ends_compile_iff {r r' : Run} (hready : r.made = some (.ok w)) :
    Ends (r.compile s.text) log (result, r') ↔
      r' = r ∧ Ends (compileIn r.config w s) log result := by
  unfold compile workspace
  rw [Snippet.ofText_text, hready]
  constructor
  · intro he
    obtain ⟨first, ⟨made, r₁⟩, second, rfl, hfirst, hsecond⟩ := he.of_bind
    obtain ⟨rfl, hr⟩ := hfirst.of_pure
    cases hr
    obtain ⟨building, result', rest, rfl, hbuilding, hrest⟩ := Ends.of_bind hsecond
    obtain ⟨rfl, heq⟩ := hrest.of_pure
    cases heq
    rw [List.append_nil]
    exact ⟨rfl, hbuilding⟩
  · rintro ⟨rfl, he⟩
    have hboth : Ends (compileIn r'.config w s >>= fun result => pure (result, r')) (log ++ [])
        (result, r') := he.bind (.done _)
    rwa [List.append_nil] at hboth

/-- In a workspace that is ready, whatever the machine answers, a text with something to compile is
compiled in one of the ways of `Stages`. It gives an artifact just if every stage succeeds; no
program is started unless the text was written and the program found, no artifact is read unless the
compiler was accepted, and every error but one of the workspace belongs to the text. -/
theorem compile_stages {r : Run} (hready : r.made = some (.ok w)) (s : Snippet) :
    (∀ answers : (call : Call) → call.Answer, ∃ log result,
      Ends (r.compile s.text) log (result, r) ∧ ∀ x ∈ log, x.2 = answers x.1) ∧
    (∀ log, Timely log → ∀ result r', Ends (r.compile s.text) log (result, r') ↔
      r' = r ∧ Stages r.config w s log result) ∧
    ∀ log result, Stages r.config w s log result →
      (∀ compiled, result = .ok compiled ↔ Succeeded r.config w s log compiled) ∧
      (∀ program directory limit answer, ⟨.execute program directory limit, answer⟩ ∈ log →
        w.staging s (.ok ()) ∈ log ∧ ⟨.locate r.config.executable, some program⟩ ∈ log) ∧
      (∀ path answer, ⟨.read path, answer⟩ ∈ log → path = w.artifactPath s.id ∧
        ∃ program outcome, ⟨.execute program w.root r.config.timeout, .ok outcome⟩ ∈ log ∧
          outcome.Accepted) ∧
      ∀ e, result = .error e → e.OfWorkspace ∨ e.snippet? = some (Snippet.Id.ofText s.text) := by
  refine ⟨fun answers => ?_, fun log htimely result r' => ?_, fun log result hs => ?_⟩
  · obtain ⟨log, ⟨result, r'⟩, he, hanswers⟩ := exists_ends_answered answers (r.compile s.text)
    obtain rfl := ((ends_compile_iff hready).1 he).1
    exact ⟨log, result, he, hanswers⟩
  · exact (ends_compile_iff hready).trans (and_congr_right fun _ => ends_compileIn_iff htimely)
  · exact ⟨hs.ok_iff, fun _ _ _ _ hmem => hs.staged_of_execute hmem,
      fun _ _ hmem => hs.accepted_of_read hmem, fun _ he => hs.error_cases he⟩

/-! ## A compiler that ends by a signal -/

/-- A run whose workspace is ready. -/
def ready : Run :=
  ⟨⟨Manifest.defaultSolc, "forge", "w", false, some 5⟩, some (.ok ⟨"w"⟩)⟩

theorem not_blank_tiny : Text.isBlank "contract C \x7b\x7d" = false := by
  decide

/-- A snippet. -/
def tiny : Snippet :=
  ⟨"contract C \x7b\x7d", not_blank_tiny⟩

/-- The calls of a compilation in which the compiler ends in some way. -/
def endingIn (outcome : Outcome) : List Exchange :=
  [Workspace.staging ⟨"w"⟩ tiny (.ok ()), ⟨.locate "forge", some "/bin/forge"⟩,
    ⟨.execute "/bin/forge" "w" (some 5), .ok outcome⟩]

/-- What a compiler leaves that is killed when it has written blanks to standard error. -/
def killed : Outcome :=
  ⟨.killed, "stopped".toUTF8, " \n".toUTF8⟩

theorem shown_killed : killed.shown = "stopped" := by
  decide +kernel

/-- A compiler that is killed is told with its standard output, and no artifact is read. -/
theorem compile_stages_killed :
    Ends (ready.compile tiny.text) (endingIn killed)
      (.error (.build tiny.id (.exited none) "stopped"), ready) ∧
      ∀ compiled, ¬ Succeeded ready.config ⟨"w"⟩ tiny (endingIn killed) compiled := by
  obtain ⟨-, hruns, hfollows⟩ := compile_stages (r := ready) (w := ⟨"w"⟩) rfl tiny
  have hstages : Stages ready.config ⟨"w"⟩ tiny (endingIn killed)
      (.error (.build tiny.id (.exited none) "stopped")) :=
    .notBuilt (.refused "/bin/forge" (shown_killed ▸ .killed rfl))
  have htimely : Timely (endingIn killed) := by
    intro program directory outcome hmem
    simp only [endingIn, List.mem_cons, List.not_mem_nil, or_false] at hmem
    rcases hmem with heq | heq | heq <;> cases heq
  refine ⟨(hruns _ htimely _ _).2 ⟨rfl, hstages⟩, fun compiled hsucceeded => ?_⟩
  cases ((hfollows _ _ hstages).1 compiled).2 hsucceeded

end Run

end EmbeddedSolidity
