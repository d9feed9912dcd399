import EmbeddedSolidity.Proofs.Report.Output
import EmbeddedSolidity.Proofs.Workspace.Refusal

/-!
# The files of a report

The artifacts of a report are written one after the other, in the order of their names, and the first
failure ends the writing. So whatever fails, the files of some first names are written, that of the next
one may be written in part, and nothing else changes but that directories may have been made. What
must not be there is a link with the name of such a file : the writing would follow it.

* `Report.Ending` : how the writing ends;
* `Report.ending_writeEach`, `Report.ending_writeArtifacts` : every run ends so;
* `Report.missing_path_overwrites` : a path at which nothing is, and whose directory has links.
-/

namespace EmbeddedSolidity

open FileSystem FileSystem.FileTree

variable {h : Host} {t t₁ t' : FileTree} {log : List Exchange} {p p' q : Place}

namespace Report

variable {r : Report} {directory name : String} {written touched : List (String × Artifact)}
  {x : String × Artifact}

/-! ## What is written -/

/-- In the directory of the files this is not the place of one of these artifacts. -/
def Untouched (h : Host) (t' : FileTree) (directory : String) (touched : List (String × Artifact))
    (q : Place) : Prop :=
  ∀ p, Opens h t' directory p → ∀ x ∈ touched, q ≠ placeOf p x.1

/-- The artifacts `written` are in their files. Apart from the files of `touched`, every entry is as
it was, and new ones are directories. -/
structure Written (h : Host) (directory : String) (written touched : List (String × Artifact))
    (t t' : FileTree) : Prop where
  holds : ∀ x ∈ written, ∃ p executable, Opens h t' directory p ∧
    t'.get? (placeOf p x.1) = some (.file x.2.value.pretty.toUTF8 executable) ∧
    Plan.textAt h t' (pathOf directory x.1) = .ok x.2.value.pretty
  kept : ∀ q e, Untouched h t' directory touched q → t.get? q = some e → t'.get? q = some e
  added : ∀ q e, Untouched h t' directory touched q → t'.get? q = some e →
    t.get? q = some e ∨ e = .directory

/-- How the writing of artifacts ends : all are written, or those in front of one are, and at most the
file of that one is changed besides. -/
inductive Ending (h : Host) (directory : String) (artifacts : List (String × Artifact))
    (t t' : FileTree) : Except Error (List String) → Prop where
  | all : Written h directory artifacts artifacts t t' →
    Ending h directory artifacts t t' (.ok (artifacts.map (pathOf directory ·.1)))
  | stopped {before after : List (String × Artifact)} {x : String × Artifact} (f : Fault) :
    artifacts = before ++ x :: after → Written h directory before (before ++ [x]) t t' →
    Ending h directory artifacts t t' (.error (.output (pathOf directory x.1) f.text))

theorem Written.refl (touched : List (String × Artifact)) (t : FileTree) :
    Written h directory [] touched t t :=
  ⟨List.forall_mem_nil _, fun _ _ _ he => he, fun _ _ _ he => .inl he⟩

/-- Before the writing directories may be made. -/
theorem Written.behind (hkept : Extends t t₁)
    (hadded : ∀ q e, t₁.get? q = some e → t.get? q = some e ∨ e = .directory)
    (hw : Written h directory written touched t₁ t') : Written h directory written touched t t' :=
  ⟨hw.holds, fun q e hq he => hw.kept q e hq (hkept q e he),
    fun q e hq he => (hw.added q e hq he).elim (hadded q e) .inr⟩

/-- A file may be written in part. -/
theorem written_put {content : ByteArray} {executable : Bool}
    (ho : Opens h (t.put (placeOf p x.1) (.file content executable)) directory p) :
    Written h directory [] [x] t (t.put (placeOf p x.1) (.file content executable)) := by
  have hne : ∀ {q}, Untouched h (t.put (placeOf p x.1) (.file content executable)) directory [x] q →
      q ≠ placeOf p x.1 := fun hq => hq p ho x (List.mem_singleton_self x)
  refine ⟨List.forall_mem_nil _, fun q e hq he => ?_, fun q e hq he => .inl ?_⟩
  · rwa [get?_put_of_ne t _ (hne hq)]
  · rwa [get?_put_of_ne t _ (hne hq)] at he

/-- The file of an artifact is written before those of others. -/
theorem Written.cons {executable : Bool}
    (htargets : t.Targets h.current (pathOf directory x.1) (placeOf p x.1))
    (hkeeps : KeepsWays t t') (ho : Opens h t' directory p) (hnew : ∀ y ∈ touched, x.1 ≠ y.1)
    (hw : Written h directory written touched
      (t.put (placeOf p x.1) (.file x.2.value.pretty.toUTF8 executable)) t') :
    Written h directory (x :: written) (x :: touched) t t' := by
  -- The file is not touched again, since its name is not.
  have huntouched : Untouched h t' directory touched (placeOf p x.1) := fun p' ho' y hy heq => by
    obtain rfl := ho.unique (fun _ _ _ he => he) ho'
    exact hnew y hy (placeOf_inj heq)
  have hfile := hw.kept _ _ huntouched (get?_put_self t _ htargets.not_way.1)
  have hrest : ∀ {q}, Untouched h t' directory (x :: touched) q →
      q ≠ placeOf p x.1 ∧ Untouched h t' directory touched q := fun hq =>
    ⟨hq p ho x List.mem_cons_self, fun p' ho' y hy => hq p' ho' y (List.mem_cons_of_mem _ hy)⟩
  refine ⟨List.forall_mem_cons.2 ⟨⟨p, executable, ho, hfile, ?_⟩, hw.holds⟩, fun q e hq he => ?_,
    fun q e hq he => ?_⟩
  · exact Workspace.textAt_of_entryAt (htargets.entryAt hkeeps hfile) (Text.decode?_toUTF8 _)
  · refine hw.kept q e (hrest hq).2 ?_
    rwa [get?_put_of_ne t _ (hrest hq).1]
  · have hadded := hw.added q e (hrest hq).2 he
    rwa [get?_put_of_ne t _ (hrest hq).1] at hadded

/-! ## Runs -/

/-- Artifacts of different names, none of whose files is a link, are written one after the other up to
the first failure. -/
theorem ending_writeEach {result : Except Error (List String)}
    (hnames : ∀ x ∈ written, OfSnippet x.1) (hdifferent : written.Pairwise fun a b => a.1 ≠ b.1)
    (hrun : Plan.Meets h (writeEach directory written) t log result t')
    (hlinks : ∀ p, Opens h t' directory p → ∀ x ∈ written, ∀ target,
      t.get? (placeOf p x.1) ≠ some (.link target)) :
    Ending h directory written t t' result := by
  induction written generalizing t log result with
  | nil =>
    obtain ⟨rfl, rfl⟩ := hrun.of_pure
    exact .all (.refl [] _)
  | cons x rest ih =>
    rw [List.forall_mem_cons] at hnames
    rw [List.pairwise_cons] at hdifferent
    have hplace : ∀ {q}, t.Targets h.current (pathOf directory x.1) q → KeepsWays t t' →
        ∃ p, Opens h t' directory p ∧ q = placeOf p x.1 := fun htargets hkeeps => by
      obtain ⟨p, ho, hq⟩ := exists_opens hnames.1 htargets
      refine ⟨p, ho.mono hkeeps, hq.resolve_right fun ⟨target, hlink⟩ => ?_⟩
      exact hlinks p (ho.mono hkeeps) x List.mem_cons_self target hlink
    have hways := keepsWays_writeEach hrun
    obtain ⟨answer, t₁, first, second, hwrite, hrest⟩ := hrun.of_bind
    rcases hwrite.of_call.write with
      ⟨rfl, q, executable, htargets, rfl⟩ | ⟨⟨f, rfl⟩, rfl | ⟨q, part, executable, htargets, rfl⟩⟩
    · obtain ⟨p, ho, rfl⟩ := hplace htargets hways
      obtain ⟨outcome, t₂, third, fourth, hthird, hpure⟩ := hrest.of_bind
      obtain ⟨rfl, rfl⟩ := hpure.of_pure
      have hnew := noNewLinks_put t htargets.not_way.1 (e := .file x.2.value.pretty.toUTF8 executable)
        fun _ => nofun
      cases ih hnames.2 hdifferent.2 hthird fun p ho y hy target hlink =>
        hlinks p ho y (List.mem_cons_of_mem _ hy) target (hnew _ _ hlink) with
      | all hw => exact .all (hw.cons htargets hways ho hdifferent.1)
      | @stopped before after y f heq hw =>
        subst heq
        have hothers : ∀ z ∈ before ++ [y], x.1 ≠ z.1 := fun z hz =>
          hdifferent.1 z (by
            rw [List.append_cons]
            exact List.mem_append_left after hz)
        exact .stopped f List.cons_append.symm (hw.cons htargets hways ho hothers)
    · obtain ⟨rfl, rfl⟩ := hrest.of_pure
      exact .stopped f rfl (.refl _ _)
    · obtain ⟨rfl, rfl⟩ := hrest.of_pure
      obtain ⟨p, ho, rfl⟩ := hplace htargets hways
      exact .stopped f rfl (written_put ho)

/-- The artifacts of a report are written in the order of their names, for each name the last one, into
files of their own, up to the first failure; if none of these files was a link, nothing else changes
but that directories may be made. -/
theorem ending_writeArtifacts {result : Except Error (List String)}
    (hids : ∀ e ∈ r.artifacts, ∃ text, e.compiled.id = Snippet.Id.ofText text)
    (hrun : Plan.Meets h (r.writeArtifacts directory) t log result t')
    (hlinks : ∀ p, Opens h t' directory p → ∀ e ∈ r.artifacts, ∀ target,
      t.get? (p ++ [e.compiled.id.artifactFile]) ≠ some (.link target)) :
    (r.distinct.Pairwise fun a b => a.1 < b.1) ∧
      (∀ name, Json.member? name r.distinct = (r.artifacts.filter fun e =>
        e.compiled.id.name == name).getLast?.map (·.compiled.artifact)) ∧
      ((∃ f, result = .error (.output directory (Fault.text f)) ∧ Written h directory [] [] t t') ∨
        Ending h directory r.distinct t t' result) := by
  refine ⟨r.ordered_distinct, r.member?_distinct, ?_⟩
  obtain ⟨answer, t₁, first, second, hmake, hrest⟩ := hrun.of_bind
  obtain ⟨hkept, hadded⟩ := hmake.of_call.makeDirectories
  cases answer with
  | error f =>
    obtain ⟨rfl, rfl⟩ := hrest.of_pure
    exact .inl ⟨f, rfl, .behind hkept hadded (.refl [] _)⟩
  | ok u =>
    have hnames : ∀ x ∈ r.distinct, OfSnippet x.1 := fun x hx => by
      obtain ⟨e, he, rfl⟩ := r.mem_distinct x hx
      obtain ⟨text, hid⟩ := hids e he
      exact ⟨text, congrArg Snippet.Id.name hid⟩
    have hfree : ∀ p, Opens h t' directory p → ∀ x ∈ r.distinct, ∀ target,
        t₁.get? (placeOf p x.1) ≠ some (.link target) := fun p ho x hx target hlink => by
      obtain ⟨e, he, rfl⟩ := r.mem_distinct x hx
      exact hlinks p ho e he target ((hadded _ _ hlink).resolve_right nofun)
    refine .inr ?_
    cases ending_writeEach hnames r.pairwise_distinct hrest hfree with
    | all hw => exact .all (hw.behind hkept hadded)
    | stopped f heq hw => exact .stopped f heq (hw.behind hkept hadded)

/-- Directories and links stay, whatever is made and written. -/
theorem keepsWays_writeArtifacts {result : Except Error (List String)}
    (hrun : Plan.Meets h (r.writeArtifacts directory) t log result t') : KeepsWays t t' := by
  obtain ⟨answer, t₁, first, second, hmake, hrest⟩ := hrun.of_bind
  have hkept := (hmake.of_call.makeDirectories).1
  cases answer with
  | error f =>
    obtain ⟨-, rfl⟩ := hrest.of_pure
    exact fun q e _ he => hkept q e he
  | ok u => exact fun q e hway he => keepsWays_writeEach hrest q e hway (hkept q e he)

/-! ## A directory with notes -/

/-- An artifact with this code. -/
def located (text code : String) : LocatedArtifact :=
  ⟨⟨"a.rs", 1, 1⟩, ⟨Snippet.Id.ofText text, ⟨[], ⟨code, ""⟩⟩⟩⟩

/-- A report that has two artifacts for one text. -/
def recompiled : Report :=
  ⟨[located "A" "0xaa", located "B" "0xbb", located "A" "0xcc"], []⟩

/-- A directory with notes, a link to them, and an entry with the name of an artifact. -/
def noted (entry : Entry) : FileTree :=
  ⟨[(["out"], .directory), (["out", "notes.txt"], .file "keep me".toUTF8 false),
    (["out", "latest.json"], .link "notes.txt"),
    (["out", (Snippet.Id.ofText "A").artifactFile], entry)]⟩

theorem opens_noted (entry : Entry) : Opens Workspace.bare (noted entry) "out" ["out"] :=
  have hentry : (noted entry).entryAt [] true "out" = .ok (["out"], .directory) := rfl
  .inr (leads_of_entryAt hentry)

/-- The files of a report are written into a directory that has an older one of them. -/
theorem ending_writeArtifacts_noted :
    ∃ paths t', (recompiled.writeArtifacts "out").run Workspace.bare
        (noted (.file "old".toUTF8 false)) = (.ok paths, t') ∧
      paths = recompiled.distinct.map (pathOf "out" ·.1) ∧
      Written Workspace.bare "out" recompiled.distinct recompiled.distinct
        (noted (.file "old".toUTF8 false)) t' := by
  have hok : ((recompiled.writeArtifacts "out").run Workspace.bare
      (noted (.file "old".toUTF8 false))).1.isOk = true := by
    decide +kernel
  have hmeets := Plan.meets_log Workspace.bare (recompiled.writeArtifacts "out")
    (noted (.file "old".toUTF8 false))
  have hids : ∀ e ∈ recompiled.artifacts, ∃ text, e.compiled.id = Snippet.Id.ofText text := by
    simp only [recompiled, List.forall_mem_cons]
    exact ⟨⟨_, rfl⟩, ⟨_, rfl⟩, ⟨_, rfl⟩, List.forall_mem_nil _⟩
  have hkinds : ∀ e ∈ recompiled.artifacts, ((noted (.file "old".toUTF8 false)).get?
      (["out"] ++ [e.compiled.id.artifactFile])).map kindOf ≠ some .link := by
    decide +kernel
  obtain ⟨-, -, hending⟩ := ending_writeArtifacts hids hmeets fun p ho e he target hlink => by
    obtain rfl := (opens_noted _).unique (keepsWays_writeArtifacts hmeets) ho
    exact hkinds e he (congrArg (Option.map kindOf) hlink)
  obtain ⟨⟨result, t'⟩, hrun⟩ : ∃ out, (recompiled.writeArtifacts "out").run Workspace.bare
    (noted (.file "old".toUTF8 false)) = out := ⟨_, rfl⟩
  rw [hrun] at hok hending
  dsimp only at hok hending
  obtain ⟨f, rfl, -⟩ | hending := hending
  · cases hok
  · cases hending with
    | all hw => exact ⟨_, t', hrun, rfl, hw⟩
    | stopped => cases hok

/-- Nothing is at a path that leads by way of a missing directory to one that is there. So the
directory is not looked into, and the artifact goes where a link with its name leads to : the notes of
the directory are lost. -/
theorem missing_path_overwrites :
    (noted (.link "notes.txt")).kind [] "missing/../out" = .error .notFound ∧
      (∃ paths, ((recompiled.writeArtifacts "missing/../out").run Workspace.bare
        (noted (.link "notes.txt"))).1 = .ok paths) ∧
      (noted (.link "notes.txt")).get? ["out", "notes.txt"] =
        some (.file "keep me".toUTF8 false) ∧
      (∀ e ∈ recompiled.artifacts, e.compiled.id.artifactFile ≠ "notes.txt") ∧
      ((recompiled.writeArtifacts "missing/../out").run Workspace.bare
        (noted (.link "notes.txt"))).2.get? ["out", "notes.txt"] ≠
          some (.file "keep me".toUTF8 false) := by
  have hok : ((recompiled.writeArtifacts "missing/../out").run Workspace.bare
      (noted (.link "notes.txt"))).1.isOk = true := by
    decide +kernel
  refine ⟨by decide +kernel, ?_, by decide +kernel, by decide +kernel, by decide +kernel⟩
  cases hresult : ((recompiled.writeArtifacts "missing/../out").run Workspace.bare
      (noted (.link "notes.txt"))).1 with
  | error e =>
    rw [hresult] at hok
    cases hok
  | ok paths => exact ⟨paths, rfl⟩

end Report

end EmbeddedSolidity
