import EmbeddedSolidity.Proofs.Plan.Log
import EmbeddedSolidity.Proofs.Report.Output
import EmbeddedSolidity.Proofs.Workspace.Contents
import EmbeddedSolidity.Proofs.Workspace.Fresh
import EmbeddedSolidity.Proofs.Workspace.Refusal

/-!
# Snippets with the same name

A snippet is named by eight digits of the digest of its text, and its source and its artifact are
files of that name. Whatever is written for a snippet later takes the place of what was written for
one with its name, so nothing is lost if the names tell the snippets apart. They need not: there are
short contracts whose names are the same.

* `Workspace.ensures_stageAll` : each source file holds the text that was written for its name last;
* `Report.ends_writeArtifacts` : the files that the artifacts of a report are written to;
* `Snippet.nothing_replaced_iff` : nothing is lost just if the names tell the snippets apart;
* `Snippet.clash_replaces_source` : two contracts with one name.
-/

namespace EmbeddedSolidity

open FileSystem FileSystem.FileTree

namespace Snippet

/-- Snippets with the same name have the same text. -/
def ToldApart (ss : List Snippet) : Prop :=
  ∀ s ∈ ss, ∀ s' ∈ ss, s.id = s'.id → s.text = s'.text

/-- The last of the snippets with a name. -/
def lastOf (id : Id) (ss : List Snippet) : Option Snippet :=
  (ss.filter (·.id = id)).getLast?

theorem lastOf_cons (id : Id) (s : Snippet) (rest : List Snippet) :
    lastOf id (s :: rest) = (lastOf id rest).or (if s.id = id then some s else none) := by
  unfold lastOf
  rw [List.filter_cons]
  split
  · next hid => rw [List.getLast?_cons, if_pos (of_decide_eq_true hid), Option.or_some]
  · next hid => rw [if_neg (by simpa using hid), Option.or_none]

theorem mem_of_lastOf {id : Id} {ss : List Snippet} {s : Snippet} (hlast : lastOf id ss = some s) :
    s ∈ ss ∧ s.id = id := by
  simpa using List.mem_filter.1 (List.mem_of_getLast? hlast)

theorem exists_lastOf {ss : List Snippet} {s : Snippet} (hs : s ∈ ss) :
    ∃ s', lastOf s.id ss = some s' := by
  have hne : ss.filter (·.id = s.id) ≠ [] :=
    List.ne_nil_of_mem (List.mem_filter.2 ⟨hs, by simp⟩)
  exact ⟨_, List.getLast?_eq_some_getLast hne⟩

end Snippet

/-! ## Sources -/

namespace Workspace

variable {h : Host} {w : Workspace} {t : FileTree} {m : Nat} {p : Place} {solc : String}

/-- The workspace in the directory `p` has a directory for sources, and what is there under the name
of a snippet is a file. -/
structure Receives (h : Host) (w : Workspace) (m : Nat) (p : Place) (t : FileTree) : Prop where
  leads : Leads t h.current w.root m p
  sources : t.get? (sourcePlace p) = some .directory
  files : ∀ (s : Snippet) e, t.get? (s.id.sourcePlace p) = some e →
    ∃ content executable, e = .file content executable

/-- A fresh workspace receives sources. -/
theorem Fresh.receives (hfresh : Fresh h w t m p) : Receives h w m p t where
  leads := hfresh.leads
  sources := hfresh.sources
  files s e he := by
    have hfree := hfresh.empty (s.id.sourcePlace p)
      (below_append (sourcePlace p) s.id.sourceFile [])
    rw [hfree] at he
    cases he

/-- The text is in the source file of the name. -/
def HoldsSource (p : Place) (id : Snippet.Id) (text : String) (t : FileTree) : Prop :=
  ∃ executable, t.get? (id.sourcePlace p) = some (.file text.toUTF8 executable)

/-- The path of a source file targets its place. -/
theorem Receives.targets (ht : Receives h w m p t) (hroom : w.HasRoom) (s : Snippet) :
    t.Targets h.current (w.sourcePath s.id) (s.id.sourcePlace p) := by
  have hnamed : Named s.id.sourceFile := Snippet.Id.named_sourceFile s.text
  have hresolve := resolve_source ht.leads ht.sources hnamed (hroom s.text) true
  cases hthere : t.get? (s.id.sourcePlace p) with
  | none => exact ⟨_, hresolve.trans (walk_free hnamed.plain ht.sources hthere), Or.inl rfl⟩
  | some e =>
    obtain ⟨content, executable, rfl⟩ := ht.files s e hthere
    exact ⟨_, hresolve.trans (walk_file hnamed.plain hthere), Or.inr ⟨content, executable, rfl⟩⟩

/-- A text in a source file is read at its path. -/
theorem Receives.textAt (ht : Receives h w m p t) (hroom : w.HasRoom) {s : Snippet} {text : String}
    (hholds : HoldsSource p s.id text t) :
    Plan.textAt h t (w.sourcePath s.id) = .ok text := by
  obtain ⟨executable, hfile⟩ := hholds
  exact textAt_of_entryAt ((ht.targets hroom s).entryAt (fun _ _ _ he => he) hfile)
    (Text.decode?_toUTF8 text)

/-- The text of a snippet is written to its source file, and nothing else changes. -/
theorem Receives.stage (ht : Receives h w m p t) (hroom : w.HasRoom) (s : Snippet) :
    Plan.Ensures h (w.stage s) t fun r t' => r = .ok (w.sourcePath s.id) ∧
      Receives h w m p t' ∧ HoldsSource p s.id s.text t' ∧
      ∀ q, q ≠ s.id.sourcePlace p → t'.get? q = t.get? q := by
  have hnamed : Named s.id.sourceFile := Snippet.Id.named_sourceFile s.text
  have htargets := ht.targets hroom s
  obtain ⟨executable, hwrite⟩ :=
    htargets.write (Path.endsInSlash_join hnamed.simple) s.text.toUTF8
  have hrun : (w.stage s).run h t = (.ok (w.sourcePath s.id),
      t.put (s.id.sourcePlace p) (.file s.text.toUTF8 executable)) := by
    unfold Workspace.stage
    rw [Plan.run_bind, Plan.run_writeText, hwrite]
    rfl
  have hself := get?_put_self t (.file s.text.toUTF8 executable) htargets.not_way.1
  have hsame : ∀ q, q ≠ s.id.sourcePlace p →
      (t.put (s.id.sourcePlace p) (.file s.text.toUTF8 executable)).get? q = t.get? q :=
    fun q hq => get?_put_of_ne t _ hq
  unfold Plan.Ensures
  rw [hrun]
  refine ⟨rfl, ⟨ht.leads.mono htargets.keepsWays,
    (hsame _ fun heq => ?_).trans ht.sources, fun s' e he => ?_⟩, ⟨executable, hself⟩, hsame⟩
  · exact htargets.not_way.2 _ (heq ▸ ht.sources) isWay_directory
  · by_cases hplace : s'.id.sourcePlace p = s.id.sourcePlace p
    · rw [hplace, hself] at he
      exact ⟨_, _, (Option.some.inj he).symm⟩
    · exact ht.files s' e ((hsame _ hplace).symm.trans he)

/-- Write snippets in order; the first failure ends the writing. -/
def stageAll (w : Workspace) : List Snippet → Plan (Except Error Unit)
  | [] => return .ok ()
  | s :: rest => Plan.andThen (w.stage s) fun _ => w.stageAll rest

theorem sourcePlace_inj {id id' : Snippet.Id} (heq : id.sourcePlace p = id'.sourcePlace p) :
    id = id' :=
  Snippet.Id.sourceFile_inj (List.singleton_inj.1 (List.append_cancel_left heq))

/-- Of all snippets that were written, each source file holds the last one of its name. -/
theorem ensures_stageAll (ht : Receives h w m p t) (hroom : w.HasRoom) (ss : List Snippet) :
    Plan.Ensures h (w.stageAll ss) t fun r t' => r = .ok () ∧ Receives h w m p t' ∧
      (∀ id s, Snippet.lastOf id ss = some s → HoldsSource p id s.text t') ∧
      ∀ q, (∀ s ∈ ss, q ≠ s.id.sourcePlace p) → t'.get? q = t.get? q := by
  induction ss generalizing t with
  | nil => exact ⟨rfl, ht, nofun, fun _ _ => rfl⟩
  | cons s rest ih =>
    refine Plan.ensures_andThen (ht.stage hroom s) (fun _ _ h => nomatch h.1) ?_
    rintro _ t₁ ⟨-, ht₁, hholds, hsame⟩
    refine (ih ht₁).mono ?_
    rintro r t' ⟨hr, ht', hlast, hsame'⟩
    refine ⟨hr, ht', fun id s' hs' => ?_, fun q hq => ?_⟩
    · rw [Snippet.lastOf_cons] at hs'
      cases hrest : Snippet.lastOf id rest with
      | some s'' =>
        rw [hrest, Option.some_or] at hs'
        exact Option.some.inj hs' ▸ hlast id s'' hrest
      | none =>
        -- The name does not occur again, so the file stays as it was written.
        rw [hrest, Option.none_or] at hs'
        split at hs'
        · next hid =>
          obtain rfl := Option.some.inj hs'
          subst hid
          obtain ⟨executable, hfile⟩ := hholds
          refine ⟨executable, (hsame' _ fun s' hs' heq => ?_).trans hfile⟩
          obtain ⟨s'', hs''⟩ := Snippet.exists_lastOf hs'
          rw [← sourcePlace_inj heq, hrest] at hs''
          cases hs''
        · cases hs'
    · rw [List.forall_mem_cons] at hq
      exact (hsame' q hq.2).trans (hsame q hq.1)

/-- All sources are kept just if the names tell the snippets apart. -/
theorem Receives.sources_kept_iff (ht : Receives h w m p t) (hroom : w.HasRoom)
    (ss : List Snippet) :
    (∀ s ∈ ss, Plan.textAt h ((w.stageAll ss).run h t).2 (w.sourcePath s.id) = .ok s.text) ↔
      Snippet.ToldApart ss := by
  constructor
  · intro hkept s hs s' hs' hid
    have htext := hkept s hs
    rw [hid, hkept s' hs'] at htext
    exact (Except.ok.inj htext).symm
  · intro hapart s hs
    obtain ⟨-, ht', hlast, -⟩ := ensures_stageAll ht hroom ss
    obtain ⟨s', hs'⟩ := Snippet.exists_lastOf hs
    obtain ⟨hmem, hid⟩ := Snippet.mem_of_lastOf hs'
    rw [hapart s hs s' hmem hid.symm]
    exact ht'.textAt hroom (hlast _ _ hs')

end Workspace

/-! ## Artifacts -/

namespace Report

open Json (member? mem_of_member?)

variable {r : Report} {directory : String} {log : List Exchange} {paths : List String}
  {sourced : List (Snippet × LocatedArtifact)}

/-- The file of an artifact in a directory. -/
def fileOf (directory : String) (id : Snippet.Id) : String :=
  pathOf directory id.name

/-- Artifacts of different names have different files. -/
theorem fileOf_inj {s s' : Snippet} (heq : fileOf directory s.id = fileOf directory s'.id) :
    s.id = s'.id := by
  have hsimple : ∀ s : Snippet, Path.Simple s.id.artifactFile := fun s =>
    (Snippet.Id.named_artifactFile s.text).simple
  have hparts := congrArg Path.parts heq
  unfold fileOf pathOf at hparts
  rw [Path.parts_join (hsimple s), Path.parts_join (hsimple s')] at hparts
  have hname : s.id.name = s'.id.name := placeOf_inj hparts
  exact congrArg Snippet.Id.mk hname

/-- The call that writes an artifact, and its success. -/
def writing (directory : String) (x : String × Artifact) : Exchange :=
  ⟨.write (pathOf directory x.1) x.2.value.pretty.toUTF8, .ok ()⟩

theorem ends_writeEach {written : List (String × Artifact)}
    (he : Plan.Ends (writeEach directory written) log (.ok paths)) :
    log = written.map (writing directory) ∧ paths = written.map (pathOf directory ·.1) := by
  induction written generalizing log paths with
  | nil =>
    obtain ⟨rfl, heq⟩ := he.of_pure
    exact ⟨rfl, Except.ok.inj heq⟩
  | cons x rest ih =>
    obtain ⟨first, answer, second, rfl, hfirst, hsecond⟩ := he.of_bind
    obtain rfl := hfirst.of_call
    cases answer with
    | error f => cases hsecond.of_pure.2
    | ok u =>
      obtain ⟨third, rest', fourth, rfl, hthird, hfourth⟩ := hsecond.of_bind
      obtain ⟨rfl, heq⟩ := hfourth.of_pure
      cases rest' with
      | error e => cases heq
      | ok paths' =>
        obtain ⟨rfl, rfl⟩ := ih hthird
        rw [List.append_nil]
        exact ⟨rfl, Except.ok.inj heq⟩

/-- If the artifacts of a report are written, each is written to the file of its name. -/
theorem ends_writeArtifacts (he : Plan.Ends (r.writeArtifacts directory) log (.ok paths)) :
    log = ⟨.makeDirectories directory, .ok ()⟩ :: r.distinct.map (writing directory) ∧
      paths = r.distinct.map (pathOf directory ·.1) := by
  obtain ⟨first, answer, second, rfl, hfirst, hsecond⟩ := he.of_bind
  obtain rfl := hfirst.of_call
  cases answer with
  | error f => cases hsecond.of_pure.2
  | ok u =>
    obtain ⟨rfl, rfl⟩ := ends_writeEach hsecond
    exact ⟨rfl, rfl⟩

/-- The artifacts of the report were compiled from these snippets. -/
structure CompiledFrom (r : Report) (sourced : List (Snippet × LocatedArtifact)) : Prop where
  artifacts : r.artifacts = sourced.map (·.2)
  ids : ∀ x ∈ sourced, x.2.compiled.id = x.1.id

/-- Into the file of a snippet goes an artifact that was compiled from it. -/
def WritesOwn (directory : String) (sourced : List (Snippet × LocatedArtifact))
    (log : List Exchange) (s : Snippet) : Prop :=
  ∃ x ∈ sourced, x.1.text = s.text ∧
    writing directory (s.id.name, x.2.compiled.artifact) ∈ log

/-- Of the artifacts with a name the last one is written. -/
theorem CompiledFrom.exists_written (hr : r.CompiledFrom sourced)
    (he : Plan.Ends (r.writeArtifacts directory) log (.ok paths)) {x : Snippet × LocatedArtifact}
    (hx : x ∈ sourced) : ∃ y ∈ sourced, y.1.id = x.1.id ∧
      writing directory (x.1.id.name, y.2.compiled.artifact) ∈ log := by
  have hin : ∃ e ∈ r.artifacts, e.compiled.id = x.1.id :=
    ⟨x.2, hr.artifacts ▸ List.mem_map_of_mem hx, hr.ids x hx⟩
  obtain ⟨e, -, hlast, hwritten⟩ := r.exists_last hin
  obtain ⟨he', hid⟩ := List.mem_filter.1 (List.mem_of_getLast? hlast)
  rw [hr.artifacts] at he'
  obtain ⟨y, hy, rfl⟩ := List.mem_map.1 he'
  refine ⟨y, hy, (hr.ids y hy).symm.trans (by simpa using hid), ?_⟩
  rw [(ends_writeArtifacts he).1]
  exact List.mem_cons_of_mem _ (List.mem_map_of_mem hwritten)

/-- Snippets with different texts have files of their own just if the names tell the snippets
apart. -/
theorem CompiledFrom.artifacts_kept_iff (hr : r.CompiledFrom sourced)
    (he : Plan.Ends (r.writeArtifacts directory) log (.ok paths)) :
    ((∀ x ∈ sourced, WritesOwn directory sourced log x.1) ∧
      ∀ x ∈ sourced, ∀ y ∈ sourced, x.1.text ≠ y.1.text →
        fileOf directory x.2.compiled.id ≠ fileOf directory y.2.compiled.id) ↔
      Snippet.ToldApart (sourced.map (·.1)) := by
  constructor
  · rintro ⟨-, hfiles⟩ s hs s' hs' hid
    obtain ⟨x, hx, rfl⟩ := List.mem_map.1 hs
    obtain ⟨y, hy, rfl⟩ := List.mem_map.1 hs'
    refine Classical.byContradiction fun hne => hfiles x hx y hy hne ?_
    rw [hr.ids x hx, hr.ids y hy, hid]
  · intro hapart
    have hof : ∀ x ∈ sourced, ∀ y ∈ sourced, x.1.id = y.1.id → x.1.text = y.1.text :=
      fun x hx y hy => hapart _ (List.mem_map_of_mem hx) _ (List.mem_map_of_mem hy)
    refine ⟨fun x hx => ?_, fun x hx y hy hne heq => hne (hof x hx y hy ?_)⟩
    · obtain ⟨y, hy, hid, hwritten⟩ := hr.exists_written he hx
      exact ⟨y, hy, hof y hy x hx hid, hwritten⟩
    · rw [hr.ids x hx, hr.ids y hy] at heq
      exact fileOf_inj heq

end Report

/-! ## Nothing is replaced -/

namespace Snippet

open Workspace (Receives)

/-- The sources of snippets that are written to a workspace are all kept, and so are the artifacts
of a report, just if no two of the snippets have the same name. -/
theorem nothing_replaced_iff {h : Host} {w : Workspace} {t : FileTree} {m : Nat} {p : Place}
    {r : Report} {directory : String} {log : List Exchange} {paths : List String}
    {sourced : List (Snippet × LocatedArtifact)} (ht : Receives h w m p t) (hroom : w.HasRoom)
    (hr : r.CompiledFrom sourced)
    (he : Plan.Ends (r.writeArtifacts directory) log (.ok paths)) (ss : List Snippet) :
    ((∀ s ∈ ss, Plan.textAt h ((w.stageAll ss).run h t).2 (w.sourcePath s.id) = .ok s.text) ↔
        ToldApart ss) ∧
      (((∀ x ∈ sourced, Report.WritesOwn directory sourced log x.1) ∧
        ∀ x ∈ sourced, ∀ y ∈ sourced, x.1.text ≠ y.1.text →
          Report.fileOf directory x.2.compiled.id ≠ Report.fileOf directory y.2.compiled.id) ↔
        ToldApart (sourced.map (·.1))) :=
  ⟨ht.sources_kept_iff hroom ss, hr.artifacts_kept_iff he⟩

/-! ## Contracts with names -/

/-- A contract without content. -/
def contractNamed (name : String) : String :=
  "contract " ++ name ++ " \x7b\x7d"

def first : Snippet :=
  ⟨contractNamed "C73650", by decide⟩

def second : Snippet :=
  ⟨contractNamed "C73651", by decide⟩

/-- A contract whose name has the digits of the first one. -/
def clashing : Snippet :=
  ⟨contractNamed "C100460", by decide⟩

theorem id_clashing : clashing.id = first.id := by
  decide +kernel

theorem id_second : second.id ≠ first.id := by
  decide +kernel

/-- What is there after a workspace was made at `w`. -/
def made : FileTree :=
  ((Workspace.create (Workspace.chosen "w")).run Workspace.bare ⟨[]⟩).2

theorem named_w : Workspace.Named "w" := by
  constructor <;> decide

theorem receives_made : Receives Workspace.bare ⟨"w"⟩ maxLinks ["w"] made :=
  (Workspace.fresh_create (h := Workspace.bare) (c := Workspace.chosen "w") named_w rfl
    (wellFormed_of_entries (by decide)) rfl rfl).2.receives

theorem hasRoom_w : Workspace.HasRoom ⟨"w"⟩ :=
  Workspace.hasRoom_of_short (by decide +kernel) (by decide +kernel)

/-- An artifact without code that was compiled from a snippet. -/
def compiledFrom (s : Snippet) (line : Nat) : Snippet × LocatedArtifact :=
  (s, ⟨⟨"src/lib.rs", line, 1⟩, ⟨s.id, ⟨[], ⟨"0x", ""⟩⟩⟩⟩)

/-- A report with these artifacts. -/
def reportOf (sourced : List (Snippet × LocatedArtifact)) : Report :=
  ⟨sourced.map (·.2), []⟩

/-- Two contracts with names of their own, one of them twice. -/
def ownNames : List (Snippet × LocatedArtifact) :=
  [compiledFrom first 1, compiledFrom second 2, compiledFrom first 3]

set_option maxRecDepth 100000 in
/-- Contracts with names of their own are all kept. -/
theorem nothing_replaced_ownNames :
    ToldApart (ownNames.map (·.1)) ∧
      (∀ s ∈ ownNames.map (·.1), Plan.textAt Workspace.bare
        ((Workspace.stageAll ⟨"w"⟩ (ownNames.map (·.1))).run Workspace.bare made).2
        (Workspace.sourcePath ⟨"w"⟩ s.id) = .ok s.text) ∧
      Report.fileOf "out" first.id ≠ Report.fileOf "out" second.id := by
  have hapart : ToldApart (ownNames.map (·.1)) := by
    have htwo : ∀ s ∈ ownNames.map (·.1), s = first ∨ s = second := by
      simp [ownNames, compiledFrom]
    intro s hs s' hs' hid
    obtain ⟨rfl | rfl, rfl | rfl⟩ := And.intro (htwo s hs) (htwo s' hs')
    · rfl
    · exact absurd hid.symm id_second
    · exact absurd hid id_second
    · rfl
  obtain ⟨⟨result, t'⟩, hrun⟩ : ∃ out, ((reportOf ownNames).writeArtifacts "out").run Workspace.bare
    made = out := ⟨_, rfl⟩
  have hok :
      (((reportOf ownNames).writeArtifacts "out").run Workspace.bare made).1.isOk = true := by
    decide +kernel
  have hends := Plan.ends_log Workspace.bare ((reportOf ownNames).writeArtifacts "out") made
  rw [hrun] at hok hends
  cases result with
  | error e => cases hok
  | ok paths =>
    have hcompiled : (reportOf ownNames).CompiledFrom ownNames :=
      ⟨rfl, by simp [ownNames, compiledFrom]⟩
    obtain ⟨hsources, hartifacts⟩ := nothing_replaced_iff receives_made hasRoom_w hcompiled hends
      (ownNames.map (·.1))
    refine ⟨hapart, hsources.2 hapart, ?_⟩
    exact (hartifacts.2 hapart).2 (compiledFrom first 1) (by simp [ownNames])
      (compiledFrom second 2) (by simp [ownNames]) (by decide)

theorem lastOf_clashing : lastOf first.id [first, clashing] = some clashing := by
  have hnil : lastOf first.id [] = none := rfl
  rw [lastOf_cons, lastOf_cons, hnil, Option.none_or, if_pos id_clashing, Option.some_or]

/-- Two contracts with one name : when both were written, the source file of the first one holds the
second, and the artifacts of both have one file. -/
theorem clash_replaces_source :
    clashing.text ≠ first.text ∧
      (¬ ∀ s ∈ [first, clashing], Plan.textAt Workspace.bare
        ((Workspace.stageAll ⟨"w"⟩ [first, clashing]).run Workspace.bare made).2
        (Workspace.sourcePath ⟨"w"⟩ s.id) = .ok s.text) ∧
      Report.fileOf "out" clashing.id = Report.fileOf "out" first.id := by
  have hne : clashing.text ≠ first.text := by decide
  refine ⟨hne, fun hkept => hne ?_, congrArg _ id_clashing⟩
  obtain ⟨-, ht', hlast, -⟩ := Workspace.ensures_stageAll receives_made hasRoom_w [first, clashing]
  have htext := ht'.textAt (s := first) hasRoom_w (hlast first.id clashing lastOf_clashing)
  rw [hkept first List.mem_cons_self] at htext
  exact (Except.ok.inj htext).symm

end Snippet

end EmbeddedSolidity
