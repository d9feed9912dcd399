import EmbeddedSolidity.Proofs.Json.Readable
import EmbeddedSolidity.Proofs.Plan.Fault
import EmbeddedSolidity.Proofs.Plan.Linkless
import EmbeddedSolidity.Proofs.Workspace.Create
import EmbeddedSolidity.Report.Output

/-!
# Written artifacts

One artifact for each name is written, the last one, into a file of its own. In a directory without
links the files do not get in each other's way, so each holds its artifact in the end.

* `Report.member?_distinct`, `Report.exists_last` : the artifact that is written for a name;
* `Report.Opens` : the directory that the files are put into;
* `Report.ensures_writeEach` : the files after the writing.
-/

namespace EmbeddedSolidity

open FileSystem FileSystem.FileTree

/-! ## One artifact for each name -/

namespace Json

theorem mem_of_member? {α : Type} {key : String} {members : List (String × α)} {v : α}
    (hmember : member? key members = some v) : (key, v) ∈ members := by
  obtain ⟨x, hfind, rfl⟩ := Option.map_eq_some_iff.1 hmember
  have hkey : x.1 = key := by simpa using List.find?_some hfind
  rw [← hkey]
  exact List.mem_of_find?_eq_some hfind

end Json

namespace Report

open Json (member? mem_of_member? member?_putMember mem_putMember Ordered ordered_putMember)

/-- The artifact that is written for a name is the last one. -/
theorem member?_distinct (r : Report) (name : String) :
    member? name r.distinct =
      (r.artifacts.filter fun e => e.compiled.id.name == name).getLast?.map (·.compiled.artifact) := by
  unfold distinct
  induction r.artifacts using List.reverseRecOn with
  | nil => rfl
  | append_singleton front e ih =>
    rw [List.foldl_append, List.foldl_cons, List.foldl_nil, member?_putMember, List.filter_append]
    by_cases h : e.compiled.id.name = name
    · simp [h]
    · simp [h, ih]

/-- The artifact that is written for a snippet is the last one with its name. -/
theorem exists_last (report : Report) {id : Snippet.Id}
    (he : ∃ e ∈ report.artifacts, e.compiled.id = id) :
    ∃ e ∈ report.artifacts,
      (report.artifacts.filter fun e => e.compiled.id = id).getLast? = some e ∧
      (id.name, e.compiled.artifact) ∈ report.distinct := by
  obtain ⟨e₀, he₀, hid₀⟩ := he
  have hne : (report.artifacts.filter fun e => e.compiled.id = id) ≠ [] :=
    List.ne_nil_of_mem (List.mem_filter.2 ⟨he₀, by simpa using hid₀⟩)
  have hlast := List.getLast?_eq_some_getLast hne
  refine ⟨_, (List.mem_filter.1 (List.getLast_mem hne)).1, hlast, mem_of_member? ?_⟩
  have hfilter : (report.artifacts.filter fun e => e.compiled.id.name == id.name) =
      report.artifacts.filter fun e => e.compiled.id = id := by
    refine List.filter_congr fun e _ => ?_
    obtain ⟨_, ⟨⟨name⟩, _⟩⟩ := e
    obtain ⟨name'⟩ := id
    rw [Bool.eq_iff_iff]
    simp
  rw [member?_distinct, hfilter, hlast]
  rfl

/-- Every artifact that is written is one of the report. -/
theorem mem_distinct (r : Report) : ∀ x ∈ r.distinct,
    ∃ e ∈ r.artifacts, x = (e.compiled.id.name, e.compiled.artifact) := by
  unfold distinct
  induction r.artifacts using List.reverseRecOn with
  | nil => exact List.forall_mem_nil _
  | append_singleton front e ih =>
    intro x hx
    rw [List.foldl_append] at hx
    rcases mem_putMember hx with rfl | hx
    · exact ⟨e, by simp, rfl⟩
    · obtain ⟨e', he', rfl⟩ := ih x hx
      exact ⟨e', List.mem_append_left _ he', rfl⟩

/-- The artifacts are written in the order of the names. -/
theorem ordered_distinct (r : Report) : Ordered r.distinct := by
  unfold distinct
  induction r.artifacts using List.reverseRecOn with
  | nil => exact List.Pairwise.nil
  | append_singleton front e ih =>
    rw [List.foldl_append]
    exact ordered_putMember _ _ ih

/-- No name is written twice. -/
theorem pairwise_distinct (r : Report) : r.distinct.Pairwise fun a b => a.1 ≠ b.1 := by
  refine r.ordered_distinct.imp ?_
  rintro ⟨name, _⟩ ⟨_, _⟩ hlt rfl
  exact String.lt_irrefl name hlt

/-! ## The files -/

variable {h : Host} {t t' : FileTree} {m : Nat} {p p' q : Place} {directory : String}

/-- The path at which the artifact of a name is written. -/
def pathOf (directory name : String) : String :=
  Path.join directory (Snippet.Id.artifactFile ⟨name⟩)

/-- The place of the artifact of a name in a directory. -/
def placeOf (p : Place) (name : String) : Place :=
  p ++ [Snippet.Id.artifactFile ⟨name⟩]

theorem placeOf_inj {name name' : String} (heq : placeOf p name = placeOf p name') :
    name = name' := by
  have hfile := List.singleton_inj.1 (List.append_cancel_left heq)
  have hlist := congrArg String.toList hfile
  simp only [Snippet.Id.artifactFile, String.toList_append] at hlist
  exact String.toList_inj.1 (List.append_cancel_right hlist)

/-- The name is that of a snippet. -/
def OfSnippet (name : String) : Prop :=
  ∃ text, name = (Snippet.Id.ofText text).name

theorem OfSnippet.named {name : String} (hname : OfSnippet name) :
    Workspace.Named (Snippet.Id.artifactFile ⟨name⟩) := by
  obtain ⟨text, rfl⟩ := hname
  exact Snippet.Id.named_artifactFile text

/-! ## The directory of the files -/

/-- Files with names in `directory` are in the directory `p` : the path leads there, or it is empty
and `p` is the current directory. -/
def Opens (h : Host) (t : FileTree) (directory : String) (p : Place) : Prop :=
  directory = "" ∧ p = h.current ∨ ∃ m, Leads t h.current directory m p

theorem Opens.mono (ho : Opens h t directory p) (hkeeps : KeepsWays t t') :
    Opens h t' directory p :=
  ho.imp_right fun ⟨m, hleads⟩ => ⟨m, hleads.mono hkeeps⟩

/-- The directory stays the same while directories and links stay. -/
theorem Opens.unique (ho : Opens h t directory p) (hkeeps : KeepsWays t t')
    (ho' : Opens h t' directory p') : p' = p := by
  have hne : ∀ {t : FileTree} {m : Nat} {p : Place}, Leads t h.current directory m p →
      directory ≠ "" := fun hleads => (pathFault?_eq_none_iff.1 hleads.fault).2.1
  obtain ⟨hempty, rfl⟩ | ⟨m, hleads⟩ := ho <;> obtain ⟨hempty', rfl⟩ | ⟨m', hleads'⟩ := ho'
  · rfl
  · exact absurd hempty (hne hleads')
  · exact absurd hempty' (hne hleads)
  · exact (hleads.unique hkeeps.agree hleads').2

/-- An artifact is written into the directory of the files, unless a link has its name there. -/
theorem exists_opens {name : String} (hname : OfSnippet name)
    (htargets : t.Targets h.current (pathOf directory name) q) :
    ∃ p, Opens h t directory p ∧
      (q = placeOf p name ∨ ∃ target, t.get? (placeOf p name) = some (.link target)) := by
  obtain ⟨r, hr, hfor⟩ := htargets
  by_cases hempty : directory = ""
  · subst hempty
    have hpath : pathOf "" name = Snippet.Id.artifactFile ⟨name⟩ :=
      if_pos (by rw [beq_self_eq_true, Bool.or_true])
    rw [hpath] at hr
    rw [resolve_simple hname.named.simple (pathFault?_of_resolveNames hr)] at hr
    exact ⟨h.current, .inl ⟨rfl, rfl⟩, hfor.at_name hname.named.plain hr⟩
  · obtain ⟨m, p, hleads, hwalk⟩ := leads_of_resolve hempty
      (List.forall_mem_singleton.2 hname.named.simple) (List.cons_ne_nil _ _) hr
    exact ⟨p, .inr ⟨m, hleads⟩, hfor.at_name hname.named.plain hwalk⟩

/-- The directory of an artifact that can be written is there, and without links the artifact is
in it. -/
theorem leads_of_targets {name : String} (hdirectory : directory ≠ "") (hname : OfSnippet name)
    (htargets : t.Targets h.current (pathOf directory name) q) :
    ∃ m p, Leads t h.current directory m p ∧ (Linkless p t → q = placeOf p name) := by
  obtain ⟨p, ⟨hempty, -⟩ | ⟨m, hleads⟩, hplace⟩ := exists_opens hname htargets
  · exact absurd hempty hdirectory
  · exact ⟨m, p, hleads, fun hlinkless =>
      hplace.resolve_right fun ⟨target, hlink⟩ => hlinkless _ _ hlink⟩

/-! ## Writing -/

/-- A text is written to the place that its path targets, or nothing changes. -/
theorem ensures_writeText (path text : String) :
    Plan.Ensures h (Plan.writeText path text) t fun r t' =>
      (∃ f, r = .error f) ∧ t' = t ∨
        r = .ok () ∧ ∃ q executable, t.Targets h.current path q ∧
          t' = t.put q (.file text.toUTF8 executable) := by
  unfold Plan.Ensures
  rw [Plan.run_writeText]
  cases hwrite : t.write h.current path text.toUTF8 with
  | error f => exact Or.inl ⟨⟨f, rfl⟩, rfl⟩
  | ok t' =>
    obtain ⟨q, executable, rfl, htargets⟩ := write_eq_ok hwrite
    exact Or.inr ⟨rfl, q, executable, htargets, rfl⟩

/-- Directories and links stay, whatever is written. -/
theorem keepsWays_writeEach {written : List (String × Artifact)} {log : List Exchange}
    {result : Except Error (List String)}
    (hrun : Plan.Meets h (writeEach directory written) t log result t') : KeepsWays t t' := by
  induction written generalizing t log result with
  | nil =>
    obtain ⟨-, rfl⟩ := hrun.of_pure
    exact fun _ _ _ he => he
  | cons x rest ih =>
    obtain ⟨answer, t₁, first, second, hwrite, hrest⟩ := hrun.of_bind
    rcases hwrite.of_call.write with
      ⟨rfl, q, executable, htargets, rfl⟩ | ⟨⟨f, rfl⟩, rfl | ⟨q, part, executable, htargets, rfl⟩⟩
    · obtain ⟨paths, t₂, third, fourth, hthird, hpure⟩ := hrest.of_bind
      obtain ⟨-, rfl⟩ := hpure.of_pure
      exact htargets.keepsWays.trans (ih hthird)
    · obtain ⟨-, rfl⟩ := hrest.of_pure
      exact fun _ _ _ he => he
    · obtain ⟨-, rfl⟩ := hrest.of_pure
      exact htargets.keepsWays

theorem ensures_writeEach_keepsWays (directory : String) (written : List (String × Artifact)) :
    Plan.Ensures h (writeEach directory written) t fun _ t' => KeepsWays t t' :=
  keepsWays_writeEach (Plan.meets_log h (writeEach directory written) t)

/-- The directory in which artifacts were written is there. -/
theorem exists_leads_of_writeEach {written : List (String × Artifact)} {paths : List String}
    (hdirectory : directory ≠ "") (hnames : ∀ x ∈ written, OfSnippet x.1) (hne : written ≠ [])
    (hrun : ((writeEach directory written).run h t).1 = .ok paths) :
    ∃ m p, Leads t h.current directory m p := by
  obtain ⟨x, rest, rfl⟩ := List.exists_cons_of_ne_nil hne
  have hwritten : Plan.Ensures h (writeEach directory (x :: rest)) t fun r _ =>
      ∀ paths, r = .ok paths → ∃ q, t.Targets h.current (pathOf directory x.1) q := by
    refine Plan.ensures_bind (ensures_writeText _ _) ?_
    rintro _ t' (⟨⟨f, rfl⟩, -⟩ | ⟨rfl, q, _, htargets, -⟩)
    · exact Plan.ensures_pure nofun
    · exact Plan.ensures_bind (P := fun _ _ => True) trivial fun _ _ _ _ _ => ⟨q, htargets⟩
  obtain ⟨q, htargets⟩ := hwritten paths hrun
  obtain ⟨m, p, hleads, -⟩ := leads_of_targets hdirectory (hnames x List.mem_cons_self) htargets
  exact ⟨m, p, hleads⟩

/-- Artifacts of different names that are written into a directory without links are read there;
nothing else changes. -/
theorem ensures_writeEach {written : List (String × Artifact)} (hdirectory : directory ≠ "")
    (hnames : ∀ x ∈ written, OfSnippet x.1) (hdifferent : written.Pairwise fun a b => a.1 ≠ b.1)
    (hleads : Leads t h.current directory m p) (hlinkless : Linkless p t) :
    Plan.Ensures h (writeEach directory written) t fun r t' => ∀ paths, r = .ok paths →
      (∀ q, (∀ x ∈ written, q ≠ placeOf p x.1) → t'.get? q = t.get? q) ∧
        ∀ x ∈ written, Plan.textAt h t' (pathOf directory x.1) = .ok x.2.value.pretty := by
  induction written generalizing t with
  | nil => exact fun _ _ => ⟨fun _ _ => rfl, List.forall_mem_nil _⟩
  | cons x rest ih =>
    rw [List.forall_mem_cons] at hnames
    rw [List.pairwise_cons] at hdifferent
    refine Plan.ensures_bind (ensures_writeText _ _) ?_
    rintro _ t' (⟨⟨f, rfl⟩, -⟩ | ⟨rfl, q, executable, htargets, rfl⟩)
    · exact Plan.ensures_pure nofun
    obtain ⟨m', p', hleads', hplace⟩ := leads_of_targets hdirectory hnames.1 htargets
    obtain rfl : p = p' := (hleads.unique (.refl t) hleads').2.symm
    obtain rfl := hplace hlinkless
    have hq := htargets.not_way.1
    have hkeeps : KeepsWays t (t.put (placeOf p x.1) (.file x.2.value.pretty.toUTF8 executable)) :=
      htargets.keepsWays
    have hrest := ih hnames.2 hdifferent.2 (hleads.mono hkeeps)
      (hlinkless.mono (noNewLinks_put t hq fun _ => nofun))
    refine Plan.ensures_bind (hrest.and (ensures_writeEach_keepsWays directory rest)) ?_
    rintro r t' ⟨hwritten, hkeeps'⟩ paths hpaths
    cases r with
    | error e => cases hpaths
    | ok paths' =>
      obtain ⟨hsame, htexts⟩ := hwritten paths' rfl
      refine ⟨fun r hr => ?_, List.forall_mem_cons.2 ⟨?_, htexts⟩⟩
      · rw [List.forall_mem_cons] at hr
        exact (hsame r hr.2).trans (get?_put_of_ne t _ hr.1)
      · -- The file is not written again, since its name is not.
        have hfile : t'.get? (placeOf p x.1) = some (.file x.2.value.pretty.toUTF8 executable) :=
          (hsame _ fun y hy heq => hdifferent.1 y hy (placeOf_inj heq)).trans
            (get?_put_self t _ hq)
        exact Workspace.textAt_of_entryAt (htargets.entryAt (hkeeps.trans hkeeps') hfile)
          (Text.decode?_toUTF8 _)

end Report

end EmbeddedSolidity
