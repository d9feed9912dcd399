import EmbeddedSolidity.Proofs.Run.Session

/-!
# What a session does to files

A root of the caller's choice is looked at before the workspace is made, but files are written to
and removed from the directory that it leads to afterwards. The two differ where a directory on the
way is missing: `missing/..` leads nowhere at first, and to the current directory as soon as
`missing` has been made. Files are safe if nothing but directories is in what the root leads to once
the workspace has been made, apart from an earlier workspace.

* `Run.keepsFiles_iff_spares` : when every session keeps the files of the user;
* `Run.missing_parent_loses_files` : a session that loses one.
-/

namespace EmbeddedSolidity

open FileSystem FileSystem.FileTree

/-- Compilers change only what is below the directory they run in, and make no links there. -/
def Host.Confined (h : Host) (root : String) : Prop :=
  ∀ program limit t,
    (∀ m p, Leads t h.current root m p →
      SameOutside p t (h.execute program root limit t).2 ∧
        (Unlinked p t → Unlinked p (h.execute program root limit t).2)) ∧
    ((∀ m p, ¬ Leads t h.current root m p) → (h.execute program root limit t).2 = t)

namespace Run

variable {h : Host} {c : Config} {t t' : FileTree} {m : Nat} {p q : Place}

/-- Once the workspace has been made, or has failed to be made but is known by its manifest, the
root leads to the directory `p`. -/
def Occupies (h : Host) (c : Config) (t : FileTree) (p : Place) : Prop :=
  (∃ m, Leads (created h c t).2 h.current c.root m p) ∧
    ((∃ w, (created h c t).1 = .ok w) ∨ Workspace.Generated h ⟨c.root⟩ (created h c t).2)

/-- Only directories, and what was in an earlier workspace at the root, were in what the root
occupies. -/
def Spares (h : Host) (c : Config) (t : FileTree) : Prop :=
  ∀ p q e, Occupies h c t p → Below p q → t.get? q = some e → e ≠ .directory →
    Workspace.Replaceable h ⟨c.root⟩ t q

/-- A directory itself is at the root that is occupied, and no links were in it. -/
def Unaliased (h : Host) (c : Config) (t : FileTree) : Prop :=
  ∀ p, Occupies h c t p →
    (created h c t).2.entryAt h.current false c.root = .ok (p, .directory) ∧ Unlinked p t

/-- A session keeps every file that was not in an earlier workspace at the root. -/
def KeepsFiles (h : Host) (c : Config) (texts : List String) (t : FileTree) : Prop :=
  ∀ q content, t.HasFile q content → ¬ Workspace.Replaceable h ⟨c.root⟩ t q →
    ((session c texts).run h t).2.HasFile q content

/-! ## Making the workspace -/

/-- What making a workspace leaves as it was. -/
structure Spared (h : Host) (c : Config) (t : FileTree) : Prop where
  files : ∀ q content executable, t.get? q = some (.file content executable) →
    ¬ Workspace.Replaceable h ⟨c.root⟩ t q →
      (created h c t).2.get? q = some (.file content executable)
  made : ∀ w, (created h c t).1 = .ok w →
    ∃ m p, Leads (created h c t).2 h.current c.root m p ∧
      (created h c t).2.get? p = some .directory ∧ Unlinked p (created h c t).2
  directory : ∀ p, Occupies h c t p → (created h c t).2.get? p = some .directory

/-- Nothing is lost by making the workspace if what it occupies is spared. -/
theorem spared_of_spares (hspares : Spares h c t) (hdefault : c.isDefaultRoot = false)
    (hroot : c.root ≠ "") (hwf : t.WellFormed) (hcurrent : t.get? h.current = some .directory) :
    Spared h c t := by
  obtain ⟨cleared, hcleared, ⟨⟨e, he⟩, hadds⟩ | ⟨⟨m, p, q₀, hplaced⟩, hgone⟩⟩ :=
    Workspace.ensures_create hdefault hroot hwf hcurrent
  · refine ⟨fun q content executable hq hnot =>
        hadds.keeps _ _ (hcleared.keeps q (.file content executable) nofun hnot hq),
      fun w hw => ?_, ?_⟩
    · change (Run.created h c t).1 = _ at he
      rw [he] at hw
      cases hw
    · rintro p ⟨⟨m, hleads⟩, ⟨w, hw⟩ | hgenerated⟩
      · change (Run.created h c t).1 = _ at he
        rw [he] at hw
        cases hw
      · obtain ⟨m', p', hleads', hdirectory⟩ :=
          hgenerated.leads hroot (hadds.wellFormed hcleared.wellFormed)
        rw [(hleads'.unique (.refl _) hleads).2]
        exact hdirectory
  · have hoccupies : Occupies h c t p := ⟨⟨m, hplaced.leads⟩, Or.inr hplaced.generated⟩
    -- What is left in the occupied directory was made with the workspace.
    have hfresh : ∀ q e, Below p q → cleared.get? q = some e → e = .directory := fun q e hq he =>
      Classical.byContradiction fun hne => by
        have hgone' := hgone q (hspares p q e hoccupies hq (hcleared.only q e he) hne)
        rw [hgone'] at he
        cases he
    have hmanifest : q₀ = p ++ [Manifest.fileName] :=
      hplaced.manifest.resolve_right fun ⟨target, hlink⟩ =>
        nomatch hfresh _ _ (below_append p _ []) hlink
    refine ⟨fun q content executable hq hnot => ?_, fun w _ => ⟨m, p, hplaced.leads,
      hplaced.directory, fun q target hq hlink => ?_⟩, fun p' hp' => ?_⟩
    · have hkept := hcleared.keeps q (.file content executable) nofun hnot hq
      refine hplaced.keeps q _ (fun heq => ?_) hkept
      exact nomatch hfresh q _ (by rw [heq, hmanifest]; exact below_append p _ []) hkept
    · exact nomatch hfresh q _ hq (hplaced.only q target hlink)
    · obtain ⟨⟨m', hleads'⟩, -⟩ := hp'
      rw [(hplaced.leads.unique (.refl _) hleads').2]
      exact hplaced.directory

/-! ## Compiling -/

/-- The tree differs from `made` at most below `p`, and no links are there. -/
def Inside (p : Place) (made t : FileTree) : Prop :=
  SameOutside p made t ∧ Unlinked p t

/-- Plain names lead from a directory without links to places below it. -/
theorem below_of_walk (hlinks : Unlinked p t) {n : Nat} {r : Found} (hr : Found.IsFor q r) :
    ∀ (names : List String) (here : Place), (∀ name ∈ names, Plain name) → p <+: here →
      t.walk true n here names = .ok r → Below p q
  | [], here, _, _, hwalk => by
    rw [walk_nil] at hwalk
    cases hwalk
    exact absurd hr not_isFor_directory
  | name :: rest, here, hnames, hhere, hwalk => by
    rw [List.forall_mem_cons] at hnames
    obtain ⟨between, rfl⟩ := hhere
    have hbelow : Below p (p ++ between ++ [name]) := by
      rw [List.append_assoc]
      cases between with
      | nil => exact below_append p name []
      | cons first between => exact below_append p first (between ++ [name])
    rw [walk_plain hnames.1] at hwalk
    split at hwalk
    · split_ifs at hwalk
      cases hwalk
      exact (isFor_free.1 hr).1 ▸ hbelow
    · exact below_of_walk hlinks hr rest _ hnames.2 hbelow.1 hwalk
    · split_ifs at hwalk
      cases hwalk
      exact (isFor_entry.1 hr).1 ▸ hbelow
    · next target hlink => exact absurd hlink (hlinks _ target hbelow)

/-- A snippet is written below the directory that the root leads to, if there are no links. -/
theorem below_of_targets {w : Workspace} {s : Snippet} (hroot : w.root ≠ "")
    (htargets : t.Targets h.current (w.sourcePath s.id) q) :
    ∃ m p, Leads t h.current w.root m p ∧ (Unlinked p t → Below p q) := by
  have hnames := Workspace.named_sourcePath s.text
  obtain ⟨r, hr, hfor⟩ := htargets
  obtain ⟨m, p, hleads, hwalk⟩ := leads_of_resolve hroot (fun name hname => (hnames name hname).simple)
    (List.cons_ne_nil _ _) hr
  exact ⟨m, p, hleads, fun hlinks => below_of_walk hlinks hfor _ _
    (fun name hname => (hnames name hname).plain) (List.prefix_refl p) hwalk⟩

section Compiling

variable {made : FileTree}

/-- While changes stay inside `p`, the root leads to `p` if it leads anywhere. -/
theorem Inside.unique {m' : Nat} {p' : Place} {path : String} (hinside : Inside p made t)
    (hleads : Leads made h.current path m p) (hmade : Unlinked p made)
    (hleads' : Leads t h.current path m' p') : m' = m ∧ p' = p :=
  hleads.unique (hinside.1.agree hmade hinside.2) hleads'

variable (hleads : Leads made h.current c.root m p) (hmade : Unlinked p made)

include hleads hmade in
theorem ensures_stage (hroot : c.root ≠ "") (hinside : Inside p made t) (s : Snippet) :
    Plan.Ensures h (Workspace.stage ⟨c.root⟩ s) t fun _ => Inside p made := by
  unfold Workspace.stage
  refine Plan.ensures_bind (P := fun _ => Inside p made) ?_ fun _ _ hP => hP
  unfold Plan.Ensures
  rw [Plan.run_writeText]
  rcases keeping_snd t (t.write h.current (Workspace.sourcePath ⟨c.root⟩ s.id) s.text.toUTF8) with
    heq | ⟨t', hwrite, heq⟩
  · rw [heq]
    exact hinside
  · rw [heq]
    obtain ⟨q, executable, rfl, htargets⟩ := write_eq_ok hwrite
    obtain ⟨m', p', hleads', hbelow⟩ := below_of_targets (w := ⟨c.root⟩) hroot htargets
    obtain ⟨rfl, rfl⟩ := hinside.unique hleads hmade hleads'
    have hq := hbelow hinside.2
    exact ⟨hinside.1.trans (sameOutside_put hq _), hinside.2.put (below_ne_nil hq)⟩

include hleads hmade in
theorem ensures_runCompiler (hconfined : h.Confined c.root) (hinside : Inside p made t)
    (id : Snippet.Id) :
    Plan.Ensures h (Workspace.runCompiler ⟨c.root⟩ c id) t fun _ => Inside p made := by
  unfold Workspace.runCompiler
  refine Plan.ensures_bind (P := fun _ t' => t = t') rfl ?_
  rintro program _ rfl
  cases program with
  | none => exact hinside
  | some program =>
    refine Plan.ensures_bind (P := fun _ => Inside p made) ?_ fun a t' hP => ?_
    · obtain ⟨hthere, hnowhere⟩ := hconfined program c.timeout t
      change Inside p made (h.execute program c.root c.timeout t).2
      by_cases hleads' : ∃ m' p', Leads t h.current c.root m' p'
      · obtain ⟨m', p', hleads'⟩ := hleads'
        obtain ⟨rfl, rfl⟩ := hinside.unique hleads hmade hleads'
        obtain ⟨hsame, hlinks⟩ := hthere _ _ hleads'
        exact ⟨hinside.1.trans hsame, hlinks hinside.2⟩
      · rw [hnowhere fun m' p' hl => hleads' ⟨m', p', hl⟩]
        exact hinside
    · split
      · exact hP
      · split <;> exact hP

theorem ensures_readArtifact (hinside : Inside p made t) (w : Workspace) (id : Snippet.Id) :
    Plan.Ensures h (w.readArtifact id) t fun _ => Inside p made := by
  unfold Workspace.readArtifact
  refine Plan.ensures_bind (P := fun _ t' => t = t') ?_ ?_
  · unfold Plan.Ensures
    rw [Plan.run_readText]
  · rintro r _ rfl
    split <;> exact hinside

include hleads hmade in
/-- Compiling a snippet changes at most what is in the workspace. -/
theorem ensures_compileIn (hconfined : h.Confined c.root) (hroot : c.root ≠ "")
    (hinside : Inside p made t) (s : Snippet) :
    Plan.Ensures h (compileIn c ⟨c.root⟩ s) t fun _ => Inside p made := by
  have hbuild : Plan.Ensures h (Workspace.buildSnippet ⟨c.root⟩ c s) t fun _ => Inside p made :=
    Plan.ensures_andThen (ensures_stage hleads hmade hroot hinside s) (fun _ _ hP => hP)
      fun _ _ hP => ensures_runCompiler hleads hmade hconfined hP s.id
  refine Plan.ensures_andThen hbuild (fun _ _ hP => hP) fun _ _ hP => ?_
  exact Plan.ensures_andThen (ensures_readArtifact hP _ _) (fun _ _ hP => hP) fun _ _ hP => hP

end Compiling

/-! ## Removing the workspace -/

/-- Removing what is at the root keeps a file outside the directory that it leads to. -/
theorem get?_removeTree {path : String} {content : ByteArray} {executable : Bool}
    (hq : t.get? q = some (.file content executable))
    (houtside : ∀ m p, Leads t h.current path m p → ¬ Below p q ∧ q ≠ p) :
    (t.removeTree h.current path).2.get? q = some (.file content executable) := by
  by_cases hdirectory : ∃ p, t.entryAt h.current false path = .ok (p, .directory)
  · obtain ⟨p, hentry⟩ := hdirectory
    obtain ⟨m, hleads⟩ := leads_of_entryAt hentry
    obtain ⟨hbelow, hne⟩ := houtside m p hleads
    rcases removeTree_directory hentry with htree | ⟨-, htree⟩
    · rw [htree, get?_eraseBelow_of_not_below t hbelow]
      exact hq
    · rw [htree, get?_erase_of_ne _ hne, get?_eraseBelow_of_not_below t hbelow]
      exact hq
  · rcases removeTree_other fun p hentry => hdirectory ⟨p, hentry⟩ with htree | ⟨r, target, hr, htree⟩
    · rw [htree]
      exact hq
    · have hne : q ≠ r := fun heq => by
        rw [heq, hr] at hq
        cases hq
      rw [htree, get?_erase_of_ne t hne]
      exact hq

/-- Nothing is left below a directory at the root. -/
theorem get?_removeTree_below {path : String}
    (hentry : t.entryAt h.current false path = .ok (p, .directory)) (hq : Below p q) :
    (t.removeTree h.current path).2.get? q = none := by
  rcases removeTree_directory hentry with htree | ⟨-, htree⟩
  · rw [htree, get?_eraseBelow t hq]
  · rw [htree, get?_erase_of_ne _ hq.2, get?_eraseBelow t hq]

/-! ## Sessions -/

/-- The tree is the one in which making the workspace failed, or it differs from the one in which
the workspace was made at most in the workspace. -/
def Within (h : Host) (c : Config) (t t' : FileTree) : Prop :=
  ((∃ e, (created h c t).1 = .error e) ∧ t' = (created h c t).2) ∨
    ∃ m p, Occupies h c t p ∧ Leads (created h c t).2 h.current c.root m p ∧
      Unlinked p (created h c t).2 ∧ Inside p (created h c t).2 t'

/-- A session keeps files if what the root occupies was spared. -/
theorem Spares.keepsFiles (hspares : Spares h c t) (hdefault : c.isDefaultRoot = false)
    (hroot : c.root ≠ "") (hwf : t.WellFormed) (hcurrent : t.get? h.current = some .directory)
    (hconfined : h.Confined c.root) (texts : List String) : KeepsFiles h c texts t := by
  have hspared := spared_of_spares hspares hdefault hroot hwf hcurrent
  have hstart : Within h c t (created h c t).2 := by
    cases hmade : (created h c t).1 with
    | error e => exact Or.inl ⟨⟨e, hmade⟩, rfl⟩
    | ok w =>
      obtain ⟨m, p, hleads, -, hlinks⟩ := hspared.made w hmade
      exact Or.inr ⟨m, p, ⟨⟨m, hleads⟩, Or.inl ⟨w, hmade⟩⟩, hleads, hlinks, .refl p _, hlinks⟩
  have hstep : ∀ w s t', (created h c t).1 = .ok w → Within h c t t' →
      Plan.Ensures h (compileIn c w s) t' fun _ => Within h c t := by
    rintro w s t' hmade (⟨⟨e, he⟩, -⟩ | ⟨m, p, hoccupies, hleads, hlinks, hinside⟩)
    · rw [hmade] at he
      cases he
    · rw [root_of_created hmade]
      exact (ensures_compileIn hleads hlinks hconfined hroot hinside s).mono fun _ _ hinside' =>
        Or.inr ⟨m, p, hoccupies, hleads, hlinks, hinside'⟩
  rintro q content ⟨executable, hq⟩ hnot
  have hkept := hspared.files q content executable hq hnot
  have houtside : ∀ p, Occupies h c t p → ¬ Below p q ∧ q ≠ p := fun p hoccupies =>
    ⟨fun hbelow => hnot (hspares p q _ hoccupies hbelow hq nofun), fun heq => by
      rw [heq, hspared.directory p hoccupies] at hkept
      cases hkept⟩
  obtain ⟨before, hwithin, hfinished⟩ := ensures_session hdefault hstart hstep texts
  refine ⟨executable, ?_⟩
  rcases hwithin with ⟨⟨e, he⟩, rfl⟩ | ⟨m, p, hoccupies, hleads, hlinks, hinside⟩
  · rcases hfinished with ⟨w, hw, -⟩ | ⟨-, ⟨hgenerated, htree⟩ | ⟨-, htree⟩⟩
    · rw [he] at hw
      cases hw
    · rw [htree]
      exact get?_removeTree hkept fun m p hleads => houtside p ⟨⟨m, hleads⟩, Or.inr hgenerated⟩
    · rw [htree]
      exact hkept
  · have hkept' : before.get? q = some (.file content executable) := by
      rw [hinside.1 q (houtside p hoccupies).1]
      exact hkept
    have hremoved : (before.removeTree h.current c.root).2.get? q =
        some (.file content executable) := by
      refine get?_removeTree hkept' fun m' p' hleads' => ?_
      rw [(hinside.unique hleads hlinks hleads').2]
      exact houtside p hoccupies
    rcases hfinished with ⟨w, hw, htree⟩ | ⟨-, ⟨-, htree⟩ | ⟨-, htree⟩⟩
    · rw [htree, root_of_created hw]
      exact hremoved
    · rw [htree]
      exact hremoved
    · rw [htree]
      exact hkept'

/-- A session of no texts removes all that is in the directory that is occupied. -/
theorem get?_session_nil (hdefault : c.isDefaultRoot = false) (hoccupies : Occupies h c t p)
    (hentry : (created h c t).2.entryAt h.current false c.root = .ok (p, .directory))
    (hq : Below p q) : ((session c []).run h t).2.get? q = none := by
  rcases finished_session_nil hdefault with ⟨w, hw, htree⟩ | ⟨⟨e, he⟩, ⟨-, htree⟩ | ⟨hnot, -⟩⟩
  · rw [htree, root_of_created hw]
    exact get?_removeTree_below hentry hq
  · rw [htree]
    exact get?_removeTree_below hentry hq
  · rcases hoccupies.2 with ⟨w, hw⟩ | hgenerated
    · rw [he] at hw
      cases hw
    · exact absurd hgenerated hnot

/-- If sessions keep files, what the root occupies is spared, unless links are involved. -/
theorem spares_of_keepsFiles (hdefault : c.isDefaultRoot = false) (hunaliased : Unaliased h c t)
    (hkeeps : KeepsFiles h c [] t) : Spares h c t := by
  intro p q e hoccupies hq he hne
  obtain ⟨hentry, hlinks⟩ := hunaliased p hoccupies
  cases e with
  | directory => exact absurd rfl hne
  | link target => exact absurd he (hlinks q target hq)
  | file content executable =>
    refine Classical.byContradiction fun hnot => ?_
    obtain ⟨executable', hkept⟩ := hkeeps q content ⟨executable, he⟩ hnot
    rw [get?_session_nil hdefault hoccupies hentry hq] at hkept
    cases hkept

/-- Where the root is empty, a session replaces a manifest in the current directory. -/
theorem hasFile_of_empty_root {content : ByteArray} (hdefault : c.isDefaultRoot = false)
    (hroot : c.root = "") (hfile : t.HasFile (h.current ++ [Manifest.fileName]) content) :
    ((session c []).run h t).2.HasFile (h.current ++ [Manifest.fileName])
      (Manifest.ofVersion c.solc).render.toUTF8 := by
  have hremoved : ∀ t' : FileTree, (t'.removeTree h.current "").2 = t' := fun _ => rfl
  have hwritten := Workspace.ensures_create_empty hdefault hroot hfile
  change (created h c t).2.HasFile _ _ at hwritten
  rcases finished_session_nil hdefault with ⟨w, hw, htree⟩ | ⟨-, ⟨-, htree⟩ | ⟨-, htree⟩⟩
  · rw [htree, root_of_created hw, hroot, hremoved]
    exact hwritten
  · rw [htree, hroot, hremoved]
    exact hwritten
  · rw [htree]
    exact hwritten

theorem not_replaceable_of_empty (hroot : c.root = "") : ¬ Workspace.Replaceable h ⟨c.root⟩ t q := by
  rintro ⟨-, p, hentry, -⟩
  rw [hroot] at hentry
  cases hentry

/-- For a root of the caller's choice, every session keeps every file that was not in an earlier
workspace at the root if what the root occupies is spared, and only then unless links are involved.
With an empty root it keeps no manifest of the current directory but its own. -/
theorem keepsFiles_iff_spares {o : Options} {temporary root : String}
    (hresolve : o.resolve temporary = .ok c) (hchosen : o.workspace = some root)
    (hwf : t.WellFormed) (hcurrent : t.get? h.current = some .directory)
    (hconfined : h.Confined root) :
    (root ≠ "" → Spares h c t → ∀ texts, KeepsFiles h c texts t) ∧
    (root ≠ "" → Unaliased h c t → (∀ texts, KeepsFiles h c texts t) → Spares h c t) ∧
    (root = "" → ∀ content, t.HasFile (h.current ++ [Manifest.fileName]) content →
      (∀ texts, KeepsFiles h c texts t) → content = (Manifest.ofVersion c.solc).render.toUTF8) := by
  obtain ⟨rfl, hdefault⟩ := root_of_resolve hresolve hchosen
  refine ⟨fun hroot hspares => hspares.keepsFiles hdefault hroot hwf hcurrent hconfined,
    fun _ hunaliased hkeeps => spares_of_keepsFiles hdefault hunaliased (hkeeps []),
    fun hroot content hfile hkeeps => ?_⟩
  obtain ⟨executable, hkept⟩ := hkeeps [] _ content hfile (not_replaceable_of_empty hroot)
  obtain ⟨executable', hwritten⟩ := hasFile_of_empty_root hdefault hroot hfile
  rw [hwritten] at hkept
  cases hkept
  rfl

/-! ## Some sessions -/

/-- A host at the root of the tree whose programs do nothing. -/
def idle : Host where
  current := []
  search := []
  execute := fun _ _ _ t => (.ok ⟨.exited 0, ByteArray.empty, ByteArray.empty⟩, t)

/-- A tree with one file in it. -/
def single (name text : String) : FileTree :=
  ⟨[([name], .file text.toUTF8 false)]⟩

theorem resolve_rooted (root : String) :
    Options.resolve "/tmp" { workspace := some root } = .ok (rooted root) :=
  rfl

theorem confined_idle (root : String) : idle.Confined root :=
  fun _ _ t => ⟨fun _ p _ => ⟨.refl p t, id⟩, fun _ => rfl⟩

theorem place_of_single {name text : String} {e : Entry} (hq : q ≠ [])
    (he : (single name text).get? q = some e) : q = [name] ∧ e = .file text.toUTF8 false := by
  simp only [single, get?, List.isEmpty_iff, hq, if_false, lookup_cons] at he
  split at he
  · next heq => exact ⟨heq, (Option.some.inj he).symm⟩
  · cases he

theorem wellFormed_single (name text : String) : (single name text).WellFormed := by
  intro q e hq he
  rw [(place_of_single hq he).1]
  rfl

theorem not_replaceable_missing_parent :
    ¬ Workspace.Replaceable idle ⟨"missing/.."⟩ (single "notes.txt" "keep me") ["notes.txt"] := by
  rintro ⟨-, p, hentry, -⟩
  have hnone : (single "notes.txt" "keep me").entryAt idle.current true "missing/.." =
      .error .notFound := by
    decide +kernel
  rw [hnone] at hentry
  cases hentry

/-- The root `missing/..` leads nowhere, so it is not looked into; making `missing` makes it the
current directory, which is emptied in the end. -/
theorem missing_parent_loses_files :
    Options.resolve "/tmp" { workspace := some "missing/.." } = .ok (rooted "missing/..") ∧
      (single "notes.txt" "keep me").WellFormed ∧
      (single "notes.txt" "keep me").get? idle.current = some .directory ∧
      idle.Confined "missing/.." ∧
      (single "notes.txt" "keep me").HasFile ["notes.txt"] "keep me".toUTF8 ∧
      ¬ Workspace.Replaceable idle ⟨"missing/.."⟩ (single "notes.txt" "keep me") ["notes.txt"] ∧
      ((session (rooted "missing/..") []).run idle (single "notes.txt" "keep me")).2.get?
        ["notes.txt"] = none :=
  ⟨resolve_rooted _, wellFormed_single _ _, rfl, confined_idle _, ⟨false, by decide +kernel⟩,
    not_replaceable_missing_parent, by decide +kernel⟩

theorem occupies_rooted {root name text : String} {place : Place}
    (hentry : (created idle (rooted root) (single name text)).2.entryAt [] true root =
      .ok (place, .directory)) (hoccupies : Occupies idle (rooted root) (single name text) p) :
    p = place := by
  obtain ⟨⟨m, hleads⟩, -⟩ := hoccupies
  have hthere := entryAt_of_leads hleads
  change (created idle (rooted root) (single name text)).2.entryAt [] true root = _ at hthere
  rw [hentry] at hthere
  cases hthere
  rfl

/-- A workspace in a fresh directory leaves the file beside it alone; neither `missing/..` nor the
empty root does. -/
theorem keepsFiles_at_roots :
    (∀ texts, KeepsFiles idle (rooted "w") texts (single "notes.txt" "keep me")) ∧
      (¬ ∀ texts, KeepsFiles idle (rooted "missing/..") texts (single "notes.txt" "keep me")) ∧
      ¬ ∀ texts, KeepsFiles idle (rooted "") texts (single "foundry.toml" "keep me") := by
  refine ⟨?_, fun hkeeps => ?_, fun hkeeps => ?_⟩
  · have hiff := keepsFiles_iff_spares (resolve_rooted "w") rfl
      (wellFormed_single "notes.txt" "keep me") rfl (confined_idle "w")
    refine hiff.1 (by decide) fun p q e hoccupies hq he _ => ?_
    have hentry : (created idle (rooted "w") (single "notes.txt" "keep me")).2.entryAt [] true "w" =
        .ok (["w"], .directory) := by
      decide +kernel
    obtain rfl := occupies_rooted hentry hoccupies
    obtain ⟨rfl, -⟩ := place_of_single (below_ne_nil hq) he
    exact absurd hq.1 (by decide)
  · have hiff := keepsFiles_iff_spares (resolve_rooted "missing/..") rfl
      (wellFormed_single "notes.txt" "keep me") rfl (confined_idle "missing/..")
    have hentry : (created idle (rooted "missing/..") (single "notes.txt" "keep me")).2.entryAt []
        false "missing/.." = .ok ([], .directory) := by
      decide +kernel
    obtain ⟨m, hleads⟩ := leads_of_entryAt hentry
    have hunaliased : Unaliased idle (rooted "missing/..") (single "notes.txt" "keep me") := by
      intro p hoccupies
      obtain rfl := occupies_rooted (entryAt_of_leads hleads) hoccupies
      refine ⟨hentry, fun q target hq he => ?_⟩
      exact nomatch (place_of_single (below_ne_nil hq) he).2
    have hmade : ∃ w, (created idle (rooted "missing/..") (single "notes.txt" "keep me")).1 =
        .ok w := ⟨⟨"missing/.."⟩, by decide +kernel⟩
    have hspares := hiff.2.1 (by decide) hunaliased hkeeps [] ["notes.txt"] _
      ⟨⟨m, hleads⟩, Or.inl hmade⟩ (by exact ⟨by decide, by decide⟩) rfl nofun
    exact not_replaceable_missing_parent hspares
  · have hiff := keepsFiles_iff_spares (resolve_rooted "") rfl
      (wellFormed_single "foundry.toml" "keep me") rfl (confined_idle "")
    have hcontent := hiff.2.2 rfl "keep me".toUTF8 ⟨false, rfl⟩ hkeeps
    exact absurd hcontent (by decide +kernel)

end Run

end EmbeddedSolidity
