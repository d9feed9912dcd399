import EmbeddedSolidity.Proofs.FileSystem.Effect
import EmbeddedSolidity.Proofs.Plan.Run
import EmbeddedSolidity.Proofs.Workspace.Layout
import EmbeddedSolidity.Proofs.Workspace.Manifest
import EmbeddedSolidity.Workspace.Lifecycle

/-!
# What making a workspace changes

A root of the caller's choice is cleared only if it is an empty directory or an earlier workspace.
Then directories and the manifest are put where the root leads to by now, which need not be where
it led to before.

* `Workspace.ensures_removePrevious` : what clearing the root takes away;
* `Workspace.ensures_build` : what is put there.
-/

namespace EmbeddedSolidity

open FileSystem FileSystem.FileTree

namespace Workspace

variable {h : Host} {w : Workspace} {t t' : FileTree}

/-! ## Known workspaces -/

/-- The root holds a manifest that was written for a workspace. -/
def Generated (h : Host) (w : Workspace) (t : FileTree) : Prop :=
  ∃ text, Plan.textAt h t w.manifestPath = .ok text ∧ Manifest.isGenerated text = true

/-- The test for the manifest changes nothing. -/
theorem ensures_hasGeneratedManifest (h : Host) (w : Workspace) (t : FileTree) :
    Plan.Ensures h w.hasGeneratedManifest t fun known t' =>
      t = t' ∧ (known = true ↔ w.Generated h t) := by
  unfold Plan.Ensures hasGeneratedManifest Generated
  rw [Plan.run_bind, Plan.run_readText]
  dsimp only
  cases Plan.textAt h t w.manifestPath with
  | error fault => exact ⟨rfl, by simp [Plan.run, pure]⟩
  | ok text => exact ⟨rfl, by simp [Plan.run, pure]⟩

theorem entryAt_of_textAt {path text : String} (h' : Plan.textAt h t path = .ok text) :
    ∃ q content executable, t.entryAt h.current true path = .ok (q, .file content executable) ∧
      Text.decode? content = some text := by
  unfold Plan.textAt FileTree.read at h'
  rcases hentry : t.entryAt h.current true path with f | ⟨q, _ | ⟨content, executable⟩ | target⟩ <;>
    rw [hentry] at h' <;> dsimp only [bind, Except.bind] at h'
  · cases h'
  · cases h'
  · split at h'
    · next text' htext =>
      cases h'
      exact ⟨q, content, executable, rfl, htext⟩
    · cases h'
  · cases h'

theorem textAt_of_entryAt {path text : String} {q : Place} {content : ByteArray} {executable : Bool}
    (h' : t.entryAt h.current true path = .ok (q, .file content executable))
    (hdecoded : Text.decode? content = some text) : Plan.textAt h t path = .ok text := by
  unfold Plan.textAt FileTree.read
  rw [h']
  dsimp only [bind, Except.bind]
  rw [hdecoded]

/-- The root of a known workspace leads to a directory. -/
theorem Generated.leads (hknown : w.Generated h t) (hroot : w.root ≠ "") (hwf : t.WellFormed) :
    ∃ m p, Leads t h.current w.root m p ∧ t.get? p = some .directory := by
  obtain ⟨text, htext, -⟩ := hknown
  obtain ⟨q, content, executable, hentry, -⟩ := entryAt_of_textAt htext
  obtain ⟨m, p, hleads, hwalk⟩ := leads_of_resolve hroot (List.forall_mem_singleton.2 named_manifest.simple) (List.cons_ne_nil _ _)
    (resolve_of_entryAt hentry)
  exact ⟨m, p, hleads, directory_of_walk hwf named_manifest.plain hwalk⟩

/-! ## Clearing the root -/

/-- The place is in a directory that the root leads to and that is known as a workspace. -/
def Replaceable (h : Host) (w : Workspace) (t : FileTree) (q : Place) : Prop :=
  w.Generated h t ∧ ∃ p, t.entryAt h.current true w.root = .ok (p, .directory) ∧ Below p q

/-- The tree without some of what may be replaced, and some directories. -/
structure Cleared (h : Host) (w : Workspace) (t t' : FileTree) : Prop where
  only : ∀ q e, t'.get? q = some e → t.get? q = some e
  keeps : ∀ q e, e ≠ .directory → ¬ w.Replaceable h t q → t.get? q = some e → t'.get? q = some e
  wellFormed : t'.WellFormed

theorem Cleared.refl (hwf : t.WellFormed) : Cleared h w t t :=
  ⟨fun _ _ he => he, fun _ _ _ _ he => he, hwf⟩

/-- An emptied directory that had nothing in it, or that is known as a workspace. -/
theorem cleared_eraseBelow (hwf : t.WellFormed) {p : Place}
    (hbelow : ∀ q e, Below p q → t.get? q = some e → w.Replaceable h t q) :
    Cleared h w t (t.eraseBelow p) := by
  refine ⟨fun q e he => ?_, fun q e _ hq he => ?_, hwf.eraseBelow p⟩
  · by_cases hq : Below p q
    · rw [get?_eraseBelow t hq] at he
      cases he
    · rw [get?_eraseBelow_of_not_below t hq] at he
      exact he
  · rw [get?_eraseBelow_of_not_below t fun hpq => hq (hbelow q e hpq he)]
    exact he

theorem Cleared.erase (hcleared : Cleared h w t t') {p : Place} (hp : t.get? p = some .directory)
    (hwf : (t'.erase p).WellFormed) (hroot : p ≠ []) : Cleared h w t (t'.erase p) := by
  refine ⟨fun q e he => ?_, fun q e hne hq he => ?_, hwf⟩
  · by_cases heq : q = p
    · rw [heq, get?_erase_self t' hroot] at he
      cases he
    · rw [get?_erase_of_ne t' heq] at he
      exact hcleared.only q e he
  · have heq : q ≠ p := fun heq => hne (by rw [heq, hp] at he; cases he; rfl)
    rw [get?_erase_of_ne t' heq]
    exact hcleared.keeps q e hne hq he

/-- Removing a directory at the root clears it. -/
theorem cleared_removeTree (hwf : t.WellFormed) (hcurrent : t.get? h.current = some .directory)
    {p : Place} (hentry : t.entryAt h.current false w.root = .ok (p, .directory))
    (hbelow : ∀ q e, Below p q → t.get? q = some e → w.Replaceable h t q) :
    Cleared h w t (t.removeTree h.current w.root).2 ∧
      ∀ q, Below p q → (t.removeTree h.current w.root).2.get? q = none := by
  have hcleared := cleared_eraseBelow hwf hbelow
  rcases removeTree_directory hentry with htree | ⟨hroot, htree⟩
  · rw [htree]
    exact ⟨hcleared, fun q hq => get?_eraseBelow t hq⟩
  · obtain ⟨m, hleads⟩ := leads_of_entryAt hentry
    have hstart : t.get? (startOf h.current w.root) = some .directory := by
      unfold startOf
      split
      · rfl
      · exact hcurrent
    rw [htree]
    refine ⟨hcleared.erase (hleads.reaches.directory hwf hstart) (hwf.emptied p) hroot,
      fun q hq => ?_⟩
    rw [get?_erase_of_ne _ hq.2]
    exact get?_eraseBelow t hq

theorem entryAt_of_kind (hkind : t.kind h.current w.root = .ok .directory) :
    ∃ p, t.entryAt h.current false w.root = .ok (p, .directory) := by
  unfold FileTree.kind at hkind
  rcases hentry : t.entryAt h.current false w.root with f | ⟨p, _ | _ | _⟩ <;>
    rw [hentry] at hkind <;> cases hkind
  exact ⟨p, rfl⟩

/-- Something is at a root that leads to a directory. -/
theorem kind_of_leads {m : Nat} {p : Place} (hleads : Leads t h.current w.root m p) :
    t.kind h.current w.root ≠ .error .notFound := by
  unfold FileTree.kind
  rcases entryAt_false_of_leads hleads with hentry | ⟨q, target, hentry⟩ <;> rw [hentry] <;> nofun

/-- Removing what is at a root where a directory is. -/
theorem ensures_removeExisting (hwf : t.WellFormed)
    (hcurrent : t.get? h.current = some .directory) {p : Place}
    (hkind : t.kind h.current w.root = .ok .directory)
    (hentry : t.entryAt h.current false w.root = .ok (p, .directory))
    (hbelow : ∀ q e, Below p q → t.get? q = some e → w.Replaceable h t q) :
    Plan.Ensures h (removeExisting w.root) t fun _ t' =>
      Cleared h w t t' ∧ ∀ q, Below p q → t'.get? q = none := by
  unfold removeExisting
  refine Plan.ensures_bind (P := fun kind t' => kind = .ok .directory ∧ t = t') ⟨hkind, rfl⟩ ?_
  rintro _ _ ⟨rfl, rfl⟩
  exact cleared_removeTree hwf hcurrent hentry hbelow

/-- Clearing the root takes away at most what may be replaced, and all of it if it succeeds. -/
theorem ensures_removePrevious (hwf : t.WellFormed)
    (hcurrent : t.get? h.current = some .directory) :
    Plan.Ensures h w.removePrevious t fun r t' =>
      Cleared h w t t' ∧ (∀ a, r = .ok a → ∀ q, w.Replaceable h t q → t'.get? q = none) := by
  have hkept : ∀ {e : Error}, Plan.Ensures h (pure (.error e) : Plan (Except Error Unit)) t
      fun r t' => Cleared h w t t' ∧
        (∀ a, r = .ok a → ∀ q, w.Replaceable h t q → t'.get? q = none) :=
    ⟨.refl hwf, nofun⟩
  unfold removePrevious
  refine Plan.ensures_bind (P := fun kind t' => kind = t.kind h.current w.root ∧ t = t')
    ⟨rfl, rfl⟩ ?_
  rintro kind _ ⟨hkind, rfl⟩
  split
  · refine ⟨.refl hwf, fun _ _ q hq => ?_⟩
    obtain ⟨-, p, hentry, -⟩ := hq
    obtain ⟨m, hleads⟩ := leads_of_entryAt hentry
    exact absurd hkind.symm (kind_of_leads hleads)
  · exact hkept
  · obtain ⟨p, hentry⟩ := entryAt_of_kind hkind.symm
    obtain ⟨m, hleads⟩ := leads_of_entryAt hentry
    have hfollowed := entryAt_of_leads hleads
    have hcleared : (∀ q e, Below p q → t.get? q = some e → w.Replaceable h t q) →
        Plan.Ensures h (removeExisting w.root) t fun r t' => Cleared h w t t' ∧
          (∀ a, r = .ok a → ∀ q, w.Replaceable h t q → t'.get? q = none) := fun hbelow => by
      refine (ensures_removeExisting hwf hcurrent hkind.symm hentry hbelow).mono ?_
      rintro r t' ⟨hcleared, hfree⟩
      refine ⟨hcleared, fun _ _ q ⟨_, p', hentry', hq⟩ => ?_⟩
      rw [hfollowed] at hentry'
      cases hentry'
      exact hfree q hq
    have hlist : t.list h.current w.root = .ok (t.names p) := by
      unfold FileTree.list
      rw [hfollowed]
      rfl
    refine Plan.ensures_bind (P := fun names t' => names = .ok (t.names p) ∧ t = t') ⟨hlist, rfl⟩ ?_
    rintro _ _ ⟨rfl, rfl⟩
    dsimp only
    split
    · next hempty =>
      refine hcleared fun q e hq he => ?_
      rw [free_below_of_names hwf (List.isEmpty_iff.1 hempty) hq] at he
      cases he
    · refine Plan.ensures_bind (ensures_hasGeneratedManifest h w t) ?_
      rintro known _ ⟨rfl, hknown⟩
      split
      · next htrue => exact hcleared fun q e hq _ => ⟨hknown.1 htrue, p, hfollowed, hq⟩
      · exact hkept
  · exact hkept

/-! ## Building -/

theorem ensures_attempt {α : Type} {path : String} {p : Plan (Except Fault α)}
    {Q : Except Error α → FileTree → Prop}
    (hp : Plan.Ensures h p t fun r t' => Q (fault path r) t') : Plan.Ensures h (attempt path p) t Q :=
  Plan.ensures_bind hp fun _ _ hr => hr

/-- Directories may be made, then the manifest is written to a place `q` that its path targets,
where nothing or a file is, and then directories may be made again. -/
inductive Built (h : Host) (w : Workspace) (t : FileTree) :
    Except Error Workspace → FileTree → Prop where
  | failed {t' : FileTree} (e : Error) : Adds t t' → Built h w t (.error e) t'
  | written {before t' : FileTree} {q : Place} {r : Except Error Workspace} (solc : String)
      (executable : Bool) : Adds t before → before.Targets h.current w.manifestPath q →
      Adds (before.put q (.file (Manifest.ofVersion solc).render.toUTF8 executable)) t' →
      (∀ w', r = .ok w' → w' = w) → Built h w t r t'

/-- The manifest is written to a place that its path targets, or nothing changes. -/
theorem ensures_writeManifest (h : Host) (w : Workspace) (solc : String) (t : FileTree) :
    Plan.Ensures h
      (attempt w.manifestPath (Plan.writeText w.manifestPath (Manifest.ofVersion solc).render)) t
      fun r t' => match r with
        | .error _ => t' = t
        | .ok _ => ∃ q executable, t.Targets h.current w.manifestPath q ∧
          t' = t.put q (.file (Manifest.ofVersion solc).render.toUTF8 executable) := by
  refine ensures_attempt ?_
  unfold Plan.Ensures
  rw [Plan.run_writeText]
  cases hwrite : t.write h.current w.manifestPath (Manifest.ofVersion solc).render.toUTF8 with
  | error f => exact rfl
  | ok written =>
    obtain ⟨q, executable, rfl, htargets⟩ := write_eq_ok hwrite
    exact ⟨q, executable, htargets, rfl⟩

/-- How a workspace is built. -/
theorem ensures_build (h : Host) (w : Workspace) (solc : String) (t : FileTree) :
    Plan.Ensures h (w.build solc) t (w.Built h t) := by
  unfold build
  refine Plan.ensures_andThen (P := fun _ before => Adds t before)
    (ensures_attempt (adds_makeDirectories t h.current w.root)) (fun e _ hadds => .failed e hadds) ?_
  intro _ before hadds
  refine Plan.ensures_andThen (ensures_writeManifest h w solc before) ?_ ?_
  · rintro e _ rfl
    exact .failed e hadds
  · rintro _ written ⟨q, executable, htargets, rfl⟩
    refine Plan.ensures_andThen (P := fun _ t' => Adds (before.put q _) t')
      (ensures_attempt (adds_makeDirectories _ h.current w.sourceDirectory))
      (fun e _ hadds' => .written solc executable hadds htargets hadds' nofun) ?_
    intro _ t' hadds'
    exact Plan.ensures_pure
      (.written solc executable hadds htargets hadds' fun w' hw => (Except.ok.inj hw).symm)

/-- The root leads to the directory `p`, and the manifest is at the place `q`, where before nothing
or a file was; but for the manifest and for directories nothing changed. -/
structure Placed (h : Host) (w : Workspace) (t t' : FileTree) (m : Nat) (p q : Place) : Prop where
  leads : Leads t' h.current w.root m p
  directory : t'.get? p = some .directory
  generated : w.Generated h t'
  manifest : q = p ++ [Manifest.fileName] ∨
    ∃ target, t.get? (p ++ [Manifest.fileName]) = some (.link target)
  keeps : ∀ r e, r ≠ q → t.get? r = some e → t'.get? r = some e
  only : ∀ r target, t'.get? r = some (.link target) → t.get? r = some (.link target)

/-- Where the manifest of a built workspace is. -/
theorem Built.placed {r : Except Error Workspace} (hbuilt : w.Built h t r t') (hwf : t.WellFormed)
    (hroot : w.root ≠ "") :
    (∃ e, r = .error e) ∧ Adds t t' ∨ ∃ m p q, w.Placed h t t' m p q := by
  cases hbuilt with
  | failed e hadds => exact Or.inl ⟨⟨e, rfl⟩, hadds⟩
  | @written before _ q _ solc executable hbefore htargets hafter _ =>
    have hbeforewf := hbefore.wellFormed hwf
    have hwritable := htargets.writable hbeforewf
    have hq : t'.get? q = some (.file (Manifest.ofVersion solc).render.toUTF8 executable) :=
      hafter.keeps _ _ (get?_put_self before _ hwritable.1)
    have hkeeps : KeepsWays before t' := hwritable.keepsWays.trans hafter.keeps.keepsWays
    have hgenerated : w.Generated h t' :=
      ⟨_, textAt_of_entryAt (htargets.entryAt hkeeps hq) (Text.decode?_toUTF8 _),
        Manifest.isGenerated_render solc⟩
    obtain ⟨found, hfound, hfor⟩ := htargets
    obtain ⟨m, p, hleads, hwalk⟩ := leads_of_resolve hroot (List.forall_mem_singleton.2 named_manifest.simple) (List.cons_ne_nil _ _)
      hfound
    have hdirectory := directory_of_walk hbeforewf named_manifest.plain hwalk
    refine Or.inr ⟨m, p, q, hleads.mono hkeeps, hkeeps _ _ isWay_directory hdirectory,
      hgenerated, ?_, fun r e hne he => ?_, fun r target he => ?_⟩
    · exact (hfor.at_name named_manifest.plain hwalk).imp_right fun ⟨target, hlink⟩ =>
        ⟨target, (hbefore.only _ _ hlink).resolve_right nofun⟩
    · refine hafter.keeps _ _ ?_
      rw [get?_put_of_ne before _ hne]
      exact hbefore.keeps _ _ he
    · have hput := (hafter.only _ _ he).resolve_right nofun
      have hne : r ≠ q := fun heq => by
        rw [heq, get?_put_self before _ hwritable.1] at hput
        cases hput
      rw [get?_put_of_ne before _ hne] at hput
      exact (hbefore.only _ _ hput).resolve_right nofun

/-! ## Making a workspace -/

/-- A workspace is made at the root of the configuration. -/
theorem ensures_create_root (h : Host) (c : Config) (t : FileTree) :
    Plan.Ensures h (create c) t fun r _ => ∀ w, r = .ok w → w = ⟨c.root⟩ := by
  refine Plan.ensures_andThen (P := fun _ _ => True) trivial (fun _ _ _ => nofun) fun _ t' _ => ?_
  refine (ensures_build h ⟨c.root⟩ c.solc t').mono fun r t'' hbuilt w hw => ?_
  cases hbuilt with
  | failed e _ => cases hw
  | written _ _ _ _ _ hr => exact hr w hw

/-- How a workspace at a root of the caller's choice is made. -/
theorem ensures_create {c : Config} (hdefault : c.isDefaultRoot = false) (hroot : c.root ≠ "")
    (hwf : t.WellFormed) (hcurrent : t.get? h.current = some .directory) :
    Plan.Ensures h (create c) t fun r t' => ∃ cleared, Cleared h ⟨c.root⟩ t cleared ∧
      ((∃ e, r = .error e) ∧ Adds cleared t' ∨
        (∃ m p q, Placed h ⟨c.root⟩ cleared t' m p q) ∧
          ∀ q, Replaceable h ⟨c.root⟩ t q → cleared.get? q = none) := by
  unfold create
  dsimp only
  rw [hdefault, if_neg Bool.false_ne_true]
  refine Plan.ensures_andThen (ensures_removePrevious hwf hcurrent) ?_ ?_
  · rintro e cleared ⟨hcleared, -⟩
    exact ⟨cleared, hcleared, Or.inl ⟨⟨e, rfl⟩, .refl cleared⟩⟩
  · rintro a cleared ⟨hcleared, hgone⟩
    refine (ensures_build h ⟨c.root⟩ c.solc cleared).mono fun r t' hbuilt => ?_
    exact ⟨cleared, hcleared, (hbuilt.placed hcleared.wellFormed hroot).imp_right
      fun hplaced => ⟨hplaced, hgone a rfl⟩⟩

/-- Where the root is empty, a manifest in the current directory is replaced. -/
theorem ensures_create_empty {c : Config} {content : ByteArray}
    (hdefault : c.isDefaultRoot = false) (hroot : c.root = "")
    (hfile : t.HasFile (h.current ++ [Manifest.fileName]) content) :
    Plan.Ensures h (create c) t fun _ t' =>
      t'.HasFile (h.current ++ [Manifest.fileName]) (Manifest.ofVersion c.solc).render.toUTF8 := by
  obtain ⟨executable, hfile⟩ := hfile
  have htargets : t.Targets h.current Manifest.fileName (h.current ++ [Manifest.fileName]) := by
    refine ⟨_, ?_, Or.inr ⟨content, executable, rfl⟩⟩
    exact walk_file named_manifest.plain hfile
  obtain ⟨executable', hwrite⟩ := htargets.write (by decide)
    (Manifest.ofVersion c.solc).render.toUTF8
  unfold create
  dsimp only
  rw [hdefault, if_neg Bool.false_ne_true, hroot]
  refine Plan.ensures_andThen (P := fun r t' => (∃ a, r = .ok a) ∧ t = t') ?_ ?_ ?_
  · unfold removePrevious
    refine Plan.ensures_bind (P := fun kind t' => kind = .error .notFound ∧ t = t') ⟨rfl, rfl⟩ ?_
    rintro _ _ ⟨rfl, rfl⟩
    exact ⟨⟨(), rfl⟩, rfl⟩
  · rintro e _ ⟨⟨_, hr⟩, -⟩
    cases hr
  · rintro _ _ ⟨-, rfl⟩
    unfold build
    refine Plan.ensures_andThen (P := fun r t' => (∃ a, r = .ok a) ∧ t = t')
      (ensures_attempt ⟨⟨(), rfl⟩, rfl⟩) (fun e _ hr => nomatch hr.1) ?_
    rintro _ _ ⟨-, rfl⟩
    refine Plan.ensures_andThen (P := fun _ t' => t'.HasFile _ _) (ensures_attempt ?_)
      (fun _ _ hP => hP) ?_
    · unfold Plan.Ensures
      rw [Plan.run_writeText]
      change (t.keeping (t.write h.current Manifest.fileName _)).2.HasFile _ _
      rw [hwrite]
      exact ⟨executable', get?_put_self t _ (by simp)⟩
    · rintro _ t' ⟨executable'', hP⟩
      refine Plan.ensures_andThen (P := fun _ t'' => t''.HasFile (h.current ++ [Manifest.fileName])
        (Manifest.ofVersion c.solc).render.toUTF8) (ensures_attempt ⟨executable'', (adds_makeDirectories t' h.current (sourceDirectory ⟨""⟩)).keeps _ _ hP⟩)
        (fun _ _ hP => hP) fun _ _ hP => hP

end Workspace

end EmbeddedSolidity
