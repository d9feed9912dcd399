import EmbeddedSolidity.Proofs.Workspace.Create
import EmbeddedSolidity.Proofs.Workspace.Failure

/-!
# Roots that are declined

A root of the caller's choice at which something is found is replaced only if it is a directory
itself and is empty or known as a workspace (`Replaced`). Any other root is declined : the error
names the root, and nothing changes, neither below the root nor where a link at the root leads to.

* `Workspace.ensures_create_declined` : a declined root ends the making of a workspace, in the same
  tree;
* `Workspace.declined_of_refused` : a refusal means that the root was declined;
* `Workspace.create_replaces_only` : what making a workspace may replace.
-/

namespace EmbeddedSolidity.Workspace

open FileSystem FileSystem.FileTree

variable {h : Host} {w : Workspace} {t : FileTree} {c : Config} {e : Error}

/-- At the root is a directory, and not a link to one, that is empty or known as a workspace. -/
def Replaced (h : Host) (w : Workspace) (t : FileTree) : Prop :=
  t.kind h.current w.root = .ok .directory ∧
    (t.list h.current w.root = .ok [] ∨ w.Generated h t)

/-- What is at the root is not replaced, and why. -/
inductive Declined (h : Host) (w : Workspace) (t : FileTree) : Error → Prop where
  | unseen {f : Fault} : t.kind h.current w.root = .error f → f ≠ .notFound →
    Declined h w t (.workspace w.root f.text)
  | foreign {names : List String} : t.kind h.current w.root = .ok .directory →
    t.list h.current w.root = .ok names → names ≠ [] → ¬ w.Generated h t →
    Declined h w t (notWorkspace w.root)
  | other {k : Kind} : t.kind h.current w.root = .ok k → k ≠ .directory →
    Declined h w t (notDirectory w.root)

/-! ## Looking at the root -/

/-- A directory at the root is listed. -/
theorem exists_list (hkind : t.kind h.current w.root = .ok .directory) :
    ∃ names, t.list h.current w.root = .ok names := by
  obtain ⟨p, hentry⟩ := entryAt_of_kind hkind
  obtain ⟨m, hleads⟩ := leads_of_entryAt hentry
  refine ⟨t.names p, ?_⟩
  unfold FileTree.list
  rw [entryAt_of_leads hleads]
  rfl

/-- Something at the root is replaced or declined. -/
theorem replaced_or_declined (hthere : t.kind h.current w.root ≠ .error .notFound) :
    Replaced h w t ∨ ∃ e, Declined h w t e := by
  cases hkind : t.kind h.current w.root with
  | error f => exact Or.inr ⟨_, .unseen hkind fun hf => hthere (by rw [hkind, hf])⟩
  | ok k =>
    by_cases hk : k = .directory
    · subst hk
      obtain ⟨names, hlist⟩ := exists_list hkind
      by_cases hgenerated : w.Generated h t
      · exact Or.inl ⟨hkind, Or.inr hgenerated⟩
      · by_cases hempty : names = []
        · exact Or.inl ⟨hkind, Or.inl (hempty ▸ hlist)⟩
        · exact Or.inr ⟨_, .foreign hkind hlist hempty hgenerated⟩
    · exact Or.inr ⟨_, .other hkind hk⟩

theorem Declined.there (hdeclined : Declined h w t e) :
    t.kind h.current w.root ≠ .error .notFound := by
  cases hdeclined with
  | unseen hkind hf => rw [hkind]; exact fun he => hf (Except.error.inj he)
  | foreign hkind | other hkind => rw [hkind]; nofun

/-- What is declined is not replaced. -/
theorem Declined.not_replaced (hdeclined : Declined h w t e) : ¬ Replaced h w t := by
  rintro ⟨hdirectory, hreplaced⟩
  cases hdeclined with
  | unseen hkind => rw [hkind] at hdirectory; cases hdirectory
  | foreign _ hlist hne hgenerated =>
    refine hreplaced.elim (fun hempty => ?_) hgenerated
    rw [hlist] at hempty
    exact hne (Except.ok.inj hempty)
  | other hkind hk => rw [hkind] at hdirectory; exact hk (Except.ok.inj hdirectory)

/-- The error of a declined root names the root. -/
theorem Declined.names_root (hdeclined : Declined h w t e) :
    ∃ message, e = .workspace w.root message := by
  cases hdeclined <;> exact ⟨_, rfl⟩

/-- A declined root is not removed. -/
theorem ensures_removePrevious_declined (hdeclined : Declined h w t e) :
    Plan.Ensures h w.removePrevious t fun r t' => r = .error e ∧ t' = t := by
  unfold removePrevious
  refine Plan.ensures_bind (P := fun kind t' => kind = t.kind h.current w.root ∧ t = t')
    ⟨rfl, rfl⟩ ?_
  rintro _ _ ⟨rfl, rfl⟩
  cases hdeclined with
  | @unseen f hkind hf =>
    rw [hkind]
    cases f <;> first | exact absurd rfl hf | exact ⟨rfl, rfl⟩
  | @foreign names hkind hlist hne hgenerated =>
    rw [hkind]
    refine Plan.ensures_bind (P := fun listed t' => listed = .ok names ∧ t = t') ⟨hlist, rfl⟩ ?_
    rintro _ _ ⟨rfl, rfl⟩
    dsimp only
    rw [if_neg (by simpa using hne)]
    refine Plan.ensures_bind (ensures_hasGeneratedManifest h w t) ?_
    rintro known _ ⟨rfl, hknown⟩
    rw [if_neg fun htrue => hgenerated (hknown.1 htrue)]
    exact ⟨rfl, rfl⟩
  | @other k hkind hk =>
    rw [hkind]
    cases k <;> first | exact absurd rfl hk | exact ⟨rfl, rfl⟩

/-- A declined root ends the making of a workspace, and nothing changes. -/
theorem ensures_create_declined (hdefault : c.isDefaultRoot = false)
    (hdeclined : Declined h ⟨c.root⟩ t e) :
    Plan.Ensures h (create c) t fun r t' => r = .error e ∧ t' = t := by
  unfold create
  dsimp only
  rw [hdefault, if_neg Bool.false_ne_true]
  exact Plan.ensures_andThen (ensures_removePrevious_declined hdeclined)
    (fun _ _ ⟨he, ht⟩ => ⟨by rw [Except.error.inj he], ht⟩) fun _ _ hr => nomatch hr.1

/-! ## Errors -/

/-- A previous workspace is left because of a fault, or because the root was declined. -/
theorem ensures_removePrevious_error :
    Plan.Ensures h w.removePrevious t fun r _ =>
      ∀ e, r = .error e → OfFault e ∨ Declined h w t e := by
  have hfault : Plan.Ensures h (removeExisting w.root) t fun r _ =>
      ∀ e, r = .error e → OfFault e ∨ Declined h w t e :=
    ((always_removeExisting w.root).ensures h t).mono fun _ _ hr e he => Or.inl (hr e he)
  unfold removePrevious
  refine Plan.ensures_bind (P := fun kind t' => kind = t.kind h.current w.root ∧ t = t')
    ⟨rfl, rfl⟩ ?_
  rintro kind _ ⟨hkind, rfl⟩
  split
  · exact Plan.ensures_pure nofun
  · exact Plan.ensures_pure fun e he => Or.inl ⟨w.root, _, (Except.error.inj he).symm⟩
  · refine Plan.ensures_bind (P := fun listed t' => listed = t.list h.current w.root ∧ t = t')
      ⟨rfl, rfl⟩ ?_
    rintro listed _ ⟨hlist, rfl⟩
    split
    · exact Plan.ensures_pure fun e he => Or.inl ⟨w.root, _, (Except.error.inj he).symm⟩
    · split
      · exact hfault
      · next names hempty =>
        refine Plan.ensures_bind (ensures_hasGeneratedManifest h w t) ?_
        rintro known _ ⟨rfl, hknown⟩
        split
        · exact hfault
        · next hfalse =>
          refine Plan.ensures_pure fun e he => Or.inr ?_
          rw [← Except.error.inj he]
          exact .foreign hkind.symm hlist.symm (fun hnil => hempty (by rw [hnil]; rfl))
            fun hgenerated => hfalse (hknown.2 hgenerated)
  · next k hk =>
    refine Plan.ensures_pure fun e he => Or.inr ?_
    rw [← Except.error.inj he]
    exact .other hkind.symm fun hdirectory => hk (by rw [hdirectory])

/-- A workspace is not made because of a fault, or because its root was declined. -/
theorem ensures_create_error (hdefault : c.isDefaultRoot = false) :
    Plan.Ensures h (create c) t fun r _ =>
      ∀ e, r = .error e → OfFault e ∨ Declined h ⟨c.root⟩ t e := by
  unfold create
  dsimp only
  rw [hdefault, if_neg Bool.false_ne_true]
  refine Plan.ensures_andThen ensures_removePrevious_error
    (fun e _ herror e' he => herror e' (congrArg Except.error (Except.error.inj he))) fun _ t' _ => ?_
  exact ((always_build ⟨c.root⟩ c.solc).ensures h t').mono fun _ _ hbuild e he =>
    Or.inl (hbuild.1 e he)

/-- A root that was refused had been declined. -/
theorem declined_of_refused (hdefault : c.isDefaultRoot = false)
    (hrun : ((create c).run h t).1 = .error e) (hrefusal : Refusal c.root e) :
    Declined h ⟨c.root⟩ t e :=
  (ensures_create_error hdefault e hrun).resolve_left hrefusal.not_ofFault

/-! ## What making a workspace replaces -/

/-- If something is at a root of the caller's choice, a workspace is made there only if that is a
directory itself, and is empty or known as a workspace; if it is anything else, the error names the
root, and the tree is as it was. -/
theorem create_replaces_only (hdefault : c.isDefaultRoot = false)
    (hthere : t.kind h.current c.root ≠ .error .notFound) :
    (∀ made, ((create c).run h t).1 = .ok made → Replaced h ⟨c.root⟩ t) ∧
      (¬ Replaced h ⟨c.root⟩ t →
        ∃ message, (create c).run h t = (.error (.workspace c.root message), t)) := by
  have hother : ¬ Replaced h ⟨c.root⟩ t →
      ∃ message, (create c).run h t = (.error (.workspace c.root message), t) := fun hnot => by
    obtain ⟨e, hdeclined⟩ :=
      (replaced_or_declined (w := ⟨c.root⟩) hthere).resolve_left hnot
    obtain ⟨hresult, htree⟩ := ensures_create_declined hdefault hdeclined
    obtain ⟨message, rfl⟩ := hdeclined.names_root
    exact ⟨message, Prod.ext hresult htree⟩
  refine ⟨fun made hmade => Classical.byContradiction fun hnot => ?_, hother⟩
  obtain ⟨message, hrun⟩ := hother hnot
  rw [hrun] at hmade
  cases hmade

/-! ## A link to a workspace -/

/-- A host at the root of the tree, without programs. -/
def bare : Host where
  current := []
  search := []
  execute := fun _ _ _ t => (.error .notFound, t)

/-- An earlier workspace with a file of the user in it, and a link to it. -/
def aliased : FileTree :=
  ⟨[(["real"], .directory),
    (["real", Manifest.fileName],
      .file (Manifest.ofVersion Manifest.defaultSolc).render.toUTF8 false),
    (["real", "notes.txt"], .file "keep me".toUTF8 false), (["w"], .link "real")]⟩

/-- A root of the caller's choice. -/
def chosen (root : String) : Config :=
  ⟨Manifest.defaultSolc, defaultExecutable, root, false, none⟩

/-- An earlier workspace is replaced, but not by way of a link to it. -/
theorem create_replaces_directory_not_link :
    Replaced bare ⟨"real"⟩ aliased ∧ ¬ Replaced bare ⟨"w"⟩ aliased ∧
      ∃ message, (create (chosen "w")).run bare aliased = (.error (.workspace "w" message), aliased) := by
  have hreal : aliased.kind bare.current "real" = .ok .directory := by decide +kernel
  have hlink : aliased.kind bare.current "w" = .ok .link := by decide +kernel
  have hmade : ((create (chosen "real")).run bare aliased).1 = .ok ⟨"real"⟩ := by decide +kernel
  have hnot : ¬ Replaced bare ⟨"w"⟩ aliased := fun h => by
    have hkind := h.1
    change aliased.kind bare.current "w" = _ at hkind
    rw [hlink] at hkind
    cases hkind
  have hdirectory := create_replaces_only (h := bare) (t := aliased) (c := chosen "real") rfl (by
    change aliased.kind bare.current "real" ≠ _
    rw [hreal]
    nofun)
  have hrefused := create_replaces_only (h := bare) (t := aliased) (c := chosen "w") rfl (by
    change aliased.kind bare.current "w" ≠ _
    rw [hlink]
    nofun)
  exact ⟨hdirectory.1 _ hmade, hnot, hrefused.2 hnot⟩

end EmbeddedSolidity.Workspace
