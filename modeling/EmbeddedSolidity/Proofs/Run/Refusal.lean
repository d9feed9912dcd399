import EmbeddedSolidity.Proofs.Plan.Log
import EmbeddedSolidity.Proofs.Run.Session
import EmbeddedSolidity.Proofs.Workspace.Refusal

/-!
# Runs with a refused root

If the root of a run is refused, no snippet is compiled, no program is started, and the end of the
run is no failure. What is at the root is judged twice, though : a link is refused when the workspace
is to be made, but the end of the run follows it to look for a manifest, and removes it if it leads
to an earlier workspace.

* `Run.quiet_compileAll` : compiling under a declined root;
* `Run.refused_root_kept_iff` : when a run leaves a refused root as it was;
* `Run.refused_link_removed` : a run that does not.
-/

namespace EmbeddedSolidity

open FileSystem FileSystem.FileTree

/-! ## Plans that start no program -/

namespace Plan

variable {α β : Type} {h : Host} {t : FileTree}

/-- The plan ends in such a result and such a tree, and starts no program. -/
structure Quiet (h : Host) (p : Plan α) (t : FileTree) (Q : α → FileTree → Prop) : Prop where
  ends : Ensures h p t Q
  starts : ∀ x ∈ p.log h t, ¬ x.1.Starts

theorem quiet_pure {a : α} {Q : α → FileTree → Prop} (hQ : Q a t) : Quiet h (pure a : Plan α) t Q :=
  ⟨hQ, List.forall_mem_nil _⟩

theorem quiet_bind {p : Plan α} {f : α → Plan β} {P : α → FileTree → Prop}
    {Q : β → FileTree → Prop} (hp : Quiet h p t P) (hf : ∀ a t', P a t' → Quiet h (f a) t' Q) :
    Quiet h (p >>= f) t Q := by
  refine ⟨ensures_bind hp.ends fun a t' hP => (hf a t' hP).ends, ?_⟩
  rw [log_bind, List.forall_mem_append]
  exact ⟨hp.starts, (hf _ _ hp.ends).starts⟩

/-- A plan that never asks for a program to be started starts none. -/
theorem Always.quiet {p : Plan α} {P : α → Prop} {Q : α → FileTree → Prop}
    (halways : p.Always (fun c => ¬ c.Starts) P) (hp : Ensures h p t Q) : Quiet h p t Q :=
  ⟨hp, (halways _ _ (ends_log h p t)).1⟩

end Plan

namespace Workspace

/-! ## Links to workspaces -/

variable {h : Host} {w : Workspace} {t : FileTree} {e : Error}

/-- At the root is a link that leads to a directory that is known as a workspace. -/
def Aliases (h : Host) (w : Workspace) (t : FileTree) : Prop :=
  t.kind h.current w.root = .ok .link ∧ w.Generated h t

theorem entryAt_of_kind_link (hkind : t.kind h.current w.root = .ok .link) :
    ∃ q target, t.entryAt h.current false w.root = .ok (q, .link target) := by
  unfold FileTree.kind at hkind
  rcases hentry : t.entryAt h.current false w.root with f | ⟨q, _ | _ | target⟩ <;>
    rw [hentry] at hkind <;> cases hkind
  exact ⟨q, target, rfl⟩

/-- Of the roots that are refused, only links are known as workspaces. -/
theorem Declined.generated_iff (hdeclined : Declined h w t e) (hrefusal : Refusal w.root e) :
    w.Generated h t ↔ w.Aliases h t := by
  refine ⟨fun hgenerated => ?_, And.right⟩
  cases hdeclined with
  | @unseen f _ _ => exact absurd ⟨w.root, f, rfl⟩ hrefusal.not_ofFault
  | foreign _ _ _ hnot => exact absurd hgenerated hnot
  | @other k hkind hk =>
    have hroot : w.root ≠ "" := fun hempty => by
      rw [hempty] at hkind
      cases hkind
    obtain ⟨text, htext, -⟩ := id hgenerated
    obtain ⟨q, content, executable, hentry, -⟩ := entryAt_of_textAt htext
    obtain ⟨m, p, hleads, -⟩ := leads_of_resolve hroot
      (List.forall_mem_singleton.2 named_manifest.simple) (List.cons_ne_nil _ _)
      (resolve_of_entryAt hentry)
    refine ⟨?_, hgenerated⟩
    unfold FileTree.kind at hkind ⊢
    rcases entryAt_false_of_leads hleads with hthere | ⟨q, target, hthere⟩ <;> rw [hthere] at hkind ⊢
    · exact absurd (Except.ok.inj hkind).symm hk
    · rfl

/-- A link at the root is removed with the workspace. -/
theorem ensures_destroy_link {q : Place} {target : String}
    (hentry : t.entryAt h.current false w.root = .ok (q, .link target)) :
    Plan.Ensures h w.destroy t fun r t' => r = .ok () ∧ t' = t.erase q := by
  have hremoved := removeTree_link hentry
  refine Plan.ensures_bind (P := fun r t' => r = .ok () ∧ t' = t.erase q) ?_ ?_
  · exact ⟨congrArg Prod.fst hremoved, congrArg Prod.snd hremoved⟩
  · rintro _ _ ⟨rfl, rfl⟩
    exact ⟨rfl, rfl⟩

end Workspace

/-! ## Runs -/

namespace Run

variable {h : Host} {c : Config} {t : FileTree} {r : Run} {e : Error}

/-- Compile texts in a fresh run and clean up; gives how all of it ended. -/
def lifetime (c : Config) (texts : List String) :
    Plan (List (Except Error Compiled) × Except Error Unit) := do
  let (results, r) ← (Run.start c).compileAll texts
  return (results, ← r.finish)

/-- What compiling a text gives if the workspace cannot be made. -/
def refused (e : Error) (text : String) : Except Error Compiled :=
  if Text.isBlank text then .error (Snippet.blankError text) else .error e

/-- The run has not needed its workspace yet, or that could not be made. -/
def Halted (c : Config) (e : Error) (r : Run) : Prop :=
  r.config = c ∧ (r.made = none ∨ r.made = some (.error e))

section Declined

variable (hdefault : c.isDefaultRoot = false) (hdeclined : Workspace.Declined h ⟨c.root⟩ t e)

include hdefault hdeclined

theorem quiet_workspace (hhalted : Halted c e r) :
    Plan.Quiet h r.workspace t fun out t' => (out.1 = .error e ∧ Halted c e out.2) ∧ t' = t := by
  obtain ⟨rfl, hmade | hmade⟩ := hhalted
  · unfold workspace
    rw [hmade]
    refine Plan.quiet_bind ((Workspace.always_create r.config).quiet
      (Workspace.ensures_create_declined hdefault hdeclined)) ?_
    rintro _ _ ⟨rfl, rfl⟩
    exact Plan.quiet_pure ⟨⟨rfl, rfl, Or.inr rfl⟩, rfl⟩
  · unfold workspace
    rw [hmade]
    exact Plan.quiet_pure ⟨⟨rfl, rfl, Or.inr hmade⟩, rfl⟩

/-- One text compiled under a declined root. -/
theorem quiet_compile (hhalted : Halted c e r) (text : String) :
    Plan.Quiet h (r.compile text) t fun out t' =>
      (out.1 = refused e text ∧ Halted c e out.2) ∧ t' = t := by
  unfold compile refused Snippet.ofText
  by_cases hblank : Text.isBlank text = true
  · rw [dif_pos hblank, if_pos hblank]
    exact Plan.quiet_pure ⟨⟨rfl, hhalted⟩, rfl⟩
  · rw [dif_neg hblank, if_neg hblank]
    refine Plan.quiet_bind (quiet_workspace hdefault hdeclined hhalted) ?_
    rintro ⟨made, r'⟩ _ ⟨⟨hmade, hhalted'⟩, rfl⟩
    dsimp only at hmade hhalted' ⊢
    rw [hmade]
    exact Plan.quiet_pure ⟨⟨rfl, hhalted'⟩, rfl⟩

/-- Texts compiled one after the other under a declined root. -/
theorem quiet_compileAll (hhalted : Halted c e r) (texts : List String) :
    Plan.Quiet h (r.compileAll texts) t fun out t' =>
      (out.1 = texts.map (refused e) ∧ Halted c e out.2) ∧ t' = t := by
  induction texts generalizing r with
  | nil => exact Plan.quiet_pure ⟨⟨rfl, hhalted⟩, rfl⟩
  | cons text rest ih =>
    refine Plan.quiet_bind (quiet_compile hdefault hdeclined hhalted text) ?_
    rintro ⟨result, r'⟩ _ ⟨⟨hresult, hhalted'⟩, rfl⟩
    refine Plan.quiet_bind (ih hhalted') ?_
    rintro ⟨results, r''⟩ _ ⟨⟨hresults, hhalted''⟩, rfl⟩
    exact Plan.quiet_pure ⟨⟨congrArg₂ List.cons hresult hresults, hhalted''⟩, rfl⟩

end Declined

/-- The end of a run with a refused root : a link to an earlier workspace is removed, and nothing
else changes. -/
def Released (h : Host) (w : Workspace) (t t' : FileTree) : Prop :=
  (¬ w.Aliases h t ∧ t' = t) ∨ (w.Aliases h t ∧
    ∃ q target, t.entryAt h.current false w.root = .ok (q, .link target) ∧ t' = t.erase q)

/-- A refused root is released at the end of the run. -/
theorem quiet_finish (hdefault : c.isDefaultRoot = false)
    (hdeclined : Workspace.Declined h ⟨c.root⟩ t e) (hrefusal : Workspace.Refusal c.root e)
    (hhalted : Halted c e r) :
    Plan.Quiet h r.finish t fun out t' => out = .ok () ∧ Released h ⟨c.root⟩ t t' := by
  refine Plan.quiet_bind (quiet_workspace hdefault hdeclined hhalted) ?_
  rintro ⟨made, r'⟩ t' ⟨⟨hmade, -⟩, rfl⟩
  dsimp only at hmade ⊢
  rw [hmade]
  dsimp only
  rw [hhalted.1, hdefault, if_neg Bool.false_ne_true]
  refine Plan.quiet_bind ((Workspace.always_hasGeneratedManifest ⟨c.root⟩ id).quiet
    (Workspace.ensures_hasGeneratedManifest h ⟨c.root⟩ t')) ?_
  rintro known _ ⟨rfl, hknown⟩
  rw [hdeclined.generated_iff hrefusal] at hknown
  split
  · next htrue =>
    obtain ⟨q, target, hentry⟩ := Workspace.entryAt_of_kind_link (hknown.1 htrue).1
    refine (Workspace.always_destroy ⟨c.root⟩ id).quiet
      ((Workspace.ensures_destroy_link hentry).mono ?_)
    rintro _ _ ⟨rfl, rfl⟩
    exact ⟨rfl, Or.inr ⟨hknown.1 htrue, q, target, hentry, rfl⟩⟩
  · next hfalse =>
    exact Plan.quiet_pure ⟨rfl, Or.inl ⟨fun haliases => hfalse (hknown.2 haliases), rfl⟩⟩

/-- A run with a refused root, from its start to its end. -/
theorem quiet_lifetime (hdefault : c.isDefaultRoot = false)
    (hdeclined : Workspace.Declined h ⟨c.root⟩ t e) (hrefusal : Workspace.Refusal c.root e)
    (texts : List String) :
    Plan.Quiet h (lifetime c texts) t fun out t' =>
      out = (texts.map (refused e), .ok ()) ∧ Released h ⟨c.root⟩ t t' := by
  have hstart : Halted c e (Run.start c) := ⟨rfl, Or.inl rfl⟩
  refine Plan.quiet_bind (quiet_compileAll hdefault hdeclined hstart texts) ?_
  rintro ⟨results, r⟩ _ ⟨⟨hresults, hhalted⟩, rfl⟩
  refine Plan.quiet_bind (quiet_finish hdefault hdeclined hrefusal hhalted) ?_
  rintro _ t' ⟨rfl, hreleased⟩
  exact Plan.quiet_pure ⟨Prod.ext hresults rfl, hreleased⟩

theorem Released.eq_iff {w : Workspace} {t' : FileTree} (hreleased : Released h w t t') :
    t' = t ↔ ¬ w.Aliases h t := by
  rcases hreleased with ⟨hnot, rfl⟩ | ⟨haliases, q, target, hentry, rfl⟩
  · exact iff_of_true rfl hnot
  · refine iff_of_false (fun heq => ?_) (not_not_intro haliases)
    obtain ⟨hne, hlink⟩ := get?_of_entryAt_link hentry
    rw [← heq, get?_erase_self t hne] at hlink
    cases hlink

/-- If the root is refused, every text that is not blank gets the refusal, no program is started,
and the run ends without a failure. It leaves the tree as it was unless a link to an earlier
workspace is at the root; then it removes that link. -/
theorem refused_root_kept_iff (hdefault : c.isDefaultRoot = false)
    (hrun : (created h c t).1 = .error e) (hrefusal : Workspace.Refusal c.root e)
    (texts : List String) :
    (created h c t).2 = t ∧
      ((lifetime c texts).run h t).1 = (texts.map (refused e), .ok ()) ∧
      (∀ x ∈ (lifetime c texts).log h t, ¬ x.1.Starts) ∧
      (((lifetime c texts).run h t).2 = t ↔ ¬ Workspace.Aliases h ⟨c.root⟩ t) ∧
      (Workspace.Aliases h ⟨c.root⟩ t → ∃ q target,
        t.entryAt h.current false c.root = .ok (q, .link target) ∧
          ((lifetime c texts).run h t).2 = t.erase q) := by
  have hdeclined := Workspace.declined_of_refused hdefault hrun hrefusal
  have hlifetime := quiet_lifetime hdefault hdeclined hrefusal texts
  obtain ⟨hresults, hreleased⟩ := hlifetime.ends
  refine ⟨(Workspace.ensures_create_declined hdefault hdeclined).2, hresults, hlifetime.starts,
    hreleased.eq_iff, fun haliases => ?_⟩
  exact (hreleased.resolve_left fun hkept => hkept.1 haliases).2

/-! ## A link to an earlier workspace -/

open Workspace (bare aliased)

theorem created_rooted_link :
    (created bare (rooted "w") aliased).1 = .error (Workspace.notDirectory "w") := by
  decide +kernel

theorem aliases_link : Workspace.Aliases bare ⟨"w"⟩ aliased := by
  refine ⟨by decide +kernel, (Manifest.ofVersion Manifest.defaultSolc).render,
    ?_, Manifest.isGenerated_render _⟩
  have hentry : aliased.entryAt bare.current true "w/foundry.toml" =
      .ok (["real", Manifest.fileName],
        .file (Manifest.ofVersion Manifest.defaultSolc).render.toUTF8 false) := by
    decide +kernel
  exact Workspace.textAt_of_entryAt hentry (Text.decode?_toUTF8 _)

/-- The link is refused as no directory, and gone when the run has ended. -/
theorem refused_link_removed :
    Options.resolve "/tmp" { workspace := some "w" } = .ok (rooted "w") ∧
      (created bare (rooted "w") aliased).1 = .error (Workspace.notDirectory "w") ∧
      aliased.get? ["w"] = some (.link "real") ∧
      ((lifetime (rooted "w") ["good"]).run bare aliased).2.get? ["w"] = none :=
  ⟨rfl, created_rooted_link, rfl, by decide +kernel⟩

/-- A file at the root stays, and a link to an earlier workspace does not. -/
theorem refused_root_kept_file_not_link :
    ((lifetime (rooted "real/notes.txt") ["", "good"]).run bare aliased).2 = aliased ∧
      ((lifetime (rooted "w") ["", "good"]).run bare aliased).2 ≠ aliased := by
  have hcreated : (created bare (rooted "real/notes.txt") aliased).1 =
      .error (Workspace.notDirectory "real/notes.txt") := by
    decide +kernel
  have hkind : aliased.kind bare.current "real/notes.txt" = .ok .file := by decide +kernel
  have hfile := refused_root_kept_iff rfl hcreated (Or.inl rfl) ["", "good"]
  have hlink := refused_root_kept_iff rfl created_rooted_link (Or.inl rfl) ["", "good"]
  refine ⟨hfile.2.2.2.1.2 fun haliases => ?_, fun hkept => hlink.2.2.2.1.1 hkept aliases_link⟩
  have hkind' := haliases.1
  change aliased.kind bare.current "real/notes.txt" = _ at hkind'
  rw [hkind] at hkind'
  cases hkind'

end Run

end EmbeddedSolidity
