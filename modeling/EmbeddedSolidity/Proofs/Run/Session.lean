import EmbeddedSolidity.Proofs.FileSystem.Removal
import EmbeddedSolidity.Proofs.Workspace.Create
import EmbeddedSolidity.Run

/-!
# Sessions

A session compiles texts one after the other in one run and then removes the workspace. Only the
first text that is not blank, or the end, makes the workspace; until then nothing changes.

* `Run.ensures_compileAll` : what compiling one text preserves, compiling many preserves;
* `Run.ensures_session` : how a session leaves the tree.
-/

namespace EmbeddedSolidity.Run

open FileSystem

/-- Compile texts one after the other. -/
def compileAll : Run → List String → Plan (List (Except Error Compiled) × Run)
  | r, [] => return ([], r)
  | r, text :: rest => do
    let (result, r) ← r.compile text
    let (results, r) ← compileAll r rest
    return (result :: results, r)

/-- Compile texts in a fresh run and clean up. -/
def session (c : Config) (texts : List String) : Plan (List (Except Error Compiled)) := do
  let (results, r) ← (Run.start c).compileAll texts
  let _ ← r.finish
  return results

/-- The configuration of a root and of no other choices. -/
def rooted (root : String) : Config :=
  ⟨Manifest.defaultSolc, defaultExecutable, root, false, some defaultTimeout⟩

variable {h : Host} {c : Config} {t t' : FileTree} {r : Run}

/-- What the workspace of a run became, and the tree that making it left. -/
def created (h : Host) (c : Config) (t : FileTree) : Except Error Workspace × FileTree :=
  (Workspace.create c).run h t

theorem root_of_created {w : Workspace} (hw : (created h c t).1 = .ok w) : w = ⟨c.root⟩ :=
  Workspace.ensures_create_root h c t w hw

/-- A run of the configuration that began in the tree `t` is in the tree `t'`, which is `t` or, with
its workspace made, such a tree. -/
def At (h : Host) (c : Config) (t : FileTree) (S : FileTree → Prop) (r : Run) (t' : FileTree) :
    Prop :=
  r.config = c ∧ (r.made = none ∧ t' = t ∨ r.made = some (created h c t).1 ∧ S t')

variable {S : FileTree → Prop}

/-- The workspace of a run is made at most once. -/
theorem At.workspace (hat : At h c t S r t') (hS : S (created h c t).2) :
    Plan.Ensures h r.workspace t' fun out t'' => out.1 = (created h c t).1 ∧
      out.2.config = c ∧ out.2.made = some (created h c t).1 ∧ S t'' := by
  obtain ⟨rfl, ⟨hmade, rfl⟩ | ⟨hmade, ht'⟩⟩ := hat
  · unfold workspace
    rw [hmade]
    exact Plan.ensures_bind (P := fun made t'' => made = (created h r.config t').1 ∧
      t'' = (created h r.config t').2) ⟨rfl, rfl⟩ fun made t'' ⟨hm, ht⟩ => by
        subst hm ht
        exact ⟨rfl, rfl, rfl, hS⟩
  · unfold workspace
    rw [hmade]
    exact ⟨rfl, rfl, hmade, ht'⟩

/-- Compiling a text leaves a run where it was, or in a tree that compiling leaves. -/
theorem ensures_compile (hat : At h c t S r t') (hS : S (created h c t).2)
    (hstep : ∀ w s t'', (created h c t).1 = .ok w → S t'' →
      Plan.Ensures h (compileIn c w s) t'' fun _ => S) (text : String) :
    Plan.Ensures h (r.compile text) t' fun out => At h c t S out.2 := by
  unfold compile
  split
  · exact hat
  · next s _ =>
    refine Plan.ensures_bind (hat.workspace hS) ?_
    rintro ⟨made, r'⟩ t'' ⟨hmade, hconfig, hr', ht''⟩
    dsimp only at hmade hconfig hr' ⊢
    subst hmade
    split
    · exact ⟨hconfig, Or.inr ⟨hr', ht''⟩⟩
    · next w hw =>
      rw [hconfig]
      exact Plan.ensures_bind (hstep w s t'' hw ht'') fun _ _ hS' => ⟨hconfig, Or.inr ⟨hr', hS'⟩⟩

/-- What compiling one text preserves, compiling many preserves. -/
theorem ensures_compileAll (hS : S (created h c t).2)
    (hstep : ∀ w s t'', (created h c t).1 = .ok w → S t'' →
      Plan.Ensures h (compileIn c w s) t'' fun _ => S) :
    ∀ (texts : List String) {r : Run} {t' : FileTree}, At h c t S r t' →
      Plan.Ensures h (r.compileAll texts) t' fun out => At h c t S out.2
  | [], _, _, hat => hat
  | text :: rest, _, _, hat =>
    Plan.ensures_bind (ensures_compile hat hS hstep text) fun _ _ hat' =>
      Plan.ensures_bind (ensures_compileAll hS hstep rest hat') fun _ _ hat'' => hat''

/-- How a run with a root of the caller's choice leaves the tree: a workspace that was made is
removed, and one that could not be made if it is known by its manifest. -/
def Finished (h : Host) (c : Config) (t before t' : FileTree) : Prop :=
  (∃ w, (created h c t).1 = .ok w ∧ t' = (before.removeTree h.current w.root).2) ∨
    (∃ e, (created h c t).1 = .error e) ∧
      (Workspace.Generated h ⟨c.root⟩ before ∧ t' = (before.removeTree h.current c.root).2 ∨
        ¬ Workspace.Generated h ⟨c.root⟩ before ∧ t' = before)

/-- The end of a run once it is known what became of its workspace. -/
def release (c : Config) : Except Error Workspace → Plan (Except Error Unit)
  | .ok w => w.destroy
  | .error _ => do
    if c.isDefaultRoot then Workspace.destroy ⟨c.root⟩
    else if ← Workspace.hasGeneratedManifest ⟨c.root⟩ then Workspace.destroy ⟨c.root⟩
    else return .ok ()

theorem finish_eq (r : Run) : r.finish = r.workspace >>= fun out => release r.config out.1 := by
  unfold finish
  refine bind_congr fun out => ?_
  cases out.1 <;> rfl

/-- Removing a workspace leaves nothing at its root, unless it fails. -/
theorem ensures_destroy (h : Host) (w : Workspace) (t : FileTree) :
    Plan.Ensures h w.destroy t fun r t' => t' = (t.removeTree h.current w.root).2 ∧
      (r = .ok () → t'.kind h.current w.root = .error .notFound) := by
  unfold Workspace.destroy
  refine Plan.ensures_bind (P := fun answer t' => answer = (t.removeTree h.current w.root).1 ∧
    t' = (t.removeTree h.current w.root).2) ⟨rfl, rfl⟩ ?_
  rintro answer _ ⟨hanswer, rfl⟩
  split
  · exact Plan.ensures_pure ⟨rfl, fun _ => FileTree.removeTree_gone (Or.inl hanswer.symm)⟩
  · exact Plan.ensures_pure ⟨rfl, fun _ => FileTree.removeTree_gone (Or.inr hanswer.symm)⟩
  · exact Plan.ensures_pure ⟨rfl, nofun⟩

/-- Where no workspace could be made, what is at a root of the caller's choice is removed if it is
known by its manifest, and stays otherwise. -/
theorem ensures_release_error (hdefault : c.isDefaultRoot = false) (e : Error) (t : FileTree) :
    Plan.Ensures h (release c (.error e)) t fun r t' =>
      Workspace.Generated h ⟨c.root⟩ t ∧ t' = (t.removeTree h.current c.root).2 ∧
          (r = .ok () → t'.kind h.current c.root = .error .notFound) ∨
        ¬ Workspace.Generated h ⟨c.root⟩ t ∧ r = .ok () ∧ t' = t := by
  unfold release
  rw [hdefault, if_neg Bool.false_ne_true]
  refine Plan.ensures_bind (Workspace.ensures_hasGeneratedManifest h ⟨c.root⟩ t) ?_
  rintro known _ ⟨rfl, hknown⟩
  split
  · next htrue =>
    exact (ensures_destroy h ⟨c.root⟩ t).mono fun _ _ hgone => Or.inl ⟨hknown.1 htrue, hgone⟩
  · next hfalse =>
    exact Plan.ensures_pure (Or.inr ⟨fun hg => hfalse (hknown.2 hg), rfl, rfl⟩)

theorem ensures_finish (hdefault : c.isDefaultRoot = false) (hat : At h c t S r t')
    (hS : S (created h c t).2) :
    Plan.Ensures h r.finish t' fun _ t'' => ∃ before, S before ∧ Finished h c t before t'' := by
  rw [finish_eq, hat.1]
  refine Plan.ensures_bind (hat.workspace hS) ?_
  rintro ⟨made, r'⟩ before ⟨hmade, -, -, hbefore⟩
  dsimp only at hmade ⊢
  subst hmade
  cases hcreated : (created h c t).1 with
  | ok w =>
    exact (ensures_destroy h w before).mono fun _ _ hgone =>
      ⟨before, hbefore, Or.inl ⟨w, hcreated, hgone.1⟩⟩
  | error e =>
    refine (ensures_release_error hdefault e before).mono fun _ _ hreleased => ?_
    refine ⟨before, hbefore, Or.inr ⟨⟨e, hcreated⟩, hreleased.imp ?_ ?_⟩⟩
    · exact fun ⟨hgenerated, htree, _⟩ => ⟨hgenerated, htree⟩
    · exact fun ⟨hnot, _, htree⟩ => ⟨hnot, htree⟩

/-- A session ends in a tree that compiling left, with the workspace removed. -/
theorem ensures_session (hdefault : c.isDefaultRoot = false) (hS : S (created h c t).2)
    (hstep : ∀ w s t'', (created h c t).1 = .ok w → S t'' →
      Plan.Ensures h (compileIn c w s) t'' fun _ => S) (texts : List String) :
    Plan.Ensures h (session c texts) t fun _ t' => ∃ before, S before ∧ Finished h c t before t' := by
  have hstart : At h c t S (Run.start c) t := ⟨rfl, Or.inl ⟨rfl, rfl⟩⟩
  refine Plan.ensures_bind (ensures_compileAll hS hstep texts hstart) fun out t' hat => ?_
  exact Plan.ensures_bind (ensures_finish hdefault hat hS) fun _ _ hfinished => hfinished

/-- A session without texts makes the workspace and removes it. -/
theorem finished_session_nil (hdefault : c.isDefaultRoot = false) :
    Finished h c t (created h c t).2 ((session c []).run h t).2 := by
  have hstart : At h c t (· = (created h c t).2) (Run.start c) t := ⟨rfl, Or.inl ⟨rfl, rfl⟩⟩
  have hsession : Plan.Ensures h (session c []) t fun _ t' => ∃ before,
      before = (created h c t).2 ∧ Finished h c t before t' :=
    Plan.ensures_bind (P := fun out t' => At h c t (· = (created h c t).2) out.2 t') hstart
      fun _ _ hat => Plan.ensures_bind (ensures_finish hdefault hat rfl) fun _ _ hf => hf
  obtain ⟨_, rfl, hfinished⟩ := hsession
  exact hfinished

/-- The configuration of a root that the caller chose. -/
theorem root_of_resolve {o : Options} {temporary root : String}
    (hresolve : o.resolve temporary = .ok c) (hchosen : o.workspace = some root) :
    root = c.root ∧ c.isDefaultRoot = false := by
  unfold Options.resolve at hresolve
  rw [hchosen] at hresolve
  dsimp only [bind, Except.bind, pure, Except.pure] at hresolve
  -- Only the version and the executable can be refused; the root is taken as it is.
  repeat' split at hresolve
  all_goals cases hresolve
  all_goals exact ⟨rfl, rfl⟩

end EmbeddedSolidity.Run
