import EmbeddedSolidity.Proofs.Run.Session
import EmbeddedSolidity.Proofs.Workspace.Failure
import EmbeddedSolidity.Proofs.Workspace.Fresh
import EmbeddedSolidity.Proofs.Workspace.Refusal
import EmbeddedSolidity.Proofs.Workspace.Retry

/-!
# Runs that are tried again

A call fails while a run makes its workspace or ends. The next run makes its workspace in the same
place, unless the root has been spoiled : then it is refused, and stays as it is.

* `Run.left_of_falters_finish` : a call fails at the end of a run;
* `Run.retry_of_falters` : what a second attempt does.
-/

namespace EmbeddedSolidity.Run

open FileSystem FileSystem.FileTree Workspace

variable {h : Host} {c : Config} {t t' : FileTree} {p : Place} {failed : Call}

/-- The end of a run at a root that a failing call left. -/
theorem left_of_release {made : Except Error Workspace} (hchosen : c.isDefaultRoot = false)
    (hmade : ∀ w, made = .ok w → w = ⟨c.root⟩) (hl : Left h c p failed t) :
    Left h c p failed ((release c made).run h t).2 := by
  cases made with
  | ok w =>
    rw [hmade w rfl]
    exact left_of_destroy hl
  | error e =>
    unfold release
    rw [hchosen, if_neg Bool.false_ne_true, Plan.run_bind]
    obtain ⟨known, hrun, -⟩ := run_hasGeneratedManifest h ⟨c.root⟩ t
    rw [hrun]
    cases known with
    | true => exact left_of_destroy hl
    | false => exact hl

/-- A call of the end of a run fails. -/
theorem left_of_falters_release {made : Except Error Workspace} {r : Except Error Unit}
    (hchosen : c.isDefaultRoot = false) (hmade : ∀ w, made = .ok w → w = ⟨c.root⟩)
    (hp : Standing h c p t) (hrenewable : Renewable h c p t)
    (hf : Plan.Falters h (release c made) t failed r t') : Left h c p failed t' := by
  cases made with
  | ok w =>
    rw [hmade w rfl] at hf
    exact left_of_falters_destroy hp hrenewable hf
  | error e =>
    unfold release at hf
    rw [hchosen, if_neg Bool.false_ne_true] at hf
    rcases hf.of_bind with ⟨known, t₁, hread, hrun⟩ | hf
    · obtain ⟨rfl, rfl⟩ := falters_hasGeneratedManifest hread
      obtain ⟨-, rfl⟩ := Prod.mk.inj hrun
      exact ⟨hp, Or.inl hrenewable⟩
    · obtain ⟨known, hrun, -⟩ := run_hasGeneratedManifest h ⟨c.root⟩ t
      rw [hrun] at hf
      cases known with
      | true => exact left_of_falters_destroy hp hrenewable hf
      | false => exact absurd hf Plan.not_falters_pure

/-- A call fails at the end of a run, or in the making of the workspace that the end waits for. -/
theorem left_of_falters_finish {made : Option (Except Error Workspace)} {r : Except Error Unit}
    (hchosen : c.isDefaultRoot = false) (hversion : isVersion c.solc = true)
    (hmanifest : pathFault? (manifestPath ⟨c.root⟩) = none)
    (hmade : ∀ w, made = some (.ok w) → w = ⟨c.root⟩) (hp : Standing h c p t)
    (hrenewable : Renewable h c p t)
    (hf : Plan.Falters h (finish ⟨c, made⟩) t failed r t') : Left h c p failed t' := by
  rw [finish_eq] at hf
  cases made with
  | some made =>
    rcases hf.of_bind with ⟨out, t₁, hworkspace, -⟩ | hf
    · exact absurd hworkspace Plan.not_falters_pure
    · exact left_of_falters_release hchosen (fun w hw => hmade w (congrArg some hw)) hp hrenewable hf
  | none =>
    rcases hf.of_bind with ⟨out, t₁, hworkspace, hrun⟩ | hf
    · rcases hworkspace.of_bind with ⟨made, t₂, hcreate, hpure⟩ | hpure
      · obtain ⟨rfl, rfl⟩ := Prod.mk.inj hpure
        obtain ⟨log, hends⟩ := hcreate.exists_ends
        have hl := left_of_falters_create hchosen hversion hmanifest hp hrenewable hcreate
        have hreleased := left_of_release hchosen (always_create c _ _ hends).2.2 hl
        dsimp only at hrun
        rwa [hrun] at hreleased
      · exact absurd hpure Plan.not_falters_pure
    · obtain ⟨t₁, hcreate, hp₁, hrenewable₁⟩ := hrenewable.create hchosen hp hmanifest
      have hworkspace : (workspace ⟨c, none⟩).run h t =
          ((.ok ⟨c.root⟩, ⟨c, some (.ok ⟨c.root⟩)⟩), t₁) := by
        change (create c >>= _).run h t = _
        rw [Plan.run_bind, hcreate]
        rfl
      rw [hworkspace] at hf
      exact left_of_falters_destroy hp₁ hrenewable₁ hf

/-- What makes or removes a workspace. -/
inductive Action where
  | create
  | destroy
  /-- The end of a run, whose workspace has been made, could not be made, or is made only now. -/
  | finish (made : Option (Except Error Unit))

/-- The plan of an action. -/
def Action.plan (c : Config) : Action → Plan (Except Error Unit)
  | .create => do return (← Workspace.create c).map fun _ => ()
  | .destroy => Workspace.destroy ⟨c.root⟩
  | .finish made => Run.finish ⟨c, made.map fun r => r.map fun _ => ⟨c.root⟩⟩

theorem left_of_falters {action : Action} {r : Except Error Unit} (hchosen : c.isDefaultRoot = false)
    (hversion : isVersion c.solc = true) (hmanifest : pathFault? (manifestPath ⟨c.root⟩) = none)
    (hp : Standing h c p t) (hrenewable : Renewable h c p t)
    (hf : Plan.Falters h (action.plan c) t failed r t') : Left h c p failed t' := by
  cases action with
  | create =>
    rcases hf.of_bind with ⟨made, t₁, hcreate, hrun⟩ | hpure
    · obtain ⟨-, rfl⟩ := Prod.mk.inj hrun
      exact left_of_falters_create hchosen hversion hmanifest hp hrenewable hcreate
    · exact absurd hpure Plan.not_falters_pure
  | destroy => exact left_of_falters_destroy hp hrenewable hf
  | finish made =>
    refine left_of_falters_finish hchosen hversion hmanifest (fun w hw => ?_) hp hrenewable hf
    rcases made with _ | e | ⟨⟩ <;> cases hw
    rfl

/-- A call fails while a workspace is made or removed at a root of the caller's choice that may be
replaced. Then the root may be replaced again, and a second attempt makes a workspace; but if a removal
stopped without the manifest, or the manifest has not been written as far as the name of the project,
the root is refused. -/
theorem retry_of_falters {r : Except Error Unit} (hwf : t.WellFormed)
    (hroot : Stands t h.current c.root p) (hchosen : c.isDefaultRoot = false)
    (hversion : isVersion c.solc = true) (hmanifest : pathFault? (manifestPath ⟨c.root⟩) = none)
    (hrenewable : Renewable h c p t) (action : Action)
    (hfalters : Plan.Falters h (action.plan c) t failed r t') :
    (Renewable h c p t' ∧ ∃ t'', (Workspace.create c).run h t' = (.ok ⟨c.root⟩, t'')) ∨
      (Spoiled h c p t' failed ∧
        (Workspace.create c).run h t' = (.error (notWorkspace c.root), t')) := by
  obtain ⟨hp', hrenewable' | hspoiled⟩ :=
    left_of_falters hchosen hversion hmanifest ⟨hwf, hroot⟩ hrenewable hfalters
  · obtain ⟨t'', hcreate, -⟩ := hrenewable'.create hchosen hp' hmanifest
    exact Or.inl ⟨hrenewable', t'', hcreate⟩
  · exact Or.inr ⟨hspoiled, (hspoiled.refused hchosen hversion hmanifest hp').2⟩

/-! ## Calls that fail at a name -/

/-- An earlier workspace with a source. -/
def earlier : FileTree :=
  ⟨[(["w"], .directory), (["w", Manifest.fileName], .file (manifestOf (chosen "w")) false),
    (["w", Manifest.sourceDirectory], .directory),
    (["w", Manifest.sourceDirectory, "old.sol"], .file "contract Old {}".toUTF8 false)]⟩

theorem rooted_earlier : Rooted bare (chosen "w") maxLinks [] "w" earlier := by
  refine ⟨wellFormed_of_entries (by decide +kernel), ?_⟩
  exact names_name (by constructor <;> decide) rfl

theorem wellFormed_empty : (⟨[]⟩ : FileTree).WellFormed :=
  wellFormed_of_entries nofun

theorem rooted_empty : Rooted bare (chosen "w") maxLinks [] "w" ⟨[]⟩ :=
  ⟨wellFormed_empty, names_name (by constructor <;> decide) rfl⟩

theorem renewable_earlier : Renewable bare (chosen "w") ["w"] earlier :=
  have hfile : earlier.get? (manifestPlace ["w"]) = some (.file (manifestOf (chosen "w")) false) := rfl
  renewable_of_known (d := []) (by decide +kernel) rooted_earlier rfl hfile
    (Manifest.known_toUTF8.2 (Manifest.isGenerated_render _))

theorem partly_earlier (q : Place) (hq : Below ["w"] q) (hleaf : earlier.get? q ≠ some .directory) :
    Partly earlier (earlier.eraseAll ["w"]) (earlier.erase q) :=
  partly_erase rooted_earlier.wellFormed (List.cons_ne_nil _ _) hq fun _ hr =>
    rooted_earlier.wellFormed.free_below hleaf hr

/-- A removal that stops when one entry is gone. -/
theorem falters_destroy_earlier {q : Place} (hpartly : Partly earlier (earlier.eraseAll ["w"])
    (earlier.erase q)) :
    Plan.Falters bare (Action.destroy.plan (chosen "w")) earlier (.removeTree "w")
      (.error (.workspace "w" Fault.denied.text)) (earlier.erase q) := by
  have hremoved := rooted_earlier.denotes.removeTree_directory rfl
  exact (Plan.falters_call (.removeTree .denied (by rw [hremoved]; exact hpartly))).bind _

/-- A root in a directory that is missing too. -/
theorem ahead_below : Ahead ⟨[]⟩ bare.current (chosen "a/b").root maxLinks [] ["a", "b"] :=
  ⟨⟨by decide, [], ["a", "b"], by decide, by decide, by decide, .nil _ _⟩, by decide, rfl, by decide⟩

/-- The first of two directories has been made when the making stops. -/
theorem falters_create_below :
    ∃ r, Plan.Falters bare (Action.create.plan (chosen "a/b")) ⟨[]⟩ (.makeDirectories "a/b") r
      ((⟨[]⟩ : FileTree).put ["a"] .directory) := by
  have hpartly : Partly ⟨[]⟩ ((⟨[]⟩ : FileTree).made [] ["a", "b"])
      ((⟨[]⟩ : FileTree).put ["a"] .directory) := by
    refine ⟨fun q => ?_, wellFormed_empty.put_free (d := []) rfl rfl⟩
    by_cases hq : q = ["a"]
    · rw [hq]
      exact Or.inr rfl
    · exact Or.inl (get?_put_of_ne _ _ hq)
  have hmade := ahead_below.makeDirectories wellFormed_empty (List.cons_ne_nil _ _)
  have hfails := Plan.falters_call (.makeDirectories .denied (by rw [hmade]; exact hpartly))
  have hcleared := clear_missing rfl (ahead_below.kind (List.cons_ne_nil _ _))
  exact ⟨_, (Plan.Falters.andThen_behind hcleared
    (Plan.Falters.andThen_error (hfails.bind _) _)).bind _⟩

/-- The source is gone when a removal stops, and one of two directories is there when the making of a
workspace stops; both workspaces are made again. -/
theorem retried_half_removed_half_made :
    (Renewable bare (chosen "w") ["w"] (earlier.erase ["w", Manifest.sourceDirectory, "old.sol"]) ∧
      ∃ t', (Workspace.create (chosen "w")).run bare
        (earlier.erase ["w", Manifest.sourceDirectory, "old.sol"]) = (.ok ⟨"w"⟩, t')) ∧
    (Renewable bare (chosen "a/b") ["a", "b"] ((⟨[]⟩ : FileTree).put ["a"] .directory) ∧
      ∃ t', (Workspace.create (chosen "a/b")).run bare ((⟨[]⟩ : FileTree).put ["a"] .directory) =
        (.ok ⟨"a/b"⟩, t')) := by
  constructor
  · have hfalters := falters_destroy_earlier
      (partly_earlier ["w", Manifest.sourceDirectory, "old.sol"] (by decide) (by decide))
    obtain ⟨hwf, hroot⟩ := rooted_earlier.standing
    rcases retry_of_falters hwf hroot rfl (by decide) (by decide +kernel) renewable_earlier .destroy
      hfalters with hretried | ⟨hspoiled, -⟩
    · exact hretried
    · cases hspoiled with
      | lost _ _ hgone => exact absurd hgone (by decide +kernel)
  · obtain ⟨r, hfalters⟩ := falters_create_below
    have hroot := Stands.ahead (List.cons_ne_nil _ _) ahead_below
    rcases retry_of_falters wellFormed_empty hroot rfl (by decide) (by decide +kernel)
      (Or.inl rfl) .create hfalters with hretried | ⟨hspoiled, -⟩
    · exact hretried
    · cases hspoiled

/-- The first line of a manifest, written where nothing was. -/
def torn : FileTree :=
  ((⟨[]⟩ : FileTree).put ["w"] .directory).put ["w", Manifest.fileName]
    (.file Manifest.header.toUTF8 false)

theorem header_manifestOf (c : Config) : ∃ rest, manifestOf c = Manifest.header.toUTF8 ++ rest := by
  obtain ⟨rest, hrest⟩ := Manifest.render_ofVersion c.solc
  refine ⟨(Manifest.assignment "name" Manifest.projectName ++ ("\n" ++ rest)).toByteArray, ?_⟩
  rw [manifestOf, hrest, Manifest.mark, String.append_assoc]
  exact String.toByteArray_append

/-- Neither after the manifest was written in part nor after it alone was removed is a workspace made
again. -/
theorem root_not_retried :
    (Renewable bare (chosen "w") ["w"] ⟨[]⟩ ∧
      (∃ r, Plan.Falters bare (Action.create.plan (chosen "w")) ⟨[]⟩
        (.write (manifestPath ⟨"w"⟩) (manifestOf (chosen "w"))) r torn) ∧
      ¬ Renewable bare (chosen "w") ["w"] torn ∧
      (Workspace.create (chosen "w")).run bare torn = (.error (notWorkspace "w"), torn)) ∧
    (Renewable bare (chosen "w") ["w"] earlier ∧
      (∃ r, Plan.Falters bare (Action.destroy.plan (chosen "w")) earlier (.removeTree "w") r
        (earlier.erase ["w", Manifest.fileName])) ∧
      ¬ Renewable bare (chosen "w") ["w"] (earlier.erase ["w", Manifest.fileName]) ∧
      (Workspace.create (chosen "w")).run bare (earlier.erase ["w", Manifest.fileName]) =
        (.error (notWorkspace "w"), earlier.erase ["w", Manifest.fileName])) := by
  have hversion : isVersion (chosen "w").solc = true := by decide
  have hmanifest : pathFault? (manifestPath ⟨(chosen "w").root⟩) = none := by decide +kernel
  have hfree : (⟨[]⟩ : FileTree).get? ([] ++ ["w"]) = none := rfl
  obtain ⟨rest, hparts⟩ := header_manifestOf (chosen "w")
  obtain ⟨hmade, hthere, hbelow⟩ := rooted_empty.put_root hfree
  obtain ⟨htorn, hthere'⟩ := hmade.put_manifest hthere (hbelow _ (below_manifestPlace _))
    Manifest.header.toUTF8
  have hcut : Spoiled bare (chosen "w") ([] ++ ["w"]) torn _ :=
    .cut hthere' hparts (by decide) rfl
  have hlost : Spoiled bare (chosen "w") ([] ++ ["w"]) (earlier.erase ["w", Manifest.fileName]) _ :=
    .lost rfl (by decide) (by decide +kernel)
  have hpartly := partly_earlier ["w", Manifest.fileName] (by decide) (by decide)
  exact ⟨⟨Or.inl rfl,
      ⟨_, (falters_create_cut .denied rfl rooted_empty hmanifest hfree hparts).bind _⟩,
      hcut.refused rfl hversion hmanifest htorn.standing⟩,
    renewable_earlier, ⟨_, falters_destroy_earlier hpartly⟩,
      hlost.refused rfl hversion hmanifest (rooted_earlier.partly hpartly).standing⟩

end EmbeddedSolidity.Run
