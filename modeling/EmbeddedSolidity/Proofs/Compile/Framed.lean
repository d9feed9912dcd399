import EmbeddedSolidity.Proofs.Compile.Account
import EmbeddedSolidity.Proofs.Workspace.Framed

/-!
# Compiling beside other work

A compilation that overlooks a region (its sources, its compiler and the manifest of an earlier
workspace are found and read without a look into it) cannot tell what is in the region, if its
compilers work in the workspace only.

* `Collect.Overlooks` : sources that are found and read without a look into a region;
* `Compile.along_report` : every call of a compilation.
-/

namespace EmbeddedSolidity

open FileSystem FileSystem.FileTree Workspace

variable {h : Host} {c : Config} {t : FileTree} {m : Nat} {d p : Place} {name : String}
  {Y Z : Set Place} {paths : List String} {F : Frame} {Safe : Call → FileTree → Prop}

/-- Whatever is in the workspace at the place `p`, the sources are found and read without a look into
the region. -/
structure Collect.Overlooks (h : Host) (Y : Set Place) (p : Place) (paths : List String)
    (t : FileTree) : Prop where
  collecting : ∀ x ∈ (collect paths).log h t, x.1.Avoids h Y t
  reading : ∀ file ∈ ((collect paths).run h t).1.files, ∀ u, Apart {q | p <+: q} t u →
    (Call.read file).Avoids h Y u

namespace Compile

/-- Collecting looks at the tree and changes nothing. -/
theorem along_collect (hsafe : ∀ x ∈ (collect paths).log h t, x.1.Looks → Safe x.1 t) :
    Plan.Along h Safe (collect paths) t fun found t' =>
      found = ((collect paths).run h t).1 ∧ t' = t := by
  have hlooks := (always_collect paths _ _ (Plan.ends_log h (collect paths) t)).1
  refine (Plan.Along.of_looks (always_collect paths) fun x hx => hsafe x hx (hlooks x hx)).mono ?_
  rintro found t' ⟨-, ht', hfound⟩
  exact ⟨hfound, ht'⟩

/-- A file is scanned with one look. -/
theorem along_ofFile {file : String} (hread : Safe (.read file) t) :
    Plan.Along h Safe (Scan.ofFile file) t fun _ t' => t = t' := by
  have htext : Plan.Along h Safe (Plan.readText file) t fun _ t' => t = t' := by
    refine Plan.Along.bind (P := fun _ t' => t = t') (.call hread rfl) ?_
    rintro (f | bytes) t' ht'
    · exact ht'
    · dsimp only
      split <;> exact ht'
  refine htext.bind ?_
  rintro (f | text) t' ht' <;> exact ht'

/-- A compilation that overlooks the other region of a frame that has its workspace. Only what is at
the root changes, and if a workspace could be made there, nothing is left of it. -/
theorem along_report (hF : Houses h c.root m d name F)
    (hsafe : ∀ call t, ¬ call.Starts → F.Allows h call t → Safe call t)
    (hexecute : ∀ t program, Settled h c.root m d name t →
      Safe (.execute program c.root c.timeout) t)
    (hwf : t.WellFormed) (hroot : Denotes t h.current c.root m d name)
    (hslash : SlashOfDirectory t c.root (d ++ [name]))
    (hencloses : h.Encloses c.root (d ++ [name]))
    (hsources : Collect.Overlooks h F.other (d ++ [name]) paths t)
    (hlocate : ∀ u, Apart {q | d ++ [name] <+: q} t u →
      (Call.locate c.executable).Avoids h F.other u)
    (hmanifest : c.isDefaultRoot = false → F.Allows h (.read (manifestPath ⟨c.root⟩)) t) :
    Plan.Along h Safe (report c paths) t fun _ t' =>
      (Apart {q | d ++ [name] <+: q} t t' ∧ NoNewLinks t t') ∧
        ((∃ w, ((create c).run h t).1 = .ok w) → ∀ q, d ++ [name] <+: q → t'.get? q = none) := by
  have hlook : ∀ {call : Call} {t : FileTree}, call.Looks → call.Avoids h F.other t → Safe call t :=
    fun hlooks havoids => hsafe _ _ hlooks.not_starts (Frame.allows_look hlooks havoids)
  -- What is known of a workspace : what became of the root, and that it is the one made in `t`.
  have hsteps : Steps (Plan.Along.logic h Safe) c (· = t)
      (fun made u => MadeAt h c.root m d name t made u ∧ ((create c).run h t).1 = made)
      ((collect paths).run h t).1.files := by
    refine ⟨?scan, ?rescan, ?create, ?compile⟩
    case scan =>
      rintro file hfile _ rfl
      exact (along_ofFile (hlook trivial (hsources.reading file hfile _ (.refl _ _)))).mono
        fun _ _ ht' => ht'.symm
    case rescan =>
      rintro file hfile made u hmade
      refine (along_ofFile (hlook trivial (hsources.reading file hfile u hmade.1.apart))).mono ?_
      rintro _ _ rfl
      exact hmade
    case create =>
      rintro _ rfl
      exact (hF.along_create hsafe hwf hroot hslash hmanifest).with_run.mono
        fun _ _ hmade => ⟨hmade.1, congrArg Prod.fst hmade.2⟩
    case compile =>
      rintro w snippet u ⟨hmade, hcreated⟩
      obtain ⟨rfl, hs⟩ := hmade.settled w rfl
      refine (along_compileIn hencloses
        (fun u call hs hworks => hsafe call u hworks.not_starts (hF.allows_works hs hworks))
        (fun u hu => hlook trivial (hlocate u hu)) hexecute snippet hs hmade.apart).mono ?_
      rintro _ u' ⟨hs', hapart⟩
      exact ⟨⟨hapart, fun _ hw => ⟨(Except.ok.inj hw).symm, hs'⟩, nofun⟩, hcreated⟩
  have hcollect := along_collect (h := h) (t := t) fun x hx hlooks =>
    hlook hlooks (hsources.collecting x hx)
  rw [report_eq]
  refine Plan.Along.bind (hsteps.progress hcollect) fun progress u hkept => ?_
  refine Plan.Along.bind (hsteps.finish (Q := fun _ t' =>
    (Apart {q | d ++ [name] <+: q} t t' ∧ NoNewLinks t t') ∧
      ((∃ w, ((create c).run h t).1 = .ok w) → ∀ q, d ++ [name] <+: q → t'.get? q = none)) ?_ ?_
    hkept) ?_
  · rintro w u ⟨hmade, -⟩
    obtain ⟨rfl, hs⟩ := hmade.settled w rfl
    refine (hF.along_remove hsafe hs).mono ?_
    rintro _ _ rfl
    exact ⟨⟨hmade.apart.trans (apart_eraseAll u fun _ => id),
      hmade.noNewLinks.trans (noNewLinks_eraseAll u (concat_ne_nil d name))⟩, fun _ q hq =>
      get?_eraseAll_eq_none u (concat_ne_nil d name) hq⟩
  · rintro e u ⟨hmade, hcreated⟩
    refine (hF.along_abandon hsafe hroot hslash hmanifest hmade).mono fun _ _ hu => ⟨hu, ?_⟩
    rintro ⟨w, hw⟩
    rw [hw] at hcreated
    cases hcreated
  · rintro (e | ok) u hu <;> exact hu

end Compile

end EmbeddedSolidity
