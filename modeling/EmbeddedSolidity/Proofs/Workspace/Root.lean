import EmbeddedSolidity.Proofs.FileSystem.Naming
import EmbeddedSolidity.Proofs.Workspace.Create

/-!
# Workspaces at an ordinary name

If the root is an ordinary name in a directory, and not reached by way of itself, then clearing it and
building a workspace do to its place what they are meant to do, and nothing else.

* `Workspace.removeExisting_directory`, `Workspace.removePrevious_directory` : clearing the root;
* `Workspace.build_free` : building where nothing is;
* `Workspace.create_free`, `Workspace.create_directory` : making a workspace;
* `Workspace.destroy_free`, `Workspace.destroy_directory` : removing it.
-/

namespace EmbeddedSolidity.Workspace

open FileSystem FileSystem.FileTree

variable {h : Host} {w : Workspace} {c : Config} {t t' : FileTree} {m : Nat} {d p q : Place}
  {name solc : String}

/-! ## Clearing the root -/

theorem run_attempt {α : Type} {path : String} {plan : Plan (Except Fault α)} {r : Except Fault α}
    (hrun : plan.run h t = (r, t')) : (attempt path plan).run h t = (fault path r, t') := by
  unfold attempt
  rw [Plan.run_bind, hrun]
  rfl

theorem run_makeDirectories {path : String}
    (hmade : t.makeDirectories h.current path = (.ok (), t')) :
    (attempt path (Plan.call (.makeDirectories path))).run h t = (.ok (), t') :=
  run_attempt (show (Plan.call (.makeDirectories path)).run h t = _ from hmade)

theorem removeExisting_free (hroot : Names t h.current w.root m d name)
    (hfree : t.get? (d ++ [name]) = none) : (removeExisting w.root).run h t = (.ok (), t) := by
  unfold removeExisting
  rw [Plan.run_bind, Plan.run_call]
  dsimp only [Host.answer]
  rw [hroot.kind_free hfree]
  rfl

theorem run_removeExisting_directory (hkind : t.kind h.current w.root = .ok .directory)
    (hremove : t.removeTree h.current w.root = (.ok (), t')) :
    (removeExisting w.root).run h t = (.ok (), t') := by
  have hcall : (Plan.call (.removeTree w.root)).run h t = (.ok (), t') := hremove
  unfold removeExisting
  rw [Plan.run_bind, Plan.run_call]
  dsimp only [Host.answer]
  rw [hkind]
  exact run_attempt hcall

/-- A directory at the root is erased with all that is in it. -/
theorem removeExisting_directory (hroot : Denotes t h.current w.root m d name)
    (hthere : t.get? (d ++ [name]) = some .directory) :
    (removeExisting w.root).run h t = (.ok (), t.eraseAll (d ++ [name])) :=
  run_removeExisting_directory (hroot.names.kind_directory hthere)
    (hroot.removeTree_directory hthere)

/-- A file or a link at the root is erased. -/
theorem removeExisting_other {e : Entry} (hroot : Names t h.current w.root m d name)
    (hthere : t.get? (d ++ [name]) = some e) (hother : e ≠ .directory)
    (hslash : endsInSlash w.root = false) :
    (removeExisting w.root).run h t = (.ok (), t.erase (d ++ [name])) := by
  have hcall : (Plan.call (.removeFile w.root)).run h t = (.ok (), t.erase (d ++ [name])) := by
    rw [Plan.run_call, Host.answer, hroot.removeFile_other hthere hother hslash]
    rfl
  unfold removeExisting
  rw [Plan.run_bind, Plan.run_call]
  dsimp only [Host.answer]
  cases e with
  | directory => exact absurd rfl hother
  | file content executable =>
    rcases hroot.kind_file hthere with ⟨hkind, -⟩ | ⟨-, hslash'⟩
    · rw [hkind]
      exact run_attempt hcall
    · rw [hslash] at hslash'
      cases hslash'
  | link target =>
    rw [hroot.kind_link hthere hslash]
    exact run_attempt hcall

theorem list_directory (hroot : Names t h.current w.root m d name)
    (hthere : t.get? (d ++ [name]) = some .directory) :
    t.list h.current w.root = .ok (t.names (d ++ [name])) := by
  unfold list
  rw [hroot.entryAt_directory hthere true]
  rfl

/-- Nothing is removed if nothing is found. -/
theorem removePrevious_missing (hkind : t.kind h.current w.root = .error .notFound) :
    w.removePrevious.run h t = (.ok (), t) := by
  unfold removePrevious
  rw [Plan.run_bind, Plan.run_call]
  dsimp only [Host.answer]
  rw [hkind]
  rfl

theorem removePrevious_free (hroot : Names t h.current w.root m d name)
    (hfree : t.get? (d ++ [name]) = none) : w.removePrevious.run h t = (.ok (), t) :=
  removePrevious_missing (hroot.kind_free hfree)

/-- The result of the test for the manifest, as a truth value. -/
theorem run_hasGeneratedManifest (h : Host) (w : Workspace) (t : FileTree) :
    ∃ known, w.hasGeneratedManifest.run h t = (known, t) ∧ (known = true ↔ w.Generated h t) := by
  obtain ⟨htree, hknown⟩ := ensures_hasGeneratedManifest h w t
  exact ⟨_, Prod.ext rfl htree.symm, hknown⟩

/-- A directory at the root of the caller's choice is erased if it is empty or known. -/
theorem removePrevious_directory (hroot : Denotes t h.current w.root m d name)
    (hthere : t.get? (d ++ [name]) = some .directory) :
    (t.names (d ++ [name]) = [] ∨ w.Generated h t →
      w.removePrevious.run h t = (.ok (), t.eraseAll (d ++ [name]))) ∧
    (¬ (t.names (d ++ [name]) = [] ∨ w.Generated h t) →
      w.removePrevious.run h t = (.error (notWorkspace w.root), t)) := by
  have hclear := removeExisting_directory hroot hthere
  have hrun : w.removePrevious.run h t =
      (if (t.names (d ++ [name])).isEmpty then removeExisting w.root
        else do
          if ← w.hasGeneratedManifest then removeExisting w.root
          else return .error (notWorkspace w.root)).run h t := by
    unfold removePrevious
    rw [Plan.run_bind, Plan.run_call]
    dsimp only [Host.answer]
    rw [hroot.names.kind_directory hthere]
    dsimp only
    rw [Plan.run_bind, Plan.run_call]
    dsimp only [Host.answer]
    rw [list_directory hroot.names hthere]
  obtain ⟨known, hmanifest, hknown⟩ := run_hasGeneratedManifest h w t
  rw [hrun]
  by_cases hempty : t.names (d ++ [name]) = []
  · rw [if_pos (List.isEmpty_iff.2 hempty)]
    exact ⟨fun _ => hclear, fun hnot => absurd (Or.inl hempty) hnot⟩
  · rw [if_neg (by simpa using hempty), Plan.run_bind, hmanifest]
    cases known with
    | true => exact ⟨fun _ => hclear, fun hnot => absurd (Or.inr (hknown.1 rfl)) hnot⟩
    | false =>
      refine ⟨fun hreplaced => ?_, fun _ => rfl⟩
      exact absurd (hknown.2 (hreplaced.resolve_left hempty)) Bool.false_ne_true

/-! ## Building -/

/-- The tree with a new workspace in the directory `p`. -/
def built (p : Place) (solc : String) (t : FileTree) : FileTree :=
  ((t.put p .directory).put (manifestPlace p)
    (.file (Manifest.ofVersion solc).render.toUTF8 false)).put (sourcePlace p) .directory

/-- What is at a path that is joined from the root and a name. -/
theorem resolve_join {file : String} (hleads : Leads t h.current w.root m p) (hfile : Named file)
    (hfault : pathFault? (Path.join w.root file) = none) (follow : Bool) :
    t.resolve h.current follow (Path.join w.root file) = t.walk follow m p [file] ∧
      t.resolveName h.current (Path.join w.root file) = t.walk false m p [file] := by
  have hempty : w.root ≠ "" := (pathFault?_eq_none_iff.1 hleads.fault).2.1
  have hsimple := List.forall_mem_singleton.2 hfile.simple
  rw [← List.foldl_nil (f := Path.join) (b := Path.join w.root file), ← List.foldl_cons] at hfault ⊢
  exact ⟨resolve_of_leads hempty hsimple (List.cons_ne_nil _ _) hfault hleads,
    resolveName_of_leads hempty hsimple (List.cons_ne_nil _ _) hfault hleads⟩

/-- The file of the manifest tells whether a directory is known as a workspace. -/
theorem generated_iff_known {content : ByteArray} {executable : Bool}
    (hleads : Leads t h.current w.root m p) (hmanifest : pathFault? w.manifestPath = none)
    (hfile : t.get? (manifestPlace p) = some (.file content executable)) :
    w.Generated h t ↔ Manifest.Known content := by
  have hentry : t.entryAt h.current true w.manifestPath =
      .ok (manifestPlace p, .file content executable) :=
    entryAt_of_resolve ((resolve_join hleads named_manifest hmanifest true).1.trans
      (walk_file named_manifest.plain hfile))
  constructor
  · rintro ⟨text, htext, hgenerated⟩
    obtain ⟨q, content', executable', hentry', hdecoded⟩ := entryAt_of_textAt htext
    rw [hentry] at hentry'
    cases hentry'
    exact ⟨text, hdecoded, hgenerated⟩
  · rintro ⟨text, hdecoded, hgenerated⟩
    exact ⟨text, textAt_of_entryAt hentry hdecoded, hgenerated⟩

/-- A new workspace differs from what was there at the root only. -/
theorem sameApart_built (p : Place) (solc : String) (t : FileTree) :
    SameApart p t (built p solc t) :=
  (sameApart_put (List.prefix_refl p) _).trans <|
    (sameApart_put (below_manifestPlace p).1 _).trans (sameApart_put (below_sourcePlace p).1 _)

theorem get?_built_root (t : FileTree) (hp : p ≠ []) :
    (built p solc t).get? p = some .directory := by
  unfold built
  rw [get?_put_of_ne _ _ (below_sourcePlace p).2.symm,
    get?_put_of_ne _ _ (below_manifestPlace p).2.symm, get?_put_self t _ hp]

theorem get?_built_manifest (p : Place) (t : FileTree) :
    (built p solc t).get? (manifestPlace p) =
      some (.file (Manifest.ofVersion solc).render.toUTF8 false) := by
  unfold built
  rw [get?_put_of_ne _ _ (manifestPlace_ne_sourcePlace p),
    get?_put_self _ _ (below_ne_nil (below_manifestPlace p))]

theorem get?_built_sources (p : Place) (t : FileTree) :
    (built p solc t).get? (sourcePlace p) = some .directory :=
  get?_put_self _ _ (below_ne_nil (below_sourcePlace p))

theorem get?_built_of_ne (t : FileTree) (hroot : q ≠ p) (hmanifest : q ≠ manifestPlace p)
    (hsources : q ≠ sourcePlace p) : (built p solc t).get? q = t.get? q := by
  unfold built
  rw [get?_put_of_ne _ _ hsources, get?_put_of_ne _ _ hmanifest, get?_put_of_ne _ _ hroot]

/-- A new workspace in a directory keeps the tree well-formed. -/
theorem wellFormed_built (hwf : t.WellFormed) (hp : p ≠ [])
    (hparent : t.get? p.dropLast = some .directory) (hfree : t.get? p = none) :
    (built p solc t).WellFormed := by
  have hroot := hwf.put (e := .directory) hp hparent (by rw [hfree]; nofun)
  have hthere := get?_put_self t .directory hp
  have hbelow : ∀ q, Below p q → (t.put p .directory).get? q = none := fun q hq => by
    rw [get?_put_of_ne t _ hq.2]
    exact (hwf.cut hfree).free q hq.1
  have hmanifest := hroot.put (p := manifestPlace p)
    (e := .file (Manifest.ofVersion solc).render.toUTF8 false)
    (below_ne_nil (below_manifestPlace p)) (by unfold manifestPlace; rwa [List.dropLast_concat])
    (by rw [hbelow _ (below_manifestPlace p)]; nofun)
  refine hmanifest.put (below_ne_nil (below_sourcePlace p)) ?_ ?_
  · unfold sourcePlace
    rw [List.dropLast_concat, get?_put_of_ne _ _ (below_manifestPlace p).2.symm, hthere]
  · rw [get?_put_of_ne _ _ (manifestPlace_ne_sourcePlace p).symm, hbelow _ (below_sourcePlace p)]
    nofun

/-- A file is written as the manifest into a directory that does not have one. -/
theorem write_manifest (hleads : Leads t h.current w.root m p)
    (hthere : t.get? p = some .directory) (hfree : t.get? (manifestPlace p) = none)
    (hmanifest : pathFault? w.manifestPath = none) (content : ByteArray) :
    t.write h.current w.manifestPath content =
      .ok (t.put (manifestPlace p) (.file content false)) :=
  write_new (Path.endsInSlash_join named_manifest.simple)
    ((resolve_join hleads named_manifest hmanifest true).1.trans
      (walk_free named_manifest.plain hthere hfree))

theorem run_writeManifest (hleads : Leads t h.current w.root m p)
    (hthere : t.get? p = some .directory) (hfree : t.get? (manifestPlace p) = none)
    (hmanifest : pathFault? w.manifestPath = none) (text : String) :
    (attempt w.manifestPath (Plan.writeText w.manifestPath text)).run h t =
      (.ok (), t.put (manifestPlace p) (.file text.toUTF8 false)) := by
  have hrun : (Plan.writeText w.manifestPath text).run h t =
      (.ok (), t.put (manifestPlace p) (.file text.toUTF8 false)) := by
    rw [Plan.run_writeText, write_manifest hleads hthere hfree hmanifest]
    rfl
  exact run_attempt hrun

/-- The directory of the sources is made in the root. -/
theorem makeDirectories_sources (hleads : Leads t h.current w.root m p)
    (hthere : t.get? p = some .directory) (hfree : t.get? (sourcePlace p) = none)
    (hmanifest : pathFault? w.manifestPath = none) :
    t.makeDirectories h.current w.sourceDirectory = (.ok (), t.put (sourcePlace p) .directory) := by
  have hempty : w.root ≠ "" := (pathFault?_eq_none_iff.1 hleads.fault).2.1
  exact makeDirectories_of_free (Path.parts_join named_sources.simple) named_sources.plain
    ((resolve_join hleads named_sources (pathFault?_sourceDirectory hempty hmanifest) true).2.trans
      (walk_free named_sources.plain hthere hfree))

/-- Where nothing is, a workspace is built. -/
theorem build_free (hroot : Names t h.current w.root m d name)
    (hfree : ∀ q, d ++ [name] <+: q → t.get? q = none)
    (hmanifest : pathFault? w.manifestPath = none) :
    (w.build solc).run h t = (.ok w, built (d ++ [name]) solc t) := by
  have hmade := sameApart_put (List.prefix_refl (d ++ [name])) (t := t) .directory
  have hthere := get?_put_self t .directory (concat_ne_nil d name)
  -- The root leads to its place as soon as this is a directory, whatever is made there then.
  have hleads : ∀ t', SameApart (d ++ [name]) t t' → t'.get? (d ++ [name]) = some .directory →
      Leads t' h.current w.root m (d ++ [name]) := fun t' hsame =>
    (hroot.mono (Cut.keepsWays ⟨.refl _ t, hfree⟩ hsame)).leads
  have hfirst := run_makeDirectories (hroot.makeDirectories_free (hfree _ (List.prefix_refl _)))
  have hsecond := run_writeManifest (hleads _ hmade hthere) hthere (by
    rw [get?_put_of_ne t _ (below_manifestPlace _).2]
    exact hfree _ (below_manifestPlace _).1) hmanifest (Manifest.ofVersion solc).render
  have hthere' : ((t.put (d ++ [name]) .directory).put (manifestPlace (d ++ [name]))
      (.file (Manifest.ofVersion solc).render.toUTF8 false)).get? (d ++ [name]) =
        some .directory := by
    rw [get?_put_of_ne _ _ (below_manifestPlace _).2.symm, hthere]
  have hsources := makeDirectories_sources
    (hleads _ (hmade.trans (sameApart_put (below_manifestPlace _).1 _)) hthere') hthere' (by
      rw [get?_put_of_ne _ _ (manifestPlace_ne_sourcePlace _).symm,
        get?_put_of_ne t _ (below_sourcePlace _).2]
      exact hfree _ (below_sourcePlace _).1) hmanifest
  have hthird := run_makeDirectories hsources
  unfold build
  rw [Plan.run_andThen_ok hfirst, Plan.run_andThen_ok hsecond, Plan.run_andThen_ok hthird]
  rfl

/-! ## Making and removing -/

/-- Clearing the root as its configuration has it. -/
abbrev clear (c : Config) : Plan (Except Error Unit) :=
  if c.isDefaultRoot then removeExisting c.root else removePrevious ⟨c.root⟩

/-- Once the root is cleared, a workspace is made there. -/
theorem create_of_clear (hclear : (clear c).run h t = (.ok (), t'))
    (hroot : Names t' h.current c.root m d name)
    (hfree : ∀ q, d ++ [name] <+: q → t'.get? q = none)
    (hmanifest : pathFault? (manifestPath ⟨c.root⟩) = none) :
    (create c).run h t = (.ok ⟨c.root⟩, built (d ++ [name]) c.solc t') := by
  have hbuild : (build ⟨c.root⟩ c.solc).run h t' = (.ok ⟨c.root⟩, built (d ++ [name]) c.solc t') :=
    build_free hroot hfree hmanifest
  unfold create
  rw [← hbuild]
  exact Plan.run_andThen_ok hclear

/-- A workspace is made where nothing is. -/
theorem create_free (hwf : t.WellFormed) (hroot : Names t h.current c.root m d name)
    (hfree : t.get? (d ++ [name]) = none) (hmanifest : pathFault? (manifestPath ⟨c.root⟩) = none) :
    (create c).run h t = (.ok ⟨c.root⟩, built (d ++ [name]) c.solc t) := by
  refine create_of_clear ?_ hroot (hwf.cut hfree).free hmanifest
  unfold clear
  split
  · exact removeExisting_free (w := ⟨c.root⟩) hroot hfree
  · exact removePrevious_free hroot hfree

/-- A workspace is made in the place of a directory that may be replaced. -/
theorem create_directory (hroot : Denotes t h.current c.root m d name)
    (hthere : t.get? (d ++ [name]) = some .directory)
    (hreplaced : c.isDefaultRoot = false →
      t.names (d ++ [name]) = [] ∨ Generated h ⟨c.root⟩ t)
    (hmanifest : pathFault? (manifestPath ⟨c.root⟩) = none) :
    (create c).run h t =
      (.ok ⟨c.root⟩, built (d ++ [name]) c.solc (t.eraseAll (d ++ [name]))) := by
  refine create_of_clear ?_ hroot
    (fun q hq => get?_eraseAll_eq_none t (concat_ne_nil d name) hq) hmanifest
  unfold clear
  split
  · exact removeExisting_directory (w := ⟨c.root⟩) hroot hthere
  · next hchosen =>
    exact (removePrevious_directory hroot hthere).1 (hreplaced (Bool.eq_false_iff.2 hchosen))

theorem destroy_missing (hremoved : t.removeTree h.current w.root = (.error .notFound, t)) :
    w.destroy.run h t = (.ok (), t) := by
  have hcall : (Plan.call (.removeTree w.root)).run h t = (.error .notFound, t) := hremoved
  unfold destroy
  rw [Plan.run_bind, hcall]
  rfl

theorem destroy_free (hroot : Names t h.current w.root m d name)
    (hfree : t.get? (d ++ [name]) = none) : w.destroy.run h t = (.ok (), t) :=
  destroy_missing (hroot.removeTree_free hfree)

/-- A workspace is removed with all that is in it. -/
theorem destroy_directory (hroot : Denotes t h.current w.root m d name)
    (hthere : t.get? (d ++ [name]) = some .directory) :
    w.destroy.run h t = (.ok (), t.eraseAll (d ++ [name])) := by
  have hcall : (Plan.call (.removeTree w.root)).run h t = (.ok (), t.eraseAll (d ++ [name])) :=
    hroot.removeTree_directory hthere
  unfold destroy
  rw [Plan.run_bind, hcall]
  rfl

end EmbeddedSolidity.Workspace
