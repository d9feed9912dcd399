import EmbeddedSolidity.Proofs.Workspace.Root

/-!
# Fresh workspaces

A fresh workspace has a directory for sources with nothing in it. A workspace that is made where
nothing is, by a name in the current directory, is one.

* `Workspace.fresh_create` : making a workspace at a free name.
-/

namespace EmbeddedSolidity.Workspace

open FileSystem FileSystem.FileTree

variable {h : Host} {t : FileTree}

/-- A workspace in the directory `p` without sources. -/
structure Fresh (h : Host) (w : Workspace) (t : FileTree) (m : Nat) (p : Place) : Prop where
  leads : Leads t h.current w.root m p
  wellFormed : t.WellFormed
  sources : t.get? (sourcePlace p) = some .directory
  empty : ∀ q, Below (sourcePlace p) q → t.get? q = none

/-! ## A workspace at a free name -/

section FreeName

variable {name : String} {current : Place} (hname : Named name)

include hname in
theorem pathFault?_name : pathFault? name = none := by
  refine pathFault?_eq_none_iff.2 ⟨hname.noNul, hname.simple.1, ?_⟩
  have hshort := hname.short
  unfold maxPath
  omega

include hname in
theorem pathFault?_join_name {file : String} (hfile : Named file) :
    pathFault? (Path.join name file) = none := by
  have hroom : name.utf8ByteSize + 49 * [file].length < maxPath := by
    have hshort := hname.short
    rw [List.length_singleton]
    unfold maxPath
    omega
  have hfault := pathFault?_foldl_named (List.forall_mem_singleton.2 hfile) (pathFault?_name hname)
    hroom
  rwa [List.foldl_cons, List.foldl_nil] at hfault

include hname in
theorem startOf_name : startOf current name = current := by
  unfold startOf
  rw [Path.isAbsolute_simple hname.simple, if_neg Bool.false_ne_true]

include hname in
/-- A name stands for a place in the current directory. -/
theorem names_name (hcurrent : t.get? current = some .directory) :
    Names t current name maxLinks current name := by
  refine ⟨pathFault?_name hname, hname.plain, hcurrent, [], Path.parts_simple hname.simple, ?_⟩
  rw [startOf_name hname]
  exact .nil _ _

include hname in
/-- A name leads to the directory of that name. -/
theorem leads_name (hthere : t.get? (current ++ [name]) = some .directory) :
    Leads t current name maxLinks (current ++ [name]) := by
  refine ⟨pathFault?_name hname, ?_⟩
  rw [startOf_name hname, Path.parts_simple hname.simple]
  exact .down hname.plain hthere (.nil _ _)

include hname in
/-- A workspace that is made at a free name in the current directory is fresh. -/
theorem fresh_create {c : Config} (hroot : c.root = name) (hwf : t.WellFormed)
    (hcurrent : t.get? h.current = some .directory)
    (hfree : t.get? (h.current ++ [name]) = none) :
    Plan.Ensures h (create c) t fun r t' =>
      r = .ok ⟨name⟩ ∧ Fresh h ⟨name⟩ t' maxLinks (h.current ++ [name]) := by
  have hrun : (create c).run h t = (.ok ⟨name⟩, built (h.current ++ [name]) c.solc t) := by
    subst hroot
    exact create_free hwf (names_name hname hcurrent) hfree
      (pathFault?_join_name hname named_manifest)
  unfold Plan.Ensures
  rw [hrun]
  have hne := concat_ne_nil h.current name
  refine ⟨rfl, leads_name hname (get?_built_root t hne),
    wellFormed_built hwf hne (by rwa [List.dropLast_concat]) hfree, get?_built_sources _ t,
    fun q hq => ?_⟩
  have hbelow := (below_sourcePlace _).trans hq
  have hmanifest : q ≠ manifestPlace (h.current ++ [name]) := fun heq => by
    -- The manifest stands beside the directory of the sources, not in it.
    have hin := hq.1
    rw [heq] at hin
    refine manifestPlace_ne_sourcePlace _ (List.IsPrefix.eq_of_length hin ?_).symm
    simp [manifestPlace, sourcePlace]
  rw [get?_built_of_ne t hbelow.2 hmanifest hq.2]
  exact (hwf.cut hfree).free q hbelow.1

end FreeName

end EmbeddedSolidity.Workspace
