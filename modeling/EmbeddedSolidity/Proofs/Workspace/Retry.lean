import EmbeddedSolidity.Proofs.FileSystem.Missing
import EmbeddedSolidity.Proofs.Plan.Fault
import EmbeddedSolidity.Proofs.Workspace.Root

/-!
# Making and removing workspaces again

While a workspace is made or removed, one call may fail. What is left at the root is then nothing, an
empty directory, or a directory that is known as a workspace, so that the workspace can be made again,
but for two cases : a removal may stop when the manifest is gone and something else is not, and the
manifest may be written in a part that is too short to be known. Then the root is refused.

* `Workspace.Renewable`, `Workspace.Spoiled` : what may be at the root;
* `Workspace.Renewable.create`, `Workspace.Spoiled.refused` : a second attempt;
* `Workspace.left_of_removal` : a removal that stops half way;
* `Workspace.left_of_falters_build`, `Workspace.left_of_falters_create`,
  `Workspace.left_of_falters_destroy` : where a call fails.
-/

namespace EmbeddedSolidity.Workspace

open FileSystem FileSystem.FileTree

variable {h : Host} {w : Workspace} {c : Config} {t t' : FileTree} {m : Nat} {d p : Place}
  {name : String} {names : List String} {failed : Call}

/-! ## What is at the root -/

/-- The root stands for the place in a well-formed tree. -/
structure Standing (h : Host) (c : Config) (p : Place) (t : FileTree) : Prop where
  wellFormed : t.WellFormed
  stands : Stands t h.current c.root p

/-- The root denotes its place in a well-formed tree. -/
structure Rooted (h : Host) (c : Config) (m : Nat) (d : Place) (name : String) (t : FileTree) :
    Prop where
  wellFormed : t.WellFormed
  denotes : Denotes t h.current c.root m d name

/-- At the place of the root is nothing, or a directory that is empty or known as a workspace. -/
def Renewable (h : Host) (c : Config) (p : Place) (t : FileTree) : Prop :=
  t.get? p = none ∨
    t.get? p = some .directory ∧ (t.names p = [] ∨ Generated h ⟨c.root⟩ t)

/-- The text of the manifest. -/
abbrev manifestOf (c : Config) : ByteArray :=
  (Manifest.ofVersion c.solc).render.toUTF8

/-- What a call left that failed, if the root is not to be replaced any more. -/
inductive Spoiled (h : Host) (c : Config) (p : Place) (t : FileTree) : Call → Prop where
  /-- The manifest is gone, and something else is not. -/
  | lost : t.get? p = some .directory → t.names p ≠ [] →
    t.entryAt h.current true (manifestPath ⟨c.root⟩) = .error .notFound →
    Spoiled h c p t (.removeTree c.root)
  /-- There is a part of the manifest that does not have the line with the name of the project. -/
  | cut {front rest : ByteArray} : t.get? p = some .directory →
    manifestOf c = front ++ rest → front.size < Manifest.mark.utf8ByteSize →
    t.get? (manifestPlace p) = some (.file front false) →
    Spoiled h c p t (.write (manifestPath ⟨c.root⟩) (manifestOf c))

/-- How a call that failed left the root. -/
structure Left (h : Host) (c : Config) (p : Place) (failed : Call) (t : FileTree) : Prop where
  standing : Standing h c p t
  state : Renewable h c p t ∨ Spoiled h c p t failed

theorem Rooted.standing (hr : Rooted h c m d name t) : Standing h c (d ++ [name]) t :=
  ⟨hr.wellFormed, .denotes hr.denotes⟩

/-- A root that is there is denoted. -/
theorem Standing.exists_rooted (hp : Standing h c p t) (hthere : t.get? p = some .directory) :
    ∃ m d name, p = d ++ [name] ∧ Rooted h c m d name t := by
  obtain ⟨m, d, name, hplace, hdenotes⟩ :=
    hp.stands.exists_denotes hp.wellFormed (by rw [hthere]; nofun)
  exact ⟨m, d, name, hplace, hp.wellFormed, hdenotes⟩

/-- A root that is not there stands ahead. -/
theorem Standing.exists_ahead (hp : Standing h c p t) (hfree : t.get? p = none) :
    ∃ m d names, p = d ++ names ∧ names ≠ [] ∧ Ahead t h.current c.root m d names := by
  cases hp.stands with
  | denotes hdenotes => exact ⟨_, _, _, rfl, List.cons_ne_nil _ _, hdenotes.names.ahead hfree⟩
  | ahead hne hahead => exact ⟨_, _, _, rfl, hne, hahead⟩

theorem Standing.mono (hp : Standing h c p t) (hfree : t.get? p = none) (hwf : t'.WellFormed)
    (hsame : ∀ q, t'.get? q = t.get? q) : Standing h c p t' := by
  obtain ⟨m, d, names, rfl, hne, hahead⟩ := hp.exists_ahead hfree
  exact ⟨hwf, .ahead hne (hahead.mono hsame)⟩

theorem Rooted.congr (hr : Rooted h c m d name t) (hwf : t'.WellFormed)
    (hsame : SameApart (d ++ [name]) t t') : Rooted h c m d name t' :=
  ⟨hwf, hr.denotes.congr hsame⟩

/-- What keeps the ways keeps the root. -/
theorem Rooted.mono (hr : Rooted h c m d name t) (hwf : t'.WellFormed) (hkeeps : KeepsWays t t') :
    Rooted h c m d name t' := by
  refine ⟨hwf, hr.denotes.mono fun q e hway he => ?_⟩
  by_cases hq : d ++ [name] <+: q
  · rw [get?_eraseAll_eq_none t (concat_ne_nil d name) hq] at he
    cases he
  · rw [sameApart_eraseAll _ t q hq] at he
    rw [sameApart_eraseAll _ t' q hq]
    exact hkeeps q e hway he

theorem Rooted.leads (hr : Rooted h c m d name t) (hthere : t.get? (d ++ [name]) = some .directory) :
    Leads t h.current c.root m (d ++ [name]) :=
  hr.denotes.names.leads hthere

theorem Rooted.erased (hr : Rooted h c m d name t) : Rooted h c m d name (t.eraseAll (d ++ [name])) := by
  refine hr.congr ?_ (sameApart_eraseAll _ t)
  rw [← erase_eraseBelow]
  exact hr.wellFormed.emptied _

/-- What is at the root is removed in part. -/
theorem Rooted.partly (hr : Rooted h c m d name t)
    (hpartly : Partly t (t.eraseAll (d ++ [name])) t') : Rooted h c m d name t' :=
  hr.congr hpartly.wellFormed (hpartly.sameApart (sameApart_eraseAll _ t))

/-- An empty directory is put at the root. -/
theorem Rooted.put_root (hr : Rooted h c m d name t) (hfree : t.get? (d ++ [name]) = none) :
    Rooted h c m d name (t.put (d ++ [name]) .directory) ∧
      (t.put (d ++ [name]) .directory).get? (d ++ [name]) = some .directory ∧
      ∀ q, Below (d ++ [name]) q → (t.put (d ++ [name]) .directory).get? q = none := by
  refine ⟨hr.congr (hr.wellFormed.put (concat_ne_nil d name) ?_ (by rw [hfree]; nofun))
    (sameApart_put (List.prefix_refl _) _), get?_put_self t .directory (concat_ne_nil d name),
    fun q hq => (get?_put_of_ne t _ hq.2).trans ((hr.wellFormed.cut hfree).free q hq.1)⟩
  rw [List.dropLast_concat]
  exact hr.denotes.names.directory

/-- A manifest is put in the directory of the root. -/
theorem Rooted.put_manifest (hr : Rooted h c m d name t)
    (hthere : t.get? (d ++ [name]) = some .directory)
    (hfree : t.get? (manifestPlace (d ++ [name])) = none) (content : ByteArray) :
    Rooted h c m d name (t.put (manifestPlace (d ++ [name])) (.file content false)) ∧
      (t.put (manifestPlace (d ++ [name])) (.file content false)).get? (d ++ [name]) =
        some .directory := by
  have hplace := below_manifestPlace (d ++ [name])
  refine ⟨hr.congr (hr.wellFormed.put (below_ne_nil hplace) ?_ ?_) (sameApart_put hplace.1 _),
    (get?_put_of_ne t _ hplace.2.symm).trans hthere⟩
  · unfold manifestPlace
    rwa [List.dropLast_concat]
  · rw [hfree]
    nofun

theorem renewable_eraseAll (t : FileTree) : Renewable h c (d ++ [name]) (t.eraseAll (d ++ [name])) :=
  Or.inl (get?_eraseAll_eq_none t (concat_ne_nil d name) (List.prefix_refl _))

theorem Spoiled.directory (hs : Spoiled h c p t failed) : t.get? p = some .directory := by
  cases hs with
  | lost hthere | cut hthere => exact hthere

/-- Nothing or a directory is at a root that a failing call left. -/
theorem Left.free_or_directory (hl : Left h c p failed t) :
    t.get? p = none ∨ t.get? p = some .directory := by
  rcases hl.state with (hfree | ⟨hthere, -⟩) | hspoiled
  · exact Or.inl hfree
  · exact Or.inr hthere
  · exact Or.inr hspoiled.directory

/-- Nothing or an empty directory is left. -/
theorem left_of_vacant (hp : Standing h c p t) (hvacant : Vacant p t) : Left h c p failed t :=
  ⟨hp, Or.inl (hvacant.imp_right fun ⟨hthere, hbelow⟩ => ⟨hthere, Or.inl (names_eq_nil hbelow)⟩)⟩

/-- What is spoiled is not known as a workspace. -/
theorem Spoiled.not_known (hversion : isVersion c.solc = true)
    (hmanifest : pathFault? (manifestPath ⟨c.root⟩) = none) (hr : Rooted h c m d name t)
    (hs : Spoiled h c (d ++ [name]) t failed) :
    ¬ (t.names (d ++ [name]) = [] ∨ Generated h ⟨c.root⟩ t) := by
  cases hs with
  | lost hthere hnames hgone =>
    refine not_or.2 ⟨hnames, ?_⟩
    rintro ⟨text, htext, -⟩
    obtain ⟨q, content, executable, hentry, -⟩ := entryAt_of_textAt htext
    rw [hgone] at hentry
    cases hentry
  | cut hthere hparts hshort hfile =>
    refine not_or.2 ⟨List.ne_nil_of_mem (mem_names t hfile), fun hgenerated => ?_⟩
    rw [generated_iff_known (w := ⟨c.root⟩) (hr.leads hthere) hmanifest hfile,
      Manifest.known_iff hversion hparts] at hgenerated
    exact absurd hgenerated (Nat.not_le.2 hshort)

/-! ## A second attempt -/

/-- A directory with a manifest may be replaced. -/
theorem renewable_of_known {content : ByteArray} {executable : Bool}
    (hmanifest : pathFault? (manifestPath ⟨c.root⟩) = none) (hr : Rooted h c m d name t)
    (hthere : t.get? (d ++ [name]) = some .directory)
    (hfile : t.get? (manifestPlace (d ++ [name])) = some (.file content executable))
    (hknown : Manifest.Known content) : Renewable h c (d ++ [name]) t :=
  Or.inr ⟨hthere, Or.inr
    ((generated_iff_known (w := ⟨c.root⟩) (hr.leads hthere) hmanifest hfile).2 hknown)⟩

/-- A new workspace is known. -/
theorem renewable_built (hr : Rooted h c m d name t)
    (hmanifest : pathFault? (manifestPath ⟨c.root⟩) = none) (hfree : t.get? (d ++ [name]) = none) :
    Rooted h c m d name (built (d ++ [name]) c.solc t) ∧
      Renewable h c (d ++ [name]) (built (d ++ [name]) c.solc t) := by
  have hp := concat_ne_nil d name
  have hthere : (built (d ++ [name]) c.solc t).get? (d ++ [name]) = some .directory :=
    get?_built_root t hp
  have hparent : t.get? (d ++ [name]).dropLast = some .directory := by
    rw [List.dropLast_concat]
    exact hr.denotes.names.directory
  have hr' : Rooted h c m d name (built (d ++ [name]) c.solc t) :=
    hr.congr (wellFormed_built hr.wellFormed hp hparent hfree) (sameApart_built _ _ t)
  exact ⟨hr', renewable_of_known hmanifest hr' hthere (get?_built_manifest _ t)
    (Manifest.known_toUTF8.2 (Manifest.isGenerated_render c.solc))⟩

/-- Where nothing is, all the directories of the root are made, and the root names an empty one. -/
theorem Standing.make (hp : Standing h c p t) (hfree : t.get? p = none) :
    ∃ parent m d name, p = d ++ [name] ∧ Rooted h c m d name parent ∧ parent.get? p = none ∧
      t.makeDirectories h.current c.root = (.ok (), parent.put p .directory) ∧
      ∀ t', Partly t (parent.put p .directory) t' → Standing h c p t' ∧ Vacant p t' := by
  obtain ⟨m, d, names, rfl, hne, hahead⟩ := hp.exists_ahead hfree
  obtain ⟨parent, d', name, hplace, hwf, hnames, hfree', hmade⟩ :=
    hahead.exists_parent hp.wellFormed hne
  refine ⟨parent, m, d', name, hplace, ⟨hwf, hnames.denotes hwf hfree'⟩, hplace ▸ hfree', ?_, ?_⟩
  · rw [hplace, ← hmade]
    exact hahead.makeDirectories hp.wellFormed hne
  · intro t' hpartly
    rw [hplace, ← hmade] at hpartly
    obtain ⟨hstands, hvacant⟩ := hahead.of_partly hp.wellFormed hne hpartly
    exact ⟨⟨hpartly.wellFormed, hstands⟩, hvacant⟩

/-- Where nothing is, a workspace is built, and it is known. -/
theorem Standing.build (hp : Standing h c p t) (hfree : t.get? p = none)
    (hmanifest : pathFault? (manifestPath ⟨c.root⟩) = none) :
    ∃ t', (build ⟨c.root⟩ c.solc).run h t = (.ok ⟨c.root⟩, t') ∧ Standing h c p t' ∧
      Renewable h c p t' := by
  obtain ⟨parent, m, d, name, rfl, hr, hfree', hmade, -⟩ := hp.make hfree
  have hmade' := hr.denotes.names.makeDirectories_free hfree'
  have hsame : (Workspace.build ⟨c.root⟩ c.solc).run h t =
      (Workspace.build ⟨c.root⟩ c.solc).run h parent := by
    unfold Workspace.build
    rw [Plan.run_andThen_ok (run_makeDirectories hmade), Plan.run_andThen_ok (run_makeDirectories hmade')]
  obtain ⟨hr', hrenewable⟩ := renewable_built hr hmanifest hfree'
  exact ⟨_, hsame.trans (build_free (w := ⟨c.root⟩) hr.denotes.names
    (hr.wellFormed.cut hfree').free hmanifest), hr'.standing, hrenewable⟩

theorem Standing.kind (hp : Standing h c p t) (hfree : t.get? p = none) :
    t.kind h.current c.root = .error .notFound := by
  obtain ⟨m, d, names, rfl, hne, hahead⟩ := hp.exists_ahead hfree
  exact hahead.kind hne

theorem clear_missing (hchosen : c.isDefaultRoot = false)
    (hkind : t.kind h.current c.root = .error .notFound) : (clear c).run h t = (.ok (), t) := by
  unfold clear
  rw [hchosen, if_neg Bool.false_ne_true]
  exact removePrevious_missing (w := ⟨c.root⟩) hkind

theorem Standing.removeTree (hp : Standing h c p t) (hfree : t.get? p = none) :
    t.removeTree h.current c.root = (.error .notFound, t) := by
  obtain ⟨m, d, names, rfl, hne, hahead⟩ := hp.exists_ahead hfree
  exact hahead.removeTree hne

/-- A workspace is made at a root that is renewable, and this is so again. -/
theorem Renewable.create (hchosen : c.isDefaultRoot = false) (hp : Standing h c p t)
    (hmanifest : pathFault? (manifestPath ⟨c.root⟩) = none) (hrenewable : Renewable h c p t) :
    ∃ t', (create c).run h t = (.ok ⟨c.root⟩, t') ∧ Standing h c p t' ∧ Renewable h c p t' := by
  rcases hrenewable with hfree | ⟨hthere, hknown⟩
  · obtain ⟨t', hbuilt, hrest⟩ := hp.build hfree hmanifest
    have hcleared := clear_missing hchosen (hp.kind hfree)
    exact ⟨t', (Plan.run_andThen_ok hcleared).trans hbuilt, hrest⟩
  · obtain ⟨m, d, name, rfl, hr⟩ := hp.exists_rooted hthere
    obtain ⟨hr', hrenewable⟩ := renewable_built hr.erased hmanifest
      (get?_eraseAll_eq_none t (concat_ne_nil d name) (List.prefix_refl _))
    exact ⟨_, create_directory hr.denotes hthere (fun _ => hknown) hmanifest, hr'.standing, hrenewable⟩

/-- A root of the caller's choice is refused otherwise. -/
theorem create_refused (hchosen : c.isDefaultRoot = false) (hr : Rooted h c m d name t)
    (hthere : t.get? (d ++ [name]) = some .directory)
    (hnot : ¬ (t.names (d ++ [name]) = [] ∨ Generated h ⟨c.root⟩ t)) :
    (create c).run h t = (.error (notWorkspace c.root), t) := by
  have hclear : (clear c).run h t = (.error (notWorkspace c.root), t) := by
    unfold clear
    rw [hchosen, if_neg Bool.false_ne_true]
    exact (removePrevious_directory (w := ⟨c.root⟩) hr.denotes hthere).2 hnot
  exact Plan.run_andThen_error hclear

/-- A root that is spoiled is refused. -/
theorem Spoiled.refused (hchosen : c.isDefaultRoot = false) (hversion : isVersion c.solc = true)
    (hmanifest : pathFault? (manifestPath ⟨c.root⟩) = none) (hp : Standing h c p t)
    (hs : Spoiled h c p t failed) :
    ¬ Renewable h c p t ∧ (create c).run h t = (.error (notWorkspace c.root), t) := by
  have hthere := hs.directory
  obtain ⟨m, d, name, rfl, hr⟩ := hp.exists_rooted hthere
  have hnot := hs.not_known hversion hmanifest hr
  refine ⟨?_, create_refused hchosen hr hthere hnot⟩
  rintro (hfree | ⟨-, hknown⟩)
  · rw [hfree] at hthere
    cases hthere
  · exact hnot hknown

/-! ## Removing -/

/-- A removal that stops half way leaves the manifest, or nothing else, or the root is spoiled. -/
theorem left_of_removal (hr : Rooted h c m d name t) (hthere : t.get? (d ++ [name]) = some .directory)
    (hknown : t.names (d ++ [name]) = [] ∨ Generated h ⟨c.root⟩ t)
    (hpartly : Partly t (t.eraseAll (d ++ [name])) t') :
    Left h c (d ++ [name]) (.removeTree c.root) t' := by
  have hlacks := hpartly.lacks (concat_ne_nil d name)
  refine ⟨(hr.partly hpartly).standing, ?_⟩
  rcases hlacks (d ++ [name]) with hsame | hgone
  · have hthere' := hsame.trans hthere
    by_cases hnames' : t'.names (d ++ [name]) = []
    · exact Or.inl (Or.inr ⟨hthere', Or.inl hnames'⟩)
    · have hgenerated : Generated h ⟨c.root⟩ t := hknown.resolve_left fun hnames =>
        hnames' (names_eq_nil fun q hq => (hlacks q).elim
          (fun hsame => hsame.trans (free_below_of_names hr.wellFormed hnames hq)) id)
      obtain ⟨text, htext, hmanifest⟩ := hgenerated
      obtain ⟨q, content, executable, hentry, hdecoded⟩ := entryAt_of_textAt htext
      rcases hlacks.entryAt hentry with hentry' | hgone
      · exact Or.inl (Or.inr ⟨hthere', Or.inr ⟨text, textAt_of_entryAt hentry' hdecoded, hmanifest⟩⟩)
      · exact Or.inr (.lost hthere' hnames' hgone)
  · exact Or.inl (Or.inl hgone)

/-- A removal at a root that may be replaced stops half way. -/
theorem left_of_removeTree (hp : Standing h c p t) (hrenewable : Renewable h c p t)
    (hpartly : Partly t (t.removeTree h.current c.root).2 t') :
    Left h c p (.removeTree c.root) t' := by
  rcases hrenewable with hfree | ⟨hthere, hknown⟩
  · rw [hp.removeTree hfree] at hpartly
    have hsame : ∀ q, t'.get? q = t.get? q := fun q => (hpartly.either q).elim id id
    exact ⟨hp.mono hfree hpartly.wellFormed hsame, Or.inl (Or.inl ((hsame p).trans hfree))⟩
  · obtain ⟨m, d, name, rfl, hr⟩ := hp.exists_rooted hthere
    rw [hr.denotes.removeTree_directory hthere] at hpartly
    exact left_of_removal hr hthere hknown hpartly

theorem falters_attempt {α : Type} {path : String} {plan : Plan (Except Fault α)} {r : Except Error α}
    (hf : Plan.Falters h (attempt path plan) t failed r t') :
    ∃ answer, Plan.Falters h plan t failed answer t' ∧ r = fault path answer := by
  rcases hf.of_bind with ⟨answer, t₁, hfalters, hrun⟩ | hfalters
  · obtain ⟨rfl, rfl⟩ := Prod.mk.inj hrun
    exact ⟨answer, hfalters, rfl⟩
  · exact absurd hfalters Plan.not_falters_pure

/-- The removal of a directory at the root stops half way, or nothing is removed. -/
theorem falters_removeExisting {root : String} {r : Except Error Unit}
    (hkind : t.kind h.current root = .ok .directory)
    (hf : Plan.Falters h (removeExisting root) t failed r t') :
    t' = t ∨ failed = .removeTree root ∧ (∃ e, r = .error e) ∧
      Partly t (t.removeTree h.current root).2 t' := by
  rcases hf.of_bind with ⟨answer, t₁, hcall, hrun⟩ | hfalters
  · obtain ⟨rfl, hfails⟩ := hcall.of_call
    cases hfails with
    | kind f =>
      refine Or.inl ?_
      cases f <;> exact (Prod.mk.inj hrun).2.symm
  · rw [Plan.run_call] at hfalters
    dsimp only [Host.answer] at hfalters
    rw [hkind] at hfalters
    obtain ⟨answer, hcall, rfl⟩ := falters_attempt hfalters
    obtain ⟨rfl, hfails⟩ := hcall.of_call
    cases hfails with
    | removeTree f hpartly => exact Or.inr ⟨rfl, ⟨_, rfl⟩, hpartly⟩

/-- If the manifest cannot be read, the root is not known. -/
theorem falters_hasGeneratedManifest {known : Bool}
    (hf : Plan.Falters h w.hasGeneratedManifest t failed known t') : known = false ∧ t' = t := by
  rcases hf.of_bind with ⟨answer, t₁, hread, hrun⟩ | hfalters
  · obtain ⟨rfl, f, rfl⟩ := hread.of_readText
    obtain ⟨rfl, rfl⟩ := Prod.mk.inj hrun
    exact ⟨rfl, rfl⟩
  · split at hfalters <;> exact absurd hfalters Plan.not_falters_pure

/-- The removal of an earlier workspace stops half way, or nothing is removed. -/
theorem falters_removePrevious {r : Except Error Unit}
    (hf : Plan.Falters h w.removePrevious t failed r t') :
    t' = t ∨ failed = .removeTree w.root ∧ (∃ e, r = .error e) ∧
      Partly t (t.removeTree h.current w.root).2 t' := by
  rcases hf.of_bind with ⟨answer, t₁, hcall, hrun⟩ | hfalters
  · obtain ⟨rfl, hfails⟩ := hcall.of_call
    cases hfails with
    | kind f =>
      refine Or.inl ?_
      cases f <;> exact (Prod.mk.inj hrun).2.symm
  rw [Plan.run_call] at hfalters
  dsimp only [Host.answer] at hfalters
  split at hfalters
  · exact absurd hfalters Plan.not_falters_pure
  · exact absurd hfalters Plan.not_falters_pure
  · next hkind =>
    rcases hfalters.of_bind with ⟨answer, t₁, hcall, hrun⟩ | hfalters
    · obtain ⟨rfl, hfails⟩ := hcall.of_call
      cases hfails with
      | list f => exact Or.inl (Prod.mk.inj hrun).2.symm
    rw [Plan.run_call] at hfalters
    dsimp only [Host.answer] at hfalters
    split at hfalters
    · exact absurd hfalters Plan.not_falters_pure
    split at hfalters
    · exact falters_removeExisting hkind hfalters
    rcases hfalters.of_bind with ⟨known, t₁, hread, hrun⟩ | hfalters
    · obtain ⟨rfl, rfl⟩ := falters_hasGeneratedManifest hread
      exact Or.inl (Prod.mk.inj hrun).2.symm
    · obtain ⟨known, hrun, -⟩ := run_hasGeneratedManifest h w t
      rw [hrun] at hfalters
      cases known with
      | true => exact falters_removeExisting hkind hfalters
      | false => exact absurd hfalters Plan.not_falters_pure
  · exact absurd hfalters Plan.not_falters_pure

/-! ## Building -/

/-- There is no manifest, or a part of it. -/
theorem left_of_manifest {answer : Except Fault Unit} (hversion : isVersion c.solc = true)
    (hmanifest : pathFault? (manifestPath ⟨c.root⟩) = none) (hr : Rooted h c m d name t)
    (hthere : t.get? (d ++ [name]) = some .directory)
    (hbelow : ∀ q, Below (d ++ [name]) q → t.get? q = none)
    (hfails : h.Fails t (.write (manifestPath ⟨c.root⟩) (manifestOf c)) answer t') :
    Left h c (d ++ [name]) (.write (manifestPath ⟨c.root⟩) (manifestOf c)) t' := by
  have hplace := below_manifestPlace (d ++ [name])
  cases hfails with
  | write f => exact left_of_vacant hr.standing (Or.inr ⟨hthere, hbelow⟩)
  | @writePart _ _ front rest _ f hparts hwrite =>
    obtain rfl := Except.ok.inj ((write_manifest (w := ⟨c.root⟩) (hr.leads hthere) hthere
      (hbelow _ hplace) hmanifest front).symm.trans hwrite)
    have hfile := get?_put_self t (.file front false) (below_ne_nil hplace)
    obtain ⟨hr', hthere'⟩ := hr.put_manifest hthere (hbelow _ hplace) front
    refine ⟨hr'.standing, ?_⟩
    rcases Nat.lt_or_ge front.size Manifest.mark.utf8ByteSize with hshort | hlong
    · exact Or.inr (.cut hthere' hparts hshort hfile)
    · exact Or.inl (renewable_of_known hmanifest hr' hthere' hfile
        ((Manifest.known_iff hversion hparts).2 hlong))

/-- The manifest is there, and the directory of the sources is there or not. -/
theorem left_of_sources (hmanifest : pathFault? (manifestPath ⟨c.root⟩) = none)
    (hr : Rooted h c m d name t) (hthere : t.get? (d ++ [name]) = some .directory)
    (hfile : t.get? (manifestPlace (d ++ [name])) = some (.file (manifestOf c) false))
    (hpartly : Partly t (t.put (sourcePlace (d ++ [name])) .directory) t') :
    Left h c (d ++ [name]) failed t' := by
  have hplace := below_sourcePlace (d ++ [name])
  have hr' := hr.congr hpartly.wellFormed (hpartly.sameApart (sameApart_put hplace.1 _))
  have hkept : ∀ q, q ≠ sourcePlace (d ++ [name]) → t'.get? q = t.get? q := fun q hq =>
    (hpartly.either q).elim id fun hmade => hmade.trans (get?_put_of_ne t _ hq)
  have hthere' := (hkept _ hplace.2.symm).trans hthere
  exact ⟨hr'.standing, Or.inl (renewable_of_known hmanifest hr' hthere'
    ((hkept _ (manifestPlace_ne_sourcePlace _)).trans hfile)
    (Manifest.known_toUTF8.2 (Manifest.isGenerated_render c.solc)))⟩

theorem falters_makeDirectories {path : String} {r : Except Error Unit}
    (hf : Plan.Falters h (attempt path (Plan.call (.makeDirectories path))) t failed r t') :
    (∃ e, r = .error e) ∧ Partly t (t.makeDirectories h.current path).2 t' := by
  obtain ⟨answer, hcall, rfl⟩ := falters_attempt hf
  obtain ⟨rfl, hfails⟩ := hcall.of_call
  cases hfails with
  | makeDirectories f hpartly => exact ⟨⟨_, rfl⟩, hpartly⟩

theorem falters_writeText {path text : String} {r : Except Error Unit}
    (hf : Plan.Falters h (attempt path (Plan.writeText path text)) t failed r t') :
    failed = .write path text.toUTF8 ∧ (∃ e, r = .error e) ∧
      ∃ answer : Except Fault Unit, h.Fails t (.write path text.toUTF8) answer t' := by
  obtain ⟨answer, hcall, rfl⟩ := falters_attempt hf
  obtain ⟨rfl, hfails⟩ := hcall.of_call
  refine ⟨rfl, ?_, answer, hfails⟩
  cases hfails <;> exact ⟨_, rfl⟩

/-- Where nothing is, a call of the building fails. -/
theorem left_of_falters_build {r : Except Error Workspace} (hversion : isVersion c.solc = true)
    (hmanifest : pathFault? (manifestPath ⟨c.root⟩) = none) (hp : Standing h c p t)
    (hfree : t.get? p = none) (hf : Plan.Falters h (build ⟨c.root⟩ c.solc) t failed r t') :
    Left h c p failed t' := by
  obtain ⟨parent, m, d, name, rfl, hr, hfree', hmade, hstops⟩ := hp.make hfree
  rcases hf.of_andThen_run (fun hroot => (falters_makeDirectories hroot).1)
    (run_makeDirectories hmade) with ⟨e, hroot⟩ | hf
  · have hpartly := (falters_makeDirectories hroot).2
    rw [hmade] at hpartly
    obtain ⟨hstanding, hvacant⟩ := hstops t' hpartly
    exact left_of_vacant hstanding hvacant
  -- The root is an empty directory.
  obtain ⟨hr₁, hthere, hbelow⟩ := hr.put_root hfree'
  have hplace := below_manifestPlace (d ++ [name])
  rcases hf.of_andThen_run (fun hwrite => (falters_writeText hwrite).2.1)
    (run_writeManifest (w := ⟨c.root⟩) (hr₁.leads hthere) hthere (hbelow _ hplace) hmanifest _)
    with ⟨e, hwrite⟩ | hf
  · obtain ⟨rfl, -, answer, hfails⟩ := falters_writeText hwrite
    exact left_of_manifest hversion hmanifest hr₁ hthere hbelow hfails
  -- The root is a directory with a manifest in it.
  have hfile := get?_put_self (parent.put (d ++ [name]) .directory) (.file (manifestOf c) false)
    (below_ne_nil hplace)
  obtain ⟨hr₂, hthere₂⟩ := hr₁.put_manifest hthere (hbelow _ hplace) (manifestOf c)
  have hmade₂ := makeDirectories_sources (w := ⟨c.root⟩) (hr₂.leads hthere₂) hthere₂
    ((get?_put_of_ne _ _ (manifestPlace_ne_sourcePlace _).symm).trans
      (hbelow _ (below_sourcePlace _))) hmanifest
  rcases hf.of_andThen_run (fun hsources => (falters_makeDirectories hsources).1)
    (run_makeDirectories hmade₂) with ⟨e, hsources⟩ | hf
  · have hpartly := (falters_makeDirectories hsources).2
    rw [hmade₂] at hpartly
    exact left_of_sources hmanifest hr₂ hthere₂ hfile hpartly
  · exact absurd hf Plan.not_falters_pure

/-- A workspace is built over a directory that may be replaced, or it cannot be. -/
theorem renewable_of_build (hr : Rooted h c m d name t)
    (hthere : t.get? (d ++ [name]) = some .directory)
    (hrenewable : Renewable h c (d ++ [name]) t) :
    Plan.Ensures h (build ⟨c.root⟩ c.solc) t fun _ t' =>
      Rooted h c m d name t' ∧ Renewable h c (d ++ [name]) t' := by
  have hmade : t.makeDirectories h.current c.root = (.ok (), t) :=
    hr.denotes.names.makeDirectories_directory hthere
  unfold build
  refine Plan.ensures_andThen (P := fun _ t' => t = t')
    (ensures_attempt (congrArg Prod.snd hmade).symm) ?_ ?_
  · rintro e _ rfl
    exact ⟨hr, hrenewable⟩
  rintro _ _ rfl
  refine Plan.ensures_andThen (ensures_writeManifest h ⟨c.root⟩ c.solc t) ?_ ?_
  · rintro e _ rfl
    exact ⟨hr, hrenewable⟩
  rintro _ written ⟨q, executable, htargets, rfl⟩
  -- Directories that are made then leave the manifest where it is.
  have hadds : ∀ t', Adds (t.put q (.file (manifestOf c) executable)) t' →
      Rooted h c m d name t' ∧ Renewable h c (d ++ [name]) t' := fun t' hadds => by
    have hwritable := htargets.writable hr.wellFormed
    have hkeeps : KeepsWays t t' := hwritable.keepsWays.trans hadds.keeps.keepsWays
    have hfile := hadds.keeps _ _ (get?_put_self t (.file (manifestOf c) executable) hwritable.1)
    refine ⟨hr.mono (hadds.wellFormed (hwritable.wellFormed hr.wellFormed)) hkeeps,
      Or.inr ⟨hkeeps _ _ isWay_directory hthere, Or.inr ⟨_, ?_,
        Manifest.isGenerated_render c.solc⟩⟩⟩
    exact textAt_of_entryAt (htargets.entryAt hkeeps hfile) (Text.decode?_toUTF8 _)
  exact Plan.ensures_andThen (P := fun _ t' => Adds (t.put q (.file (manifestOf c) executable)) t')
    (ensures_attempt (adds_makeDirectories _ h.current (sourceDirectory ⟨c.root⟩)))
    (fun _ t' => hadds t') fun _ t' => hadds t'

/-- If nothing is found at a root that may be replaced, it may be replaced when a workspace has been
built. -/
theorem left_of_build (hmanifest : pathFault? (manifestPath ⟨c.root⟩) = none)
    (hp : Standing h c p t) (hrenewable : Renewable h c p t) :
    Left h c p failed ((build ⟨c.root⟩ c.solc).run h t).2 := by
  rcases id hrenewable with hfree | ⟨hthere, -⟩
  · obtain ⟨t', hrun, hp', hrenewable'⟩ := hp.build hfree hmanifest
    rw [hrun]
    exact ⟨hp', Or.inl hrenewable'⟩
  · obtain ⟨m, d, name, rfl, hr⟩ := hp.exists_rooted hthere
    obtain ⟨hr', hrenewable'⟩ := renewable_of_build hr hthere hrenewable
    exact ⟨hr'.standing, Or.inl hrenewable'⟩

/-! ## Making a workspace -/

/-- A call of the making of a workspace fails. -/
theorem left_of_falters_create {r : Except Error Workspace} (hchosen : c.isDefaultRoot = false)
    (hversion : isVersion c.solc = true) (hmanifest : pathFault? (manifestPath ⟨c.root⟩) = none)
    (hp : Standing h c p t) (hrenewable : Renewable h c p t)
    (hf : Plan.Falters h (create c) t failed r t') : Left h c p failed t' := by
  unfold create at hf
  dsimp only at hf
  rw [hchosen, if_neg Bool.false_ne_true] at hf
  rcases hf.of_andThen with ⟨e, hclear, -⟩ | ⟨a, t₁, hclear, hrun⟩ | ⟨a, t₁, hrun, hbuild⟩
  · rcases falters_removePrevious hclear with rfl | ⟨rfl, -, hpartly⟩
    · exact ⟨hp, Or.inl hrenewable⟩
    · exact left_of_removeTree hp hrenewable hpartly
  · rcases falters_removePrevious hclear with rfl | ⟨-, ⟨e, he⟩, -⟩
    · have hl : Left h c p failed _ := left_of_build hmanifest hp hrenewable
      rwa [hrun] at hl
    · cases he
  · rcases hrenewable with hfree | ⟨hthere, hknown⟩
    · rw [removePrevious_missing (w := ⟨c.root⟩) (hp.kind hfree)] at hrun
      obtain ⟨-, rfl⟩ := Prod.mk.inj hrun
      exact left_of_falters_build hversion hmanifest hp hfree hbuild
    · obtain ⟨m, d, name, rfl, hr⟩ := hp.exists_rooted hthere
      rw [(removePrevious_directory (w := ⟨c.root⟩) hr.denotes hthere).1 hknown] at hrun
      obtain ⟨-, rfl⟩ := Prod.mk.inj hrun
      exact left_of_falters_build hversion hmanifest hr.erased.standing
        (get?_eraseAll_eq_none t (concat_ne_nil d name) (List.prefix_refl _)) hbuild

/-- Any part of the manifest may be left where nothing was. -/
theorem falters_create_cut (f : Fault) {front rest : ByteArray} (hchosen : c.isDefaultRoot = false)
    (hr : Rooted h c m d name t) (hmanifest : pathFault? (manifestPath ⟨c.root⟩) = none)
    (hfree : t.get? (d ++ [name]) = none) (hparts : manifestOf c = front ++ rest) :
    Plan.Falters h (create c) t (.write (manifestPath ⟨c.root⟩) (manifestOf c))
      (.error (.workspace (manifestPath ⟨c.root⟩) f.text))
      ((t.put (d ++ [name]) .directory).put (manifestPlace (d ++ [name])) (.file front false)) := by
  obtain ⟨hr₁, hthere, hbelow⟩ := hr.put_root hfree
  have hwrite := write_manifest (w := ⟨c.root⟩) (hr₁.leads hthere) hthere
    (hbelow _ (below_manifestPlace _)) hmanifest front
  have hfails := Plan.falters_call (.writePart f hparts hwrite)
  refine Plan.Falters.andThen_behind (clear_missing hchosen (hr.standing.kind hfree))
    (Plan.Falters.andThen_behind (run_makeDirectories (hr.denotes.names.makeDirectories_free hfree)) ?_)
  exact Plan.Falters.andThen_error (hfails.bind _) _

/-! ## Removing a workspace -/

/-- The removal of a workspace fails. -/
theorem left_of_falters_destroy {r : Except Error Unit} (hp : Standing h c p t)
    (hrenewable : Renewable h c p t) (hf : Plan.Falters h (destroy ⟨c.root⟩) t failed r t') :
    Left h c p failed t' := by
  rcases hf.of_bind with ⟨answer, t₁, hcall, hrun⟩ | hfalters
  · obtain ⟨rfl, hfails⟩ := hcall.of_call
    cases hfails with
    | removeTree f hpartly =>
      obtain rfl : t₁ = t' := by cases f <;> exact (Prod.mk.inj hrun).2
      exact left_of_removeTree hp hrenewable hpartly
  · split at hfalters <;> exact absurd hfalters Plan.not_falters_pure

/-- A workspace is removed from a root that a failing call left. -/
theorem left_of_destroy (hl : Left h c p failed t) :
    Left h c p failed ((destroy ⟨c.root⟩).run h t).2 := by
  rcases hl.free_or_directory with hfree | hthere
  · rw [destroy_missing (w := ⟨c.root⟩) (hl.standing.removeTree hfree)]
    exact hl
  · obtain ⟨m, d, name, rfl, hr⟩ := hl.standing.exists_rooted hthere
    rw [destroy_directory (w := ⟨c.root⟩) hr.denotes hthere]
    exact ⟨hr.erased.standing, Or.inl (renewable_eraseAll t)⟩

end EmbeddedSolidity.Workspace
