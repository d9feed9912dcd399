import EmbeddedSolidity.Proofs.FileSystem.Effect

/-!
# Places that paths name

A path names a place in a directory if its last name is plain and the names before it lead to the
directory. Which entry is at the place does not matter for that, unless the path passes the place on
its way : it denotes the place if it would name it also in a tree that has nothing there.

* `FileTree.Denotes.congr` : a path denotes the same place in trees that differ there only;
* `FileTree.Names.makeDirectories_free`, `FileTree.Denotes.removeTree_directory`,
  `FileTree.Names.removeFile_other` : making and removing what is at the place;
* `FileTree.write_new`, `FileTree.write_old` : writing a file.
-/

namespace EmbeddedSolidity.FileSystem.FileTree

variable {t t' t'' : FileTree} {current d p q : Place} {path name : String} {m : Nat}

/-! ## Trees that differ at one place -/

/-- The trees differ at most at the place and below it. -/
def SameApart (p : Place) (t t' : FileTree) : Prop :=
  ∀ q, ¬ p <+: q → t'.get? q = t.get? q

theorem SameApart.refl (p : Place) (t : FileTree) : SameApart p t t :=
  fun _ _ => rfl

theorem SameApart.symm (h : SameApart p t t') : SameApart p t' t :=
  fun q hq => (h q hq).symm

theorem SameApart.trans (h : SameApart p t t') (h' : SameApart p t' t'') : SameApart p t t'' :=
  fun q hq => (h' q hq).trans (h q hq)

theorem sameApart_put (h : p <+: q) (e : Entry) : SameApart p t (t.put q e) :=
  fun _ hr => get?_put_of_ne t e fun heq => hr (heq ▸ h)

theorem sameApart_eraseAll (p : Place) (t : FileTree) : SameApart p t (t.eraseAll p) :=
  fun _ hq => get?_eraseAll t (by rw [Bool.eq_false_iff, ne_eq, List.isPrefixOf_iff_prefix]; exact hq)

/-- Nothing is left at a place that is erased with all that is below it. -/
theorem get?_eraseAll_eq_none (t : FileTree) (hp : p ≠ []) (hq : p <+: q) :
    (t.eraseAll p).get? q = none := by
  have hne : q ≠ [] := fun hnil => hp (List.prefix_nil.1 (hnil ▸ hq))
  have := lookup_filter_eq_none (f := fun r => !p.isPrefixOf r) (q := q) t.entries
    (by simpa using hq)
  simpa [get?, eraseAll, hne] using this

/-- Emptying a directory and erasing it erases all. -/
theorem erase_eraseBelow (t : FileTree) (p : Place) : (t.eraseBelow p).erase p = t.eraseAll p := by
  unfold erase eraseBelow eraseAll
  rw [List.filter_filter]
  congr 1
  refine List.filter_congr fun e _ => ?_
  by_cases he : e.1 = p
  · simp [he]
  · have hne : (e.1 != p) = true := by simpa using he
    rw [hne, Bool.and_true, Bool.true_and]

/-- Nothing is at the place or below it, and the rest is as in the other tree. -/
structure Cut (p : Place) (t t' : FileTree) : Prop where
  same : SameApart p t t'
  free : ∀ q, p <+: q → t'.get? q = none

theorem cut_eraseAll (t : FileTree) (hp : p ≠ []) : Cut p t (t.eraseAll p) :=
  ⟨sameApart_eraseAll p t, fun _ hq => get?_eraseAll_eq_none t hp hq⟩

/-- A free place in a well-formed tree has nothing below it. -/
theorem WellFormed.cut (hwf : t.WellFormed) (hfree : t.get? p = none) : Cut p t t := by
  refine ⟨.refl p t, fun q hq => ?_⟩
  by_cases heq : q = p
  · rw [heq]
    exact hfree
  · exact hwf.free_below (by rw [hfree]; nofun) ⟨hq, heq⟩

/-- What is no directory is erased with all that is below it. -/
theorem WellFormed.cut_erase (hwf : t.WellFormed) (hp : p ≠ [])
    (hother : t.get? p ≠ some .directory) : Cut p t (t.erase p) := by
  refine ⟨fun q hq => get?_erase_of_ne t fun heq => hq (heq ▸ List.prefix_refl p), fun q hq => ?_⟩
  by_cases heq : q = p
  · rw [heq]
    exact get?_erase_self t hp
  · rw [get?_erase_of_ne t heq]
    exact hwf.free_below hother ⟨hq, heq⟩

/-- What is in a tree without the place is in every tree that differs there only. -/
theorem Cut.keepsWays (h : Cut p t t') (hsame : SameApart p t t'') : KeepsWays t' t'' := by
  intro q e _ he
  have hq : ¬ p <+: q := fun hq => by
    rw [h.free q hq] at he
    cases he
  rw [hsame q hq, ← h.same q hq]
  exact he

/-! ## Naming a place -/

/-- The path is the plain name `name` in the directory `d` : the names before it lead there, with `m`
links left that may be followed. -/
structure Names (t : FileTree) (current : Place) (path : String) (m : Nat) (d : Place)
    (name : String) : Prop where
  fault : pathFault? path = none
  plain : Plain name
  directory : t.get? d = some .directory
  reaches : ∃ front, Path.parts path = front ++ [name] ∧
    Reaches t maxLinks (startOf current path) front m d

/-- The path names the place of `name` in `d`, and would do so if nothing were at that place. -/
def Denotes (t : FileTree) (current : Place) (path : String) (m : Nat) (d : Place)
    (name : String) : Prop :=
  Names (t.eraseAll (d ++ [name])) current path m d name

theorem concat_ne_nil (d : Place) (name : String) : d ++ [name] ≠ [] := by
  simp

theorem Names.mono (h : Names t current path m d name) (hkeeps : KeepsWays t t') :
    Names t' current path m d name :=
  let ⟨front, hparts, hreach⟩ := h.reaches
  ⟨h.fault, h.plain, hkeeps _ _ isWay_directory h.directory, front, hparts, hreach.mono hkeeps⟩

/-- A path denotes the same place in trees that differ at this place only. -/
theorem Denotes.congr (h : Denotes t current path m d name) (hsame : SameApart (d ++ [name]) t t') :
    Denotes t' current path m d name :=
  Names.mono h ((cut_eraseAll t (concat_ne_nil d name)).keepsWays
    (hsame.trans (sameApart_eraseAll _ t')))

theorem Denotes.names (h : Denotes t current path m d name) : Names t current path m d name :=
  Names.mono h ((cut_eraseAll t (concat_ne_nil d name)).keepsWays (.refl _ t))

/-- A path that names a free place does not pass it. -/
theorem Names.denotes (h : Names t current path m d name) (hwf : t.WellFormed)
    (hfree : t.get? (d ++ [name]) = none) : Denotes t current path m d name :=
  h.mono ((hwf.cut hfree).keepsWays (sameApart_eraseAll _ t))

/-! ## What is at the place -/

theorem Names.ne_empty (h : Names t current path m d name) : path ≠ "" :=
  (pathFault?_eq_none_iff.1 h.fault).2.1

/-- Without a slash at the end, the place of the name is what the path stands for. -/
theorem Names.resolveName (h : Names t current path m d name) :
    t.resolveName current path = t.walk false m d [name] := by
  obtain ⟨front, hparts, hreach⟩ := h.reaches
  rw [FileTree.resolveName, resolveNames_eq h.fault, hparts]
  exact walk_append hreach (Or.inl (List.cons_ne_nil _ _))

/-- A slash at the end asks for a directory at the place of the name. -/
theorem Names.resolve (h : Names t current path m d name) (follow : Bool) :
    t.resolve current follow path = t.walk follow m d [name] ∧ endsInSlash path = false ∨
      t.resolve current follow path = t.walk follow m d [name, ""] ∧ endsInSlash path = true := by
  obtain ⟨front, hparts, hreach⟩ := h.reaches
  have hnames : namesOf path = front ++ [name] ∧ endsInSlash path = false ∨
      namesOf path = front ++ [name, ""] ∧ endsInSlash path = true := by
    unfold namesOf
    dsimp only
    rw [hparts]
    cases endsInSlash path <;> simp
  refine hnames.imp (fun ⟨hnames, hslash⟩ => ⟨?_, hslash⟩) fun ⟨hnames, hslash⟩ => ⟨?_, hslash⟩ <;>
    rw [FileTree.resolve, resolveNames_eq h.fault, hnames] <;>
    exact walk_append hreach (Or.inl (List.cons_ne_nil _ _))

/-- A directory at the place is what the path leads to. -/
theorem Names.leads (h : Names t current path m d name)
    (hthere : t.get? (d ++ [name]) = some .directory) : Leads t current path m (d ++ [name]) := by
  obtain ⟨front, hparts, hreach⟩ := h.reaches
  refine ⟨h.fault, ?_⟩
  rw [hparts]
  exact hreach.append (.down h.plain hthere (.nil _ _))

theorem Names.entryAt_directory (h : Names t current path m d name)
    (hthere : t.get? (d ++ [name]) = some .directory) (follow : Bool) :
    t.entryAt current follow path = .ok (d ++ [name], .directory) := by
  refine entryAt_of_resolve ?_
  rcases h.resolve follow with ⟨hresolve, -⟩ | ⟨hresolve, -⟩ <;> rw [hresolve, walk_down h.plain hthere]
  · exact walk_nil _ _ _ _
  · rw [walk_skip (Or.inl rfl), walk_nil]

theorem Names.kind_directory (h : Names t current path m d name)
    (hthere : t.get? (d ++ [name]) = some .directory) :
    t.kind current path = .ok .directory := by
  unfold kind
  rw [h.entryAt_directory hthere false]
  rfl

/-- At a path that names a free place nothing is. -/
theorem Names.entryAt_free (h : Names t current path m d name)
    (hfree : t.get? (d ++ [name]) = none) (follow : Bool) :
    t.entryAt current follow path = .error .notFound := by
  unfold entryAt
  rcases h.resolve follow with ⟨hresolve, -⟩ | ⟨hresolve, -⟩ <;>
    rw [hresolve, walk_plain h.plain, hfree] <;> dsimp only <;>
    rw [if_pos ⟨h.directory, rfl⟩]

theorem Names.kind_free (h : Names t current path m d name) (hfree : t.get? (d ++ [name]) = none) :
    t.kind current path = .error .notFound := by
  unfold kind
  rw [h.entryAt_free hfree false]
  rfl

/-- A file at the place is at the path, unless that asks for a directory. -/
theorem Names.kind_file {content : ByteArray} {executable : Bool}
    (h : Names t current path m d name)
    (hthere : t.get? (d ++ [name]) = some (.file content executable)) :
    t.kind current path = .ok .file ∧ endsInSlash path = false ∨
      t.kind current path = .error .notDirectory ∧ endsInSlash path = true := by
  unfold kind entryAt
  rcases h.resolve false with ⟨hresolve, hslash⟩ | ⟨hresolve, hslash⟩ <;>
    rw [hresolve, walk_plain h.plain, hthere]
  · exact Or.inl ⟨rfl, hslash⟩
  · exact Or.inr ⟨rfl, hslash⟩

/-- A link at the place is at the path, unless that asks for a directory. -/
theorem Names.kind_link {target : String} (h : Names t current path m d name)
    (hthere : t.get? (d ++ [name]) = some (.link target)) (hslash : endsInSlash path = false) :
    t.kind current path = .ok .link := by
  unfold kind entryAt
  rcases h.resolve false with ⟨hresolve, -⟩ | ⟨-, hslash'⟩
  · rw [hresolve, walk_plain h.plain, hthere]
    rfl
  · rw [hslash] at hslash'
    cases hslash'

/-! ## Making and removing -/

/-- A path whose last name is plain has a parent. -/
theorem isSome_parent? {front : List String} (hparts : Path.parts path = front ++ [name])
    (hname : Plain name) : (Path.parent? path).isNone = false := by
  have hlast : (Path.parts path).filterMap Path.component? =
      front.filterMap Path.component? ++ [.named name] := by
    have hcomponent : Path.component? name = some (.named name) := by
      unfold Path.component?
      rw [if_neg (by simpa using hname.2.1), if_neg (by simpa using hname.2.2.1)]
    rw [hparts, List.filterMap_append, List.filterMap_cons_some hcomponent, List.filterMap_nil]
  have hcomponents : (Path.components path).getLast? = some (.named name) := by
    unfold Path.components
    dsimp only
    rw [hlast]
    split
    · rw [← List.cons_append, List.getLast?_concat]
    · split
      · rw [← List.cons_append, List.getLast?_concat]
      · rw [List.getLast?_concat]
  unfold Path.parent?
  rw [hcomponents]
  rfl

theorem isEmpty_of_parts {front : List String} (hparts : Path.parts path = front ++ [name]) :
    path.isEmpty = false := by
  rw [← Bool.not_eq_true, String.isEmpty_iff]
  rintro rfl
  cases front <;> cases hparts

theorem makeDirectory_of_free {slash : Bool} (hfree : t.resolveName current path = .ok (.free q slash)) :
    t.makeDirectory current path = .ok (t.put q .directory) := by
  unfold makeDirectory
  rw [hfree]
  rfl

/-- If a directory can be made, nothing else is made for its path. -/
theorem makeDirectories_of_free {front : List String} (hparts : Path.parts path = front ++ [name])
    (hname : Plain name) (hfree : t.resolveName current path = .ok (.free q false)) :
    t.makeDirectories current path = (.ok (), t.put q .directory) := by
  unfold makeDirectories
  rw [isEmpty_of_parts hparts, isSome_parent? hparts hname, Bool.or_false,
    if_neg Bool.false_ne_true]
  unfold ancestors climb
  rw [makeDirectory_of_free hfree]
  rfl

/-- The directory of a free name is made. -/
theorem Names.makeDirectories_free (h : Names t current path m d name)
    (hfree : t.get? (d ++ [name]) = none) :
    t.makeDirectories current path = (.ok (), t.put (d ++ [name]) .directory) := by
  obtain ⟨front, hparts, -⟩ := h.reaches
  refine makeDirectories_of_free hparts h.plain ?_
  rw [h.resolveName, walk_free h.plain h.directory hfree]

/-- A directory that is there is not made again. -/
theorem Names.makeDirectories_directory (h : Names t current path m d name)
    (hthere : t.get? (d ++ [name]) = some .directory) :
    t.makeDirectories current path = (.ok (), t) := by
  obtain ⟨front, hparts, -⟩ := h.reaches
  have hmake : t.makeDirectory current path = .error .exists := by
    unfold makeDirectory
    rw [h.resolveName, walk_down h.plain hthere, walk_nil]
    rfl
  have hdirectory : t.isDirectory current path = true := by
    unfold isDirectory
    rw [h.entryAt_directory hthere true]
  unfold makeDirectories
  rw [isEmpty_of_parts hparts, isSome_parent? hparts h.plain, Bool.or_false,
    if_neg Bool.false_ne_true]
  unfold ancestors climb
  rw [hmake]
  dsimp only
  rw [hdirectory]
  rfl

theorem isEmptyAt_of_free (hfree : ∀ q, Below p q → t.entries.lookup q = none) :
    t.isEmptyAt p = true := by
  unfold isEmptyAt
  rw [List.isEmpty_iff]
  unfold names
  rw [List.filterMap_eq_nil_iff]
  intro e he
  unfold nameIn?
  split_ifs with hp
  · rw [List.getLast?_eq_none_iff]
    by_contra hne
    have hbelow : Below p e.1 := hp ▸ below_dropLast hne
    have hmem := hfree _ hbelow
    rw [List.lookup_eq_none_iff] at hmem
    exact absurd (hmem e he) (by simp)
  · rfl

/-- A directory at the place is removed with all that is in it. -/
theorem Denotes.removeTree_directory (h : Denotes t current path m d name)
    (hthere : t.get? (d ++ [name]) = some .directory) :
    t.removeTree current path = (.ok (), t.eraseAll (d ++ [name])) := by
  have hsame : SameApart (d ++ [name]) t (t.eraseBelow (d ++ [name])) :=
    fun q hq => get?_eraseBelow_of_not_below t fun hbelow => hq hbelow.1
  have hnames := (h.congr hsame).names
  have hthere' : (t.eraseBelow (d ++ [name])).get? (d ++ [name]) = some .directory := by
    rw [get?_eraseBelow_of_not_below t fun hbelow => hbelow.2 rfl]
    exact hthere
  have hlast : lastName? path = some name := by
    obtain ⟨front, hparts, -⟩ := h.names.reaches
    unfold lastName?
    rw [hparts, List.getLast?_concat]
  have hempty : (t.eraseBelow (d ++ [name])).isEmptyAt (d ++ [name]) = true := by
    refine isEmptyAt_of_free fun q hq => ?_
    have hnone := get?_eraseBelow t hq
    unfold get? at hnone
    rwa [if_neg (by simpa using below_ne_nil hq)] at hnone
  have hremove : (t.eraseBelow (d ++ [name])).removeDirectory current path =
      .ok ((t.eraseBelow (d ++ [name])).erase (d ++ [name])) := by
    unfold removeDirectory
    rw [hnames.resolveName, walk_down h.plain hthere', walk_nil]
    dsimp only [bind, Except.bind]
    rw [hlast, if_neg (by simpa using h.plain.2.1), if_neg (by simpa using h.plain.2.2.1),
      if_neg (by simp), if_pos hempty]
  unfold removeTree
  rw [h.names.entryAt_directory hthere false]
  dsimp only
  rw [hremove, erase_eraseBelow]
  rfl

/-- Nothing is removed where nothing is. -/
theorem Names.removeTree_free (h : Names t current path m d name)
    (hfree : t.get? (d ++ [name]) = none) :
    t.removeTree current path = (.error .notFound, t) := by
  unfold removeTree
  rw [h.entryAt_free hfree false]

/-- What is at the place and no directory is removed by itself. -/
theorem Names.removeFile_other {e : Entry} (h : Names t current path m d name)
    (hthere : t.get? (d ++ [name]) = some e) (hother : e ≠ .directory)
    (hslash : endsInSlash path = false) :
    t.removeFile current path = .ok (t.erase (d ++ [name])) := by
  have hname : t.resolveName current path = .ok (.entry (d ++ [name]) e) := by
    rw [h.resolveName, walk_plain h.plain, hthere]
    cases e with
    | directory => exact absurd rfl hother
    | file => rfl
    | link => rfl
  unfold removeFile
  rw [hname]
  cases e with
  | directory => exact absurd rfl hother
  | file | link => exact if_neg (by rw [hslash]; exact Bool.false_ne_true)

/-! ## Writing -/

/-- A file that is new is not executable. -/
theorem write_new {content : ByteArray} (hslash : endsInSlash path = false)
    (hfree : t.resolve current true path = .ok (.free q false)) :
    t.write current path content = .ok (t.put q (.file content false)) := by
  unfold write
  rw [hslash, hfree]
  rfl

/-- A file that is overwritten stays what it is. -/
theorem write_old {content old : ByteArray} {executable : Bool} (hslash : endsInSlash path = false)
    (hold : t.resolve current true path = .ok (.entry q (.file old executable))) :
    t.write current path content = .ok (t.put q (.file content executable)) := by
  unfold write
  rw [hslash, hold]
  rfl

/-- Nothing is written to a path that leads nowhere. -/
theorem write_of_error {content : ByteArray} {f : Fault} (hslash : endsInSlash path = false)
    (hnone : t.resolve current true path = .error f) :
    t.write current path content = .error f := by
  unfold write
  rw [hslash, hnone]
  rfl

end EmbeddedSolidity.FileSystem.FileTree
