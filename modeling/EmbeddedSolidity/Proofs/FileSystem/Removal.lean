import EmbeddedSolidity.Proofs.FileSystem.Ancestors
import EmbeddedSolidity.Proofs.FileSystem.Partial

/-!
# What a removal leaves at its path

A removal of a directory that ends well, or that finds nothing, leaves nothing at its path, in every
tree and for every path : also for one that leads through a link, through the directory itself, or that
ends in a slash. The tree lacks some entries afterwards, and a path then leads to what it led to before
or to nothing; what it led to is gone.

* `FileTree.kind_of_resolveName` : nothing at a path, be a slash at its end or not;
* `FileTree.removeTree_gone` : what a removal leaves.
-/

namespace EmbeddedSolidity

/-- A path without names is made of slashes. -/
theorem Path.isAbsolute_of_parts {path : String} (hne : path ≠ "") (hparts : parts path = []) :
    isAbsolute path = true := by
  unfold isAbsolute
  unfold parts at hparts
  cases hchars : path.toList with
  | nil => exact absurd (String.toList_inj.1 hchars) hne
  | cons c rest =>
    by_cases hc : c = '/'
    · rw [hc]
      rfl
    · -- The piece before the first slash is not empty.
      obtain ⟨piece, pieces, hcut⟩ := List.exists_cons_of_ne_nil (Text.cut_ne_nil '/' rest)
      rw [hchars, Text.cut, if_neg (by simpa using hc), hcut] at hparts
      simp at hparts

namespace FileSystem.FileTree

variable {t t' : FileTree} {current p q : Place} {path : String}

/-! ## Trees that lack entries -/

theorem Lacks.trans {t'' : FileTree} (h : Lacks t t') (h' : Lacks t' t'') : Lacks t t'' := fun q => by
  rcases h' q with hsame | hgone
  · rw [hsame]
    exact h q
  · exact Or.inr hgone

theorem lacks_erase (t : FileTree) (p : Place) : Lacks t (t.erase p) := fun q => by
  by_cases hq : q = p
  · by_cases hp : p = []
    · rw [hq, hp]
      exact Or.inl rfl
    · rw [hq]
      exact Or.inr (get?_erase_self t hp)
  · exact Or.inl (get?_erase_of_ne t hq)

/-! ## Nothing at a path -/

/-- The walk ends where nothing is. -/
def EndsInNothing (r : Except Fault Found) : Prop :=
  r = .error .notFound ∨ ∃ q slash, r = .ok (.free q slash)

/-- A slash behind the names changes nothing if nothing is there. -/
theorem walk_slash : ∀ (n : Nat) (here : Place) (names : List String),
    EndsInNothing (t.walk false n here names) → EndsInNothing (t.walk false n here (names ++ [""])) := by
  intro n
  induction n using Nat.strongRecOn with
  | ind n ihn =>
    intro here names
    induction names generalizing here with
    | nil =>
      intro h
      rw [walk_nil] at h
      rcases h with h | ⟨q, slash, h⟩ <;> cases h
    | cons name rest ih =>
      intro h
      rw [List.cons_append]
      rcases name_cases name with hskip | rfl | hplain | ⟨h1, h2, h3⟩
      · rw [walk_skip hskip] at h ⊢
        exact ih here h
      · rw [walk_up] at h ⊢
        exact ih _ h
      · rw [walk_plain hplain] at h ⊢
        split at h
        · split_ifs with hall
          · exact Or.inr ⟨_, _, rfl⟩
          · exact Or.inl rfl
        · exact ih _ h
        · -- A file is something, or no directory.
          split_ifs at h <;> rcases h with h | ⟨q, slash, h⟩ <;> cases h
        · split_ifs at h with hlast
          · rcases h with h | ⟨q, slash, h⟩ <;> cases h
          · have hmore : ((rest ++ [""]).isEmpty && !false) = false := by simp
            rw [hmore, if_neg Bool.false_ne_true]
            cases n with
            | zero => exact h
            | succ n =>
              dsimp only at h ⊢
              rw [← List.append_assoc]
              exact ihn n (Nat.lt_succ_self n) _ _ h
      · rw [walk_tooLong h1 h2 h3] at h
        rcases h with h | ⟨q, slash, h⟩ <;> cases h

/-- Where the last name of a path stands for nothing, nothing is at the path. -/
theorem kind_of_resolveName (h : EndsInNothing (t.resolveName current path)) :
    t.kind current path = .error .notFound := by
  have hresolve : EndsInNothing (t.resolve current false path) := by
    unfold resolve
    rcases namesOf_cases path with hnames | hnames <;> rw [hnames]
    · exact h
    · unfold resolveName resolveNames at h
      unfold resolveNames
      cases hfault : pathFault? path with
      | some f =>
        rw [hfault] at h
        exact h
      | none =>
        rw [hfault] at h
        exact walk_slash _ _ _ h
  unfold kind entryAt
  rcases hresolve with h | ⟨q, slash, h⟩ <;> rw [h] <;> rfl

/-- If a tree lacks entries, the last name of a path stands for what it stood for, or for nothing. -/
theorem Lacks.resolveName (hlacks : Lacks t t') {r : Found} (h : t.resolveName current path = .ok r) :
    t'.resolveName current path = .ok r ∨ EndsInNothing (t'.resolveName current path) := by
  have hfault := pathFault?_of_resolveNames h
  rw [FileTree.resolveName, resolveNames_eq hfault] at h
  rw [FileTree.resolveName, resolveNames_eq hfault]
  exact hlacks.walk _ _ _ h

/-- A directory that the last name of a path stands for is in the tree, unless that name is a dot or
leads up. -/
theorem get?_of_resolveName (h : t.resolveName current path = .ok (.entry p .directory))
    (hdot : lastName? path ≠ some ".") (hup : lastName? path ≠ some "..") :
    t.get? p = some .directory := by
  have hfault := pathFault?_of_resolveNames h
  have hne : path ≠ "" := (pathFault?_eq_none_iff.1 hfault).2.1
  rw [resolveName, resolveNames_eq hfault] at h
  unfold lastName? at hdot hup
  rcases List.eq_nil_or_concat (Path.parts path) with hparts | ⟨front, name, hparts⟩
  · rw [hparts, walk_nil, startOf, if_pos (Path.isAbsolute_of_parts hne hparts)] at h
    cases h
    exact get?_nil t
  · rw [List.concat_eq_append] at hparts
    rw [hparts, List.getLast?_concat] at hdot hup
    have hmem : name ∈ Path.parts path := by
      rw [hparts]
      simp
    have hempty : name ≠ "" := (Path.simple_of_mem_parts hmem).1
    have hall : [name].all (· == "") = false := by simpa using hempty
    rw [hparts] at h
    obtain ⟨m, d, -, hlast⟩ := reaches_of_walk_append h hall
    rcases name_cases name with (rfl | rfl) | rfl | hplain | ⟨h1, h2, h3⟩
    · exact absurd rfl hempty
    · exact absurd rfl hdot
    · exact absurd rfl hup
    · rw [walk_plain hplain] at hlast
      split at hlast
      · split_ifs at hlast
        cases hlast
      · next hthere =>
        rw [walk_nil] at hlast
        cases hlast
        exact hthere
      · cases hlast
      · cases hlast
    · rw [walk_tooLong h1 h2 h3] at hlast
      cases hlast

/-! ## Removals -/

/-- A link that is removed is gone. -/
theorem kind_erase_link {target : String} (h : t.entryAt current false path = .ok (q, .link target)) :
    (t.erase q).kind current path = .error .notFound := by
  have hq := (get?_of_entryAt_link h).1
  unfold kind
  rcases (lacks_erase t q).entryAt h with hsame | hgone
  · have hlink := (get?_of_entryAt_link hsame).2
    rw [get?_erase_self t hq] at hlink
    cases hlink
  · rw [hgone]
    rfl

/-- A directory that is removed is gone. -/
theorem kind_of_removeDirectory (h : t.removeDirectory current path = .ok t') :
    t'.kind current path = .error .notFound := by
  unfold removeDirectory at h
  rcases hr : t.resolveName current path with f | ⟨p, _ | _ | _⟩ | ⟨p, slash⟩ <;> rw [hr] at h
  · cases h
  · dsimp only [bind, Except.bind] at h
    split_ifs at h with hdot hup hroot hempty
    cases h
    have hp : p ≠ [] := by simpa using hroot
    refine kind_of_resolveName (((lacks_erase t p).resolveName hr).resolve_left fun hsame => ?_)
    have hthere := get?_of_resolveName hsame (by simpa using hdot) (by simpa using hup)
    rw [get?_erase_self t hp] at hthere
    cases hthere
  · cases h
  · cases h
  · cases h

/-- An emptied directory that is not found any more. -/
theorem endsInNothing_of_removeDirectory (h : t.removeDirectory current path = .error .notFound) :
    EndsInNothing (t.resolveName current path) := by
  unfold removeDirectory at h
  rcases hr : t.resolveName current path with f | ⟨p, _ | _ | _⟩ | ⟨p, slash⟩ <;> rw [hr] at h
  · cases h
    exact Or.inl rfl
  · dsimp only [bind, Except.bind] at h
    split_ifs at h <;> cases h
  · cases h
  · cases h
  · exact Or.inr ⟨p, slash, rfl⟩

/-- A removal that ends well, or that finds nothing, leaves nothing at its path. -/
theorem removeTree_gone (h : (t.removeTree current path).1 = .ok () ∨
    (t.removeTree current path).1 = .error .notFound) :
    (t.removeTree current path).2.kind current path = .error .notFound := by
  rcases hentry : t.entryAt current false path with f | ⟨q, _ | _ | target⟩
  · have hnone : t.removeTree current path = (.error f, t) := by
      unfold removeTree
      rw [hentry]
    rw [hnone] at h ⊢
    rcases h with h | h <;> cases h
    unfold kind
    rw [hentry]
    rfl
  · unfold removeTree at h ⊢
    rw [hentry] at h ⊢
    dsimp only at h ⊢
    cases hremoved : (t.eraseBelow q).removeDirectory current path with
    | ok t' => exact kind_of_removeDirectory hremoved
    | error f =>
      rw [hremoved] at h
      by_cases hf : f = .notFound
      · subst hf
        exact kind_of_resolveName (endsInNothing_of_removeDirectory hremoved)
      · exfalso
        split at h
        · next heq => exact hf (Except.error.inj heq)
        · rcases h with h | h
          · cases h
          · exact hf (Except.error.inj h)
  · have hfile : (t.removeTree current path).1 = .error .notDirectory := by
      unfold removeTree
      rw [hentry]
    rw [hfile] at h
    rcases h with h | h <;> cases h
  · rw [removeTree_link hentry]
    exact kind_erase_link hentry

end FileSystem.FileTree

end EmbeddedSolidity
