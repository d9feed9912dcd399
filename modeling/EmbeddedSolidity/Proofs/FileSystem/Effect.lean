import EmbeddedSolidity.FileSystem.Operation
import EmbeddedSolidity.Proofs.FileSystem.Path

/-!
# What operations change

Making directories adds directories where nothing was. Writing a file changes one place, which was
free or held a file. Removing a directory empties the place that its path leads to and perhaps
removes it; if a link is at the path, at most the link is removed.

* `FileTree.walk_found` : what a walk finds is in the tree;
* `FileTree.adds_makeDirectories`, `FileTree.write_eq_ok` : making directories and files;
* `FileTree.removeTree_directory`, `FileTree.removeTree_link`, `FileTree.removeTree_other` : removing
  directories.
-/

namespace EmbeddedSolidity.FileSystem.FileTree

variable {t t' : FileTree} {current p q : Place} {path : String} {e : Entry}

/-! ## What is found -/

/-- What a walk found is as the tree has it: a free place is in a directory. -/
def Holds (t : FileTree) (follow : Bool) : Found → Prop
  | .free q _ => q ≠ [] ∧ t.get? q = none ∧ t.get? q.dropLast = some .directory
  | .entry q e =>
    e ≠ .directory → q ≠ [] ∧ t.get? q = some e ∧ (follow = true → ∀ target, e ≠ .link target)

/-- What a walk finds is in the tree. -/
theorem walk_found (t : FileTree) (follow : Bool) {r : Found} :
    ∀ (n : Nat) (here : Place) (names : List String), t.walk follow n here names = .ok r →
      t.Holds follow r := by
  intro n
  induction n using Nat.strongRecOn with
  | ind n ihn =>
    intro here names
    induction names generalizing here with
    | nil =>
      intro h
      rw [walk_nil] at h
      cases h
      exact fun hne => absurd rfl hne
    | cons name rest ih =>
      intro h
      rcases name_cases name with hskip | rfl | hplain | ⟨h1, h2, h3⟩
      · rw [walk_skip hskip] at h
        exact ih here h
      · rw [walk_up] at h
        exact ih _ h
      · rw [walk_plain hplain] at h
        split at h
        · next hfree =>
          split_ifs at h with hparent
          cases h
          exact ⟨by simp, hfree, by simpa using hparent.1⟩
        · exact ih _ h
        · next hfile =>
          split_ifs at h
          cases h
          exact fun _ => ⟨by simp, hfile, fun _ => nofun⟩
        · next target hlink =>
          split_ifs at h with hlast
          · cases h
            rw [Bool.and_eq_true, Bool.not_eq_true'] at hlast
            exact fun _ => ⟨by simp, hlink, fun hfollow => by simp [hfollow] at hlast⟩
          · cases n with
            | zero => cases h
            | succ n => exact ihn n (Nat.lt_succ_self n) _ _ h
      · rw [walk_tooLong h1 h2 h3] at h
        cases h

theorem resolveNames_found {follow : Bool} {names : List String} {r : Found}
    (h : t.resolveNames current follow path names = .ok r) : t.Holds follow r := by
  rw [resolveNames_eq (pathFault?_of_resolveNames h)] at h
  exact walk_found t follow _ _ _ h

/-- A name at which a walk finds something is in a directory. -/
theorem directory_of_walk {follow : Bool} {n : Nat} {name : String} {rest : List String} {r : Found}
    (hwf : t.WellFormed) (hname : Plain name) (h : t.walk follow n p (name :: rest) = .ok r) :
    t.get? p = some .directory := by
  have hparent : ∀ e, t.get? (p ++ [name]) = some e → t.get? p = some .directory := fun e he => by
    simpa using hwf _ e (by simp) he
  rw [walk_plain hname] at h
  split at h
  · split_ifs at h with hfree
    exact hfree.1
  all_goals exact hparent _ ‹_›

/-! ## Making directories -/

/-- The tree has the other's entries, and directories where that has nothing. -/
structure Adds (t t' : FileTree) : Prop where
  keeps : Extends t t'
  only : ∀ q e, t'.get? q = some e → t.get? q = some e ∨ e = .directory
  wellFormed : t.WellFormed → t'.WellFormed

theorem Adds.refl (t : FileTree) : Adds t t :=
  ⟨.refl t, fun _ _ h => Or.inl h, id⟩

theorem Adds.trans {t'' : FileTree} (h : Adds t t') (h' : Adds t' t'') : Adds t t'' :=
  ⟨h.keeps.trans h'.keeps, fun q e he => (h'.only q e he).elim (h.only q e) Or.inr,
    h'.wellFormed ∘ h.wellFormed⟩

theorem adds_put (hq : q ≠ []) (hfree : t.get? q = none)
    (hparent : t.get? q.dropLast = some .directory) : Adds t (t.put q .directory) := by
  refine ⟨fun r e he => ?_, fun r e he => ?_, fun hwf => ?_⟩
  · have hr : r ≠ q := fun heq => by
      rw [heq, hfree] at he
      cases he
    rw [get?_put_of_ne t _ hr]
    exact he
  · by_cases hr : r = q
    · rw [hr, get?_put_self t _ hq] at he
      cases he
      exact Or.inr rfl
    · rw [get?_put_of_ne t _ hr] at he
      exact Or.inl he
  · exact hwf.put hq hparent (by rw [hfree]; nofun)

theorem adds_makeDirectory (h : t.makeDirectory current path = .ok t') : Adds t t' := by
  unfold makeDirectory at h
  rcases hr : t.resolveName current path with f | ⟨q, e⟩ | ⟨q, slash⟩ <;> rw [hr] at h <;> cases h
  obtain ⟨hq, hfree, hparent⟩ := resolveNames_found hr
  exact adds_put hq hfree hparent

theorem adds_climb (current : Place) : ∀ (paths waiting : List String) (t : FileTree),
    Adds t (climb current paths waiting t).2
  | [], _, t => .refl t
  | path :: rest, waiting, t => by
    unfold climb
    split
    · next h => exact adds_makeDirectory h
    · exact adds_climb current rest _ t
    · split <;> exact .refl t
    · exact .refl t

theorem adds_makeEach (current : Place) : ∀ (paths : List String) (t : FileTree),
    Adds t (makeEach current paths t).2
  | [], t => .refl t
  | path :: rest, t => by
    unfold makeEach
    split
    · next h => exact (adds_makeDirectory h).trans (adds_makeEach current rest _)
    · split
      · exact adds_makeEach current rest t
      · exact .refl t
    · exact .refl t

/-- Making all directories of a path adds directories. -/
theorem adds_makeDirectories (t : FileTree) (current : Place) (path : String) :
    Adds t (t.makeDirectories current path).2 := by
  unfold makeDirectories
  split_ifs
  · exact .refl t
  · have hclimb := adds_climb current (ancestors path) [] t
    split
    · next h =>
      rw [h] at hclimb
      exact hclimb.trans (adds_makeEach current _ _)
    · next h =>
      rw [h] at hclimb
      exact hclimb

/-! ## Writing -/

/-- What is found is the place for a file: nothing is there, or a file. -/
def Found.IsFor (q : Place) (r : Found) : Prop :=
  r = .free q false ∨ ∃ old executable, r = .entry q (.file old executable)

theorem isFor_free {r : Place} {slash : Bool} :
    Found.IsFor q (.free r slash) ↔ r = q ∧ slash = false := by
  constructor
  · rintro (h | ⟨_, _, h⟩)
    · exact Found.free.inj h
    · cases h
  · rintro ⟨rfl, rfl⟩
    exact Or.inl rfl

theorem isFor_entry {r : Place} :
    Found.IsFor q (.entry r e) ↔ r = q ∧ ∃ old executable, e = .file old executable := by
  constructor
  · rintro (h | ⟨old, executable, h⟩)
    · cases h
    · obtain ⟨rfl, rfl⟩ := Found.entry.inj h
      exact ⟨rfl, old, executable, rfl⟩
  · rintro ⟨rfl, old, executable, rfl⟩
    exact Or.inr ⟨old, executable, rfl⟩

/-- Directories are not for files. -/
theorem not_isFor_directory {r : Place} : ¬ Found.IsFor q (.entry r .directory) := fun h =>
  let ⟨_, _, _, he⟩ := isFor_entry.1 h
  nomatch he

/-- A file with the path is at the place, or would be. -/
def Targets (t : FileTree) (current : Place) (path : String) (q : Place) : Prop :=
  ∃ r, t.resolve current true path = .ok r ∧ Found.IsFor q r

/-- A file is written to the place that its path targets. -/
theorem write_eq_ok {content : ByteArray} (h : t.write current path content = .ok t') :
    ∃ q executable, t' = t.put q (.file content executable) ∧ t.Targets current path q := by
  unfold write at h
  split_ifs at h
  · rcases hr : t.resolveNames current true path _ with f | r <;> rw [hr] at h <;> cases h
  · rcases hr : t.resolve current true path with
      f | ⟨q, _ | ⟨old, executable⟩ | target⟩ | ⟨q, slash⟩ <;> rw [hr] at h
    · cases h
    · cases h
    · cases h
      exact ⟨q, executable, rfl, _, hr, Or.inr ⟨old, executable, rfl⟩⟩
    · exact absurd rfl ((resolveNames_found hr nofun).2.2 rfl target)
    · cases slash <;> cases h
      exact ⟨q, false, rfl, _, hr, Or.inl rfl⟩

/-- A file can be written to the place that its path targets. -/
theorem Targets.write (h : t.Targets current path q) (hslash : endsInSlash path = false)
    (content : ByteArray) :
    ∃ executable, t.write current path content = .ok (t.put q (.file content executable)) := by
  obtain ⟨r, hr, rfl | ⟨old, executable, rfl⟩⟩ := h
  · refine ⟨false, ?_⟩
    unfold FileTree.write
    rw [hslash, hr]
    rfl
  · refine ⟨executable, ?_⟩
    unfold FileTree.write
    rw [hslash, hr]
    rfl

/-- A walk to the place for a file finds the file there later. -/
theorem walk_written {content : ByteArray} {executable : Bool} {r : Found} (hr : Found.IsFor q r)
    (hkeeps : KeepsWays t t') (hq : t'.get? q = some (.file content executable)) :
    ∀ (n : Nat) (here : Place) (names : List String), t.walk true n here names = .ok r →
      t'.walk true n here names = .ok (.entry q (.file content executable)) := by
  intro n
  induction n using Nat.strongRecOn with
  | ind n ihn =>
    intro here names
    induction names generalizing here with
    | nil =>
      intro h
      rw [walk_nil] at h
      cases h
      exact absurd hr not_isFor_directory
    | cons name rest ih =>
      intro h
      rcases name_cases name with hskip | rfl | hplain | ⟨h1, h2, h3⟩
      · rw [walk_skip hskip] at h ⊢
        exact ih here h
      · rw [walk_up] at h ⊢
        exact ih _ h
      · rw [walk_plain hplain] at h ⊢
        split at h
        · split_ifs at h
          cases h
          obtain ⟨rfl, hslash⟩ := isFor_free.1 hr
          rw [hq]
          dsimp only
          rw [if_pos (by simpa using hslash)]
        · next hthere =>
          rw [hkeeps _ _ isWay_directory hthere]
          exact ih _ h
        · split_ifs at h with hlast
          cases h
          obtain ⟨rfl, -⟩ := isFor_entry.1 hr
          rw [hq]
          dsimp only
          rw [if_pos hlast]
        · next target hlink =>
          rw [hkeeps _ _ (isWay_link target) hlink]
          dsimp only at h ⊢
          rw [Bool.not_true, Bool.and_false, if_neg Bool.false_ne_true] at h ⊢
          cases n with
          | zero => cases h
          | succ n => exact ihn n (Nat.lt_succ_self n) _ _ h
      · rw [walk_tooLong h1 h2 h3] at h
        cases h

/-- A file is read at the place that its path targeted when it was written. -/
theorem Targets.entryAt {content : ByteArray} {executable : Bool} (h : t.Targets current path q)
    (hkeeps : KeepsWays t t') (hq : t'.get? q = some (.file content executable)) :
    t'.entryAt current true path = .ok (q, .file content executable) := by
  obtain ⟨r, hr, hfor⟩ := h
  have hfault := pathFault?_of_resolveNames hr
  rw [resolve, resolveNames_eq hfault] at hr
  unfold FileTree.entryAt resolve
  rw [resolveNames_eq hfault, walk_written hfor hkeeps hq _ _ _ hr]

/-- The place for a file is at its name, unless a link is there. -/
theorem Found.IsFor.at_name {r : Found} (h : Found.IsFor q r) {name : String} {n : Nat}
    (hname : Plain name) (hwalk : t.walk true n p [name] = .ok r) :
    q = p ++ [name] ∨ ∃ target, t.get? (p ++ [name]) = some (.link target) := by
  rw [walk_plain hname] at hwalk
  split at hwalk
  · split_ifs at hwalk
    cases hwalk
    exact Or.inl (isFor_free.1 h).1.symm
  · rw [walk_nil] at hwalk
    cases hwalk
    exact absurd h not_isFor_directory
  · cases hwalk
    exact Or.inl (isFor_entry.1 h).1.symm
  · next target hlink => exact Or.inr ⟨target, hlink⟩

/-- Where a file may be written: nothing or a file is there, in a directory. -/
def Writable (t : FileTree) (q : Place) : Prop :=
  q ≠ [] ∧ t.get? q.dropLast = some .directory ∧ ∀ e, t.get? q = some e → ¬ IsWay e

theorem Found.IsFor.writable {r : Found} (h : Found.IsFor q r) {follow : Bool}
    (hholds : t.Holds follow r) (hwf : t.WellFormed) : t.Writable q := by
  obtain rfl | ⟨old, executable, rfl⟩ := h
  · obtain ⟨hq, hfree, hparent⟩ := hholds
    exact ⟨hq, hparent, fun e he => by rw [hfree] at he; cases he⟩
  · obtain ⟨hq, hfile, -⟩ := hholds nofun
    refine ⟨hq, hwf _ _ hq hfile, fun e he hway => ?_⟩
    rw [hfile] at he
    cases he
    exact hway _ _ rfl

theorem Targets.writable (h : t.Targets current path q) (hwf : t.WellFormed) : t.Writable q := by
  obtain ⟨r, hr, hfor⟩ := h
  exact hfor.writable (resolveNames_found hr) hwf

theorem Writable.wellFormed {content : ByteArray} {executable : Bool} (h : t.Writable q)
    (hwf : t.WellFormed) : (t.put q (.file content executable)).WellFormed :=
  hwf.put h.1 h.2.1 fun hdirectory => h.2.2 _ hdirectory isWay_directory

/-- Writing a file leaves directories and links as they are. -/
theorem Writable.keepsWays {content : ByteArray} {executable : Bool} (h : t.Writable q) :
    KeepsWays t (t.put q (.file content executable)) := by
  intro r e hway he
  have hr : r ≠ q := fun heq => h.2.2 e (heq ▸ he) hway
  rw [get?_put_of_ne t _ hr]
  exact he

/-- The place that a path targets is neither a directory nor a link. -/
theorem Targets.not_way (h : t.Targets current path q) :
    q ≠ [] ∧ ∀ e, t.get? q = some e → ¬ IsWay e := by
  obtain ⟨r, hr, rfl | ⟨old, executable, rfl⟩⟩ := h
  · obtain ⟨hq, hfree, -⟩ := resolveNames_found hr
    exact ⟨hq, fun e he => by rw [hfree] at he; cases he⟩
  · obtain ⟨hq, hfile, -⟩ := resolveNames_found hr nofun
    refine ⟨hq, fun e he hway => ?_⟩
    rw [hfile] at he
    cases he
    exact hway _ _ rfl

/-- Writing a file to where its path leads keeps the ways. -/
theorem Targets.keepsWays {content : ByteArray} {executable : Bool}
    (h : t.Targets current path q) : KeepsWays t (t.put q (.file content executable)) := by
  intro r e hway he
  have hr : r ≠ q := fun heq => h.not_way.2 e (heq ▸ he) hway
  rw [get?_put_of_ne t _ hr]
  exact he

/-- A file that is written below a place changes nothing outside. -/
theorem sameOutside_put (h : Below p q) (e : Entry) : SameOutside p t (t.put q e) :=
  fun _ hr => get?_put_of_ne t e fun heq => hr (heq ▸ h)

theorem Unlinked.put {content : ByteArray} {executable : Bool} (h : Unlinked p t) (hq : q ≠ []) :
    Unlinked p (t.put q (.file content executable)) := by
  intro r target hr he
  by_cases heq : r = q
  · rw [heq, get?_put_self t _ hq] at he
    cases he
  · rw [get?_put_of_ne t _ heq] at he
    exact h r target hr he

/-! ## Removing -/

/-- Removing a file erases what its path stands for, which is no directory. -/
theorem removeFile_eq_ok (h : t.removeFile current path = .ok t') :
    ∃ q e, e ≠ .directory ∧ endsInSlash path = false ∧
      t.resolveName current path = .ok (.entry q e) ∧ t' = t.erase q := by
  unfold removeFile at h
  rcases hr : t.resolveName current path with f | ⟨q, e⟩ | ⟨q, slash⟩ <;> rw [hr] at h
  · cases h
  · dsimp only [bind, Except.bind] at h
    split at h
    · cases h
    · next hne heq =>
      cases heq
      split_ifs at h with hslash
      cases h
      exact ⟨q, e, fun he => hne (by rw [he]), by simpa using hslash, rfl, rfl⟩
    · cases h
  · cases h

/-- Removing an empty directory erases the place that its path leads to. -/
theorem removeDirectory_eq_ok (h : t.removeDirectory current path = .ok t') :
    ∃ m p, Leads t current path m p ∧ p ≠ [] ∧ t' = t.erase p := by
  unfold removeDirectory at h
  rcases hr : t.resolveName current path with f | ⟨p, _ | _ | _⟩ | ⟨p, slash⟩ <;> rw [hr] at h
  · cases h
  · dsimp only [bind, Except.bind] at h
    split_ifs at h with h1 h2 hroot hempty
    cases h
    have hfault := pathFault?_of_resolveNames hr
    rw [resolveName, resolveNames_eq hfault] at hr
    obtain ⟨m, hreach⟩ := reaches_of_walk hr
    exact ⟨m, p, ⟨hfault, hreach⟩, by simpa using hroot, rfl⟩
  · cases h
  · cases h
  · cases h

theorem keeping_snd (t : FileTree) (r : Except Fault FileTree) :
    (t.keeping r).2 = t ∨ ∃ t', r = .ok t' ∧ (t.keeping r).2 = t' := by
  cases r with
  | error f => exact Or.inl rfl
  | ok t' => exact Or.inr ⟨t', rfl, rfl⟩

/-- A directory at a path is emptied, and then perhaps removed. -/
theorem removeTree_directory (h : t.entryAt current false path = .ok (p, .directory)) :
    (t.removeTree current path).2 = t.eraseBelow p ∨
      p ≠ [] ∧ (t.removeTree current path).2 = (t.eraseBelow p).erase p := by
  obtain ⟨m, hleads⟩ := leads_of_entryAt h
  unfold removeTree
  rw [h]
  dsimp only
  split
  · exact Or.inl rfl
  · rcases keeping_snd (t.eraseBelow p) ((t.eraseBelow p).removeDirectory current path) with
      heq | ⟨t', hremoved, heq⟩
    · exact Or.inl heq
    · obtain ⟨m', p', hleads', hroot, rfl⟩ := removeDirectory_eq_ok hremoved
      obtain rfl := (hleads.unique (agree_eraseBelow t p) hleads').2
      exact Or.inr ⟨hroot, heq⟩

/-- If no directory is at a path, at most a link is removed. -/
theorem removeTree_other (h : ∀ p, t.entryAt current false path ≠ .ok (p, .directory)) :
    (t.removeTree current path).2 = t ∨
      ∃ q target, t.get? q = some (.link target) ∧ (t.removeTree current path).2 = t.erase q := by
  unfold removeTree
  split
  · exact Or.inl rfl
  · exact Or.inl rfl
  · next q target hentry =>
    rcases keeping_snd t (t.removeFile current path) with heq | ⟨t', hremoved, heq⟩
    · exact Or.inl heq
    · obtain ⟨r, e, hne, hslash, hname, rfl⟩ := removeFile_eq_ok hremoved
      have hresolve := resolve_of_entryAt hentry
      have hnames : namesOf path = Path.parts path := by
        unfold namesOf
        simp [hslash]
      rw [resolve, hnames] at hresolve
      rw [resolveName, hresolve] at hname
      cases hname
      have hfound := resolveNames_found hresolve (fun h => Entry.noConfusion h)
      exact Or.inr ⟨q, target, hfound.2.1, heq⟩
  · next hentry => exact absurd hentry (h _)

/-- Names that end in a link do not ask for a directory. -/
theorem getLast?_ne_of_walk_link {target : String} : ∀ (n : Nat) (here : Place)
    (names : List String), t.walk false n here names = .ok (.entry q (.link target)) →
      names.getLast? ≠ some "" := by
  intro n
  induction n using Nat.strongRecOn with
  | ind n ihn =>
    intro here names
    induction names generalizing here with
    | nil => exact fun _ => nofun
    | cons name rest ih =>
      intro h
      -- Something is behind the name if that stands for a directory.
      have hrest : ∀ here, t.walk false n here rest = .ok (.entry q (.link target)) →
          (name :: rest).getLast? ≠ some "" := fun here hwalk => by
        have hne : rest ≠ [] := fun hnil => by
          rw [hnil, walk_nil] at hwalk
          cases hwalk
        rw [List.getLast?_cons_of_ne_nil hne]
        exact ih here hwalk
      rcases name_cases name with hskip | rfl | hplain | ⟨h1, h2, h3⟩
      · rw [walk_skip hskip] at h
        exact hrest _ h
      · rw [walk_up] at h
        exact hrest _ h
      · rw [walk_plain hplain] at h
        split at h
        · split_ifs at h
          cases h
        · exact hrest _ h
        · split_ifs at h
          cases h
        · split_ifs at h with hlast
          · rw [Bool.not_false, Bool.and_true, List.isEmpty_iff] at hlast
            rw [hlast]
            exact fun hempty => hplain.1 (Option.some.inj hempty)
          · have hne : rest ≠ [] := fun hnil => hlast (by rw [hnil]; rfl)
            cases n with
            | zero => cases h
            | succ n =>
              have hjump := ihn n (Nat.lt_succ_self n) _ _ h
              rw [List.getLast?_append, List.getLast?_eq_some_getLast hne, Option.some_or] at hjump
              rw [List.getLast?_cons_of_ne_nil hne, List.getLast?_eq_some_getLast hne]
              exact hjump
      · rw [walk_tooLong h1 h2 h3] at h
        cases h

/-- A link at a path is removed. -/
theorem removeTree_link {target : String}
    (h : t.entryAt current false path = .ok (q, .link target)) :
    t.removeTree current path = (.ok (), t.erase q) := by
  have hresolve := resolve_of_entryAt h
  have hfault := pathFault?_of_resolveNames hresolve
  have hlast : (namesOf path).getLast? ≠ some "" := by
    rw [resolve, resolveNames_eq hfault] at hresolve
    exact getLast?_ne_of_walk_link _ _ _ hresolve
  have hnames : namesOf path = Path.parts path :=
    (namesOf_cases path).resolve_right fun heq => hlast (by rw [heq, List.getLast?_concat])
  have hname : t.resolveName current path = .ok (.entry q (.link target)) := by
    rw [resolveName, ← hnames]
    exact hresolve
  have hslash : endsInSlash path = false := by
    cases hslash : endsInSlash path with
    | false => rfl
    | true =>
      -- The names would end in the empty one, unless there are none.
      have hnil : Path.parts path = [] := by
        unfold namesOf at hnames
        dsimp only at hnames
        rw [hslash, Bool.true_and] at hnames
        split_ifs at hnames with hempty
        · exact absurd hnames (by simp)
        · simpa using hempty
      rw [resolveName, hnil, resolveNames_eq hfault, walk_nil] at hname
      cases hname
  unfold removeTree removeFile
  rw [h, hname]
  dsimp only [bind, Except.bind]
  rw [hslash, if_neg Bool.false_ne_true]
  rfl

/-- A link at a path is in the tree. -/
theorem get?_of_entryAt_link {target : String}
    (h : t.entryAt current false path = .ok (q, .link target)) :
    q ≠ [] ∧ t.get? q = some (.link target) :=
  have hfound := resolveNames_found (resolve_of_entryAt h) Entry.noConfusion
  ⟨hfound.1, hfound.2.1⟩

/-- Nothing is left of an emptied directory that is removed. -/
theorem WellFormed.emptied (hwf : t.WellFormed) (p : Place) :
    ((t.eraseBelow p).erase p).WellFormed :=
  (hwf.eraseBelow p).erase fun _ hq => get?_eraseBelow t hq

end EmbeddedSolidity.FileSystem.FileTree
