import EmbeddedSolidity.Proofs.FileSystem.Ancestors
import EmbeddedSolidity.Proofs.FileSystem.Partial

/-!
# Directories that are missing

A path may lead to a directory and then have names of which the first is free. Then nothing is at the
path, and all its directories can be made. When this stops half way, the path leads further than
before, and nothing else has changed.

* `FileTree.Stands` : the place that a path stands for, be the directories above it there or not;
* `FileTree.Ahead.makeDirectories` : the directories that are missing are made;
* `FileTree.Ahead.of_partly` : some of them are made.
-/

namespace EmbeddedSolidity.FileSystem.FileTree

variable {t t' : FileTree} {current here there d p q : Place} {path name : String} {n m : Nat}
  {names : List String}

/-! ## Dots on the way -/

theorem Reaches.dots {dots xs : List String} (h : Reaches t n here xs m there)
    (hdots : ∀ x ∈ dots, x = ".") : Reaches t n here (dots ++ xs) m there := by
  induction dots with
  | nil => exact h
  | cons x dots ih =>
    rw [List.forall_mem_cons] at hdots
    exact .skip (Or.inr hdots.1) (ih hdots.2)

theorem reaches_dots {dots : List String} (hdots : ∀ x ∈ dots, x = ".") : Reaches t n here dots n here :=
  List.append_nil dots ▸ Reaches.dots (.nil n here) hdots

/-- Dots do not change where names lead. -/
theorem Reaches.of_filter {xs ys : List String} (h : Reaches t n here xs m there)
    (hsame : ys.filter (· != ".") = xs.filter (· != ".")) : Reaches t n here ys m there := by
  -- The names up to the next one that is no dot are passed over.
  have hsplit : ∀ {name : String} {rest ys : List String}, name ≠ "." →
      ys.filter (· != ".") = (name :: rest).filter (· != ".") →
      ∃ dots ys', ys = dots ++ name :: ys' ∧ (∀ x ∈ dots, x = ".") ∧
        ys'.filter (· != ".") = rest.filter (· != ".") := by
    intro name rest ys hname hsame
    rw [List.filter_cons_of_pos (by simpa using hname)] at hsame
    obtain ⟨dots, ys', rfl, hdots, -, hrest⟩ := List.filter_eq_cons_iff.1 hsame
    exact ⟨dots, ys', rfl, by simpa using hdots, hrest⟩
  induction h generalizing ys with
  | nil =>
    have hdots := List.filter_eq_nil_iff.1 hsame
    exact reaches_dots (by simpa using hdots)
  | @skip _ _ _ _ name rest hskip _ ih =>
    by_cases hdot : name = "."
    · subst hdot
      exact ih hsame
    · obtain ⟨dots, ys', rfl, hdots, hrest⟩ := hsplit hdot hsame
      exact Reaches.dots (.skip hskip (ih hrest)) hdots
  | up _ ih =>
    obtain ⟨dots, ys', rfl, hdots, hrest⟩ := hsplit (by decide) hsame
    exact Reaches.dots (.up (ih hrest)) hdots
  | down hplain hthere _ ih =>
    obtain ⟨dots, ys', rfl, hdots, hrest⟩ := hsplit hplain.2.1 hsame
    exact Reaches.dots (.down hplain hthere (ih hrest)) hdots
  | link hplain hthere _ ih =>
    obtain ⟨dots, ys', rfl, hdots, hrest⟩ := hsplit hplain.2.1 hsame
    refine Reaches.dots (.link hplain hthere (ih ?_)) hdots
    rw [List.filter_append, List.filter_append, hrest]

/-! ## Names behind a directory -/

/-- The path leads to the directory `d` and then has the names `names`; dots between these do not
count. -/
structure Spells (t : FileTree) (current : Place) (m : Nat) (d : Place) (path : String)
    (names : List String) : Prop where
  fault : pathFault? path = none
  reaches : ∃ front tail, Path.parts path = front ++ tail ∧ tail.filter (· != ".") = names ∧
    tail.getLast? ≠ some "." ∧ Reaches t maxLinks (startOf current path) front m d

theorem Spells.mono (h : Spells t current m d path names) (hkeeps : KeepsWays t t') :
    Spells t' current m d path names :=
  let ⟨front, tail, hparts, hnames, hlast, hreach⟩ := h.reaches
  ⟨h.fault, front, tail, hparts, hnames, hlast, hreach.mono hkeeps⟩

/-- The dots before the first name lead to the directory as well. -/
theorem Spells.exists_first (h : Spells t current m d path (name :: names)) :
    ∃ front tail, Path.parts path = front ++ name :: tail ∧ tail.filter (· != ".") = names ∧
      tail.getLast? ≠ some "." ∧ Reaches t maxLinks (startOf current path) front m d := by
  obtain ⟨front, tail, hparts, hnames, hlast, hreach⟩ := h.reaches
  obtain ⟨dots, tail, rfl, hdots, -, hrest⟩ := List.filter_eq_cons_iff.1 hnames
  refine ⟨front ++ dots, tail, by rw [hparts, List.append_assoc], hrest, ?_,
    hreach.append (reaches_dots (by simpa using hdots))⟩
  rw [List.getLast?_append_of_ne_nil _ (List.cons_ne_nil _ _)] at hlast
  cases tail with
  | nil => nofun
  | cons x tail => exact hlast

/-- The first name is that of a directory. -/
theorem Spells.down (h : Spells t current m d path (name :: names)) (hplain : Plain name)
    (hthere : t.get? (d ++ [name]) = some .directory) :
    Spells t current m (d ++ [name]) path names := by
  obtain ⟨front, tail, hparts, hnames, hlast, hreach⟩ := h.exists_first
  refine ⟨h.fault, front ++ [name], tail, ?_, hnames, hlast,
    hreach.append (.down hplain hthere (.nil _ _))⟩
  rw [hparts, List.append_assoc, List.singleton_append]

/-- If no name is behind the last one, nothing is. -/
theorem eq_nil_of_filter {tail : List String} (hnames : tail.filter (· != ".") = [])
    (hlast : tail.getLast? ≠ some ".") : tail = [] := by
  by_contra hne
  obtain ⟨tail, last, rfl⟩ := List.eq_nil_or_concat tail |>.resolve_left hne
  have hdot : last = "." := by simpa using List.filter_eq_nil_iff.1 hnames last (by simp)
  exact hlast (by rw [hdot, List.concat_eq_append, List.getLast?_concat])

/-- Behind the last name are no dots. -/
theorem Spells.named (h : Spells t current m d path [name]) (hplain : Plain name)
    (hdirectory : t.get? d = some .directory) : Names t current path m d name := by
  obtain ⟨front, tail, hparts, hnames, hlast, hreach⟩ := h.exists_first
  obtain rfl := eq_nil_of_filter hnames hlast
  exact ⟨h.fault, hplain, hdirectory, front, hparts, hreach⟩

/-- The directory of a free name can be made. -/
theorem Spells.makeDirectory_free (h : Spells t current m d path [name]) (hplain : Plain name)
    (hdirectory : t.get? d = some .directory) (hfree : t.get? (d ++ [name]) = none) :
    t.makeDirectory current path = .ok (t.put (d ++ [name]) .directory) :=
  makeDirectory_of_free
    ((h.named hplain hdirectory).resolveName.trans (walk_free hplain hdirectory hfree))

/-- Nothing is at a path with a free name. -/
theorem Spells.entryAt_free (h : Spells t current m d path (name :: names)) (hplain : Plain name)
    (hfree : t.get? (d ++ [name]) = none) (follow : Bool) :
    t.entryAt current follow path = .error .notFound := by
  obtain ⟨front, tail, hparts, -, -, hreach⟩ := h.exists_first
  have hwalk : ∀ rest, t.walk follow maxLinks (startOf current path) (front ++ name :: rest) =
      .error .notFound ∨ ∃ slash, t.walk follow maxLinks (startOf current path) (front ++ name :: rest) =
        .ok (.free (d ++ [name]) slash) := fun rest => by
    rw [walk_append hreach (Or.inl (List.cons_ne_nil _ _)), walk_plain hplain, hfree]
    dsimp only
    split_ifs
    · exact Or.inr ⟨_, rfl⟩
    · exact Or.inl rfl
  unfold FileTree.entryAt resolve
  rw [resolveNames_eq h.fault]
  rcases namesOf_cases path with hnames | hnames <;> rw [hnames, hparts]
  · rcases hwalk tail with hw | ⟨slash, hw⟩ <;> rw [hw]
  · rw [List.append_assoc, List.cons_append]
    rcases hwalk (tail ++ [""]) with hw | ⟨slash, hw⟩ <;> rw [hw]

/-- A directory is not made below one that is missing. -/
theorem Spells.makeDirectory_missing (h : Spells t current m d path (name :: names))
    (hplain : Plain name) (hnames : names ≠ []) (hrest : ∀ name ∈ names, Plain name)
    (hfree : t.get? (d ++ [name]) = none) : t.makeDirectory current path = .error .notFound := by
  obtain ⟨front, tail, hparts, htail, -, hreach⟩ := h.exists_first
  obtain ⟨next, names, rfl⟩ := List.exists_cons_of_ne_nil hnames
  have hnext : next ∈ tail := List.mem_of_mem_filter (htail ▸ List.mem_cons_self)
  have hasks : tail.all (· == "") = false := by
    rw [List.all_eq_false]
    exact ⟨next, hnext, by simpa using (hrest next List.mem_cons_self).1⟩
  have hresolve : t.resolveName current path = .error .notFound := by
    rw [FileTree.resolveName, resolveNames_eq h.fault, hparts,
      walk_append hreach (Or.inl (List.cons_ne_nil _ _)), walk_plain hplain, hfree]
    dsimp only
    rw [if_neg (by rw [hasks]; simp)]
  unfold makeDirectory
  rw [hresolve]
  rfl

/-! ## Making the directories that are missing -/

/-- Directories, each in the one before it. -/
def made : FileTree → Place → List String → FileTree
  | t, _, [] => t
  | t, d, name :: names => made (t.put (d ++ [name]) .directory) (d ++ [name]) names

/-- The path leads to the directory `d` and then has names of which the first is free. -/
structure Ahead (t : FileTree) (current : Place) (path : String) (m : Nat) (d : Place)
    (names : List String) : Prop where
  spells : Spells t current m d path names
  plain : ∀ name ∈ names, Plain name
  directory : t.get? d = some .directory
  free : ∀ name ∈ names.head?, t.get? (d ++ [name]) = none

theorem Ahead.mono (h : Ahead t current path m d names) (hsame : ∀ q, t'.get? q = t.get? q) :
    Ahead t' current path m d names :=
  ⟨h.spells.mono fun q _ _ he => (hsame q).trans he, h.plain, (hsame d).trans h.directory,
    fun name hname => (hsame _).trans (h.free name hname)⟩

/-- The first directory is made. -/
theorem WellFormed.put_free (hwf : t.WellFormed) (hdirectory : t.get? d = some .directory)
    (hfree : t.get? (d ++ [name]) = none) : (t.put (d ++ [name]) .directory).WellFormed := by
  refine hwf.put (concat_ne_nil d name) ?_ (by rw [hfree]; nofun)
  rwa [List.dropLast_concat]

theorem keepsWays_put (hfree : t.get? p = none) (e : Entry) : KeepsWays t (t.put p e) := by
  intro q _ _ he
  have hq : q ≠ p := fun heq => by
    rw [heq, hfree] at he
    cases he
  exact (get?_put_of_ne t e hq).trans he

theorem Ahead.first (h : Ahead t current path m d (name :: names)) : t.get? (d ++ [name]) = none :=
  h.free name rfl

/-- The other names stand ahead when the directory of the first has been made. -/
theorem Ahead.down (h : Ahead t current path m d (name :: names)) (hwf : t.WellFormed) :
    Ahead (t.put (d ++ [name]) .directory) current path m (d ++ [name]) names := by
  have hthere := get?_put_self t .directory (concat_ne_nil d name)
  obtain ⟨hname, hnames⟩ := List.forall_mem_cons.1 h.plain
  refine ⟨(h.spells.mono (keepsWays_put h.first _)).down hname hthere, hnames, hthere,
    fun next _ => ?_⟩
  rw [get?_put_of_ne t _ (below_append _ next []).2]
  exact (hwf.cut h.first).free _ (List.prefix_append _ _)

/-- Paths for all the directories, outermost first. -/
theorem makeEach_made {paths : List String} (hwf : t.WellFormed)
    (h : Ahead t current path m d names)
    (hpaths : List.Forall₂ (Spells t current m d) paths names.inits.tail) :
    makeEach current paths t = (.ok (), t.made d names) := by
  induction names generalizing t d paths with
  | nil =>
    cases hpaths
    rfl
  | cons name names ih =>
    obtain ⟨hname, -⟩ := List.forall_mem_cons.1 h.plain
    rw [tail_inits_cons] at hpaths
    obtain ⟨q, qs, hq, hqs, rfl⟩ := List.forall₂_cons_right_iff.1 hpaths
    have hdown : List.Forall₂ (Spells (t.put (d ++ [name]) .directory) current m (d ++ [name])) qs
        names.inits.tail :=
      (List.forall₂_map_right_iff.1 hqs).imp fun _ _ hspells =>
        (hspells.mono (keepsWays_put h.first _)).down hname
          (get?_put_self t .directory (concat_ne_nil d name))
    unfold makeEach
    rw [hq.makeDirectory_free hname h.directory h.first]
    exact ih (hwf.put_free h.directory h.first) (h.down hwf) hdown

theorem climb_missing {missing rest waiting : List String}
    (h : ∀ q ∈ missing, t.makeDirectory current q = .error .notFound) :
    climb current (missing ++ rest) waiting t = climb current rest (missing.reverse ++ waiting) t := by
  induction missing generalizing waiting with
  | nil => rfl
  | cons q missing ih =>
    obtain ⟨hq, hmissing⟩ := List.forall_mem_cons.1 h
    rw [List.cons_append, climb, hq]
    dsimp only
    rw [ih hmissing, List.reverse_cons, List.append_assoc, List.singleton_append]

/-- What shortens the path leads to the directory as well. -/
theorem Spells.of_shortens {front ns : List String} {q : String} (hfault : pathFault? path = none)
    (hreach : Reaches t maxLinks (startOf current path) front m d) (h : Shortens path front q ns) :
    Spells t current m d q ns := by
  obtain ⟨front', hparts, hsame⟩ := h.names
  have hstart : startOf current q = startOf current path := by
    unfold startOf
    rw [h.absolute]
  have hdots : ∀ name ∈ ns, name ≠ "." := fun name hname => (h.plain name hname).2.1
  refine ⟨h.fault hfault, front', ns, hparts, List.filter_eq_self.2 (by simpa using hdots),
    fun hlast => hdots _ (List.mem_of_getLast? hlast) rfl, ?_⟩
  rw [hstart]
  exact hreach.of_filter hsame

/-- A path with plain names behind a directory ends in a plain name. -/
theorem Spells.exists_last (h : Spells t current m d path names) (hplain : ∀ name ∈ names, Plain name)
    (hne : names ≠ []) : ∃ front last, Path.parts path = front ++ [last] ∧ Plain last := by
  obtain ⟨front, tail, hparts, hnames, hlast, -⟩ := h.reaches
  obtain ⟨tail, last, rfl⟩ := List.eq_nil_or_concat tail |>.resolve_left (by
    rintro rfl
    exact hne hnames.symm)
  rw [List.concat_eq_append] at hparts hnames hlast
  refine ⟨front ++ tail, last, by rw [hparts, List.append_assoc], hplain last ?_⟩
  rw [List.getLast?_concat] at hlast
  rw [← hnames, List.mem_filter]
  exact ⟨by simp, by simpa using hlast⟩

theorem exists_of_forall₂ {α β : Type} {R : α → β → Prop} {xs : List α} {ys : List β}
    (h : List.Forall₂ R xs ys) {x : α} (hx : x ∈ xs) : ∃ y ∈ ys, R x y := by
  induction h with
  | nil => cases hx
  | cons hR _ ih =>
    rcases List.mem_cons.1 hx with rfl | hx
    · exact ⟨_, List.mem_cons_self, hR⟩
    · exact (ih hx).imp fun y hy => ⟨List.mem_cons_of_mem _ hy.1, hy.2⟩

/-- All directories of the path are made. -/
theorem Ahead.makeDirectories (h : Ahead t current path m d names) (hwf : t.WellFormed)
    (hne : names ≠ []) : t.makeDirectories current path = (.ok (), t.made d names) := by
  obtain ⟨front, tail, hparts, hnames, -, hreach⟩ := h.spells.reaches
  obtain ⟨paths, above, hancestors, hshortens⟩ := exists_ancestors hparts hnames h.plain hne
  have hall : List.Forall₂ (Spells t current m d) (paths ++ [path]) names.inits.tail := by
    rw [tail_inits hne]
    exact List.rel_append (hshortens.imp fun _ _ => .of_shortens h.spells.fault hreach)
      (.cons h.spells .nil)
  have hmade := makeEach_made hwf h hall
  have hancestors' : ancestors path = (paths ++ [path]).reverse ++ above := by
    rw [hancestors, List.reverse_append]
    rfl
  -- The outermost directory can be made, the others wait for it.
  obtain ⟨name, names, rfl⟩ := List.exists_cons_of_ne_nil hne
  obtain ⟨hname, hnames'⟩ := List.forall_mem_cons.1 h.plain
  rw [tail_inits_cons] at hall
  obtain ⟨q, qs, hq, hqs, heq⟩ := List.forall₂_cons_right_iff.1 hall
  have hmake := hq.makeDirectory_free hname h.directory h.first
  have hmissing : ∀ q' ∈ qs, t.makeDirectory current q' = .error .notFound := fun q' hq' => by
    obtain ⟨ns, hns, hspells⟩ := exists_of_forall₂ (List.forall₂_map_right_iff.1 hqs) hq'
    have hbegins := (List.mem_inits ns names).1 (List.mem_of_mem_tail hns)
    exact hspells.makeDirectory_missing hname (ne_nil_of_mem_tail_inits hns)
      (fun next hnext => hnames' next (hbegins.subset hnext)) h.first
  obtain ⟨front', last, hlast, hplain⟩ := h.spells.exists_last h.plain hne
  unfold FileTree.makeDirectories
  rw [isEmpty_of_parts hlast, isSome_parent? hlast hplain, Bool.or_false, if_neg Bool.false_ne_true,
    hancestors', heq, List.reverse_cons, List.append_assoc,
    climb_missing (fun q' hq' => hmissing q' (List.mem_reverse.1 hq')), List.reverse_reverse,
    List.append_nil, List.singleton_append, climb, hmake]
  rw [heq, makeEach, hmake] at hmade
  exact hmade

/-! ## What is at a path with a free name -/

theorem Ahead.entryAt (h : Ahead t current path m d names) (hne : names ≠ []) (follow : Bool) :
    t.entryAt current follow path = .error .notFound := by
  obtain ⟨name, names, rfl⟩ := List.exists_cons_of_ne_nil hne
  exact h.spells.entryAt_free (h.plain name List.mem_cons_self) h.first follow

theorem Ahead.kind (h : Ahead t current path m d names) (hne : names ≠ []) :
    t.kind current path = .error .notFound := by
  unfold FileTree.kind
  rw [h.entryAt hne]
  rfl

theorem Ahead.removeTree (h : Ahead t current path m d names) (hne : names ≠ []) :
    t.removeTree current path = (.error .notFound, t) := by
  unfold FileTree.removeTree
  rw [h.entryAt hne]

theorem Ahead.get? (h : Ahead t current path m d names) (hwf : t.WellFormed) (hne : names ≠ []) :
    t.get? (d ++ names) = none := by
  obtain ⟨name, names, rfl⟩ := List.exists_cons_of_ne_nil hne
  refine (hwf.cut h.first).free _ ?_
  rw [← List.singleton_append (l := names), ← List.append_assoc]
  exact List.prefix_append _ _

/-! ## The place that a path stands for -/

/-- The path denotes its place, or does so as soon as the directories above it have been made. -/
inductive Stands (t : FileTree) (current : Place) (path : String) : Place → Prop where
  | denotes {m : Nat} {d : Place} {name : String} : Denotes t current path m d name →
    Stands t current path (d ++ [name])
  | ahead {m : Nat} {d : Place} {names : List String} : names ≠ [] →
    Ahead t current path m d names → Stands t current path (d ++ names)

/-- What is there is denoted. -/
theorem Stands.exists_denotes (h : Stands t current path p) (hwf : t.WellFormed)
    (hthere : t.get? p ≠ none) : ∃ m d name, p = d ++ [name] ∧ Denotes t current path m d name := by
  cases h with
  | denotes hd => exact ⟨_, _, _, rfl, hd⟩
  | ahead hne h => exact absurd (h.get? hwf hne) hthere

theorem Ahead.named (h : Ahead t current path m d [name]) : Names t current path m d name :=
  h.spells.named (h.plain name List.mem_cons_self) h.directory

/-- A free name stands ahead. -/
theorem Names.ahead (h : Names t current path m d name) (hfree : t.get? (d ++ [name]) = none) :
    Ahead t current path m d [name] := by
  obtain ⟨front, hparts, hreach⟩ := h.reaches
  have hdot : name ≠ "." := h.plain.2.1
  refine ⟨⟨h.fault, front, [name], hparts, ?_, by simpa using hdot, hreach⟩, by simpa using h.plain,
    h.directory, by simpa using hfree⟩
  rw [List.filter_cons_of_pos (by simpa using hdot), List.filter_nil]

/-- When the directories above it have been made, the path names its place. -/
theorem Ahead.exists_parent (h : Ahead t current path m d names) (hwf : t.WellFormed)
    (hne : names ≠ []) :
    ∃ t' d' name, d ++ names = d' ++ [name] ∧ t'.WellFormed ∧ Names t' current path m d' name ∧
      t'.get? (d' ++ [name]) = none ∧ t.made d names = t'.put (d' ++ [name]) .directory := by
  induction names generalizing t d with
  | nil => exact absurd rfl hne
  | cons name names ih =>
    cases names with
    | nil => exact ⟨t, d, name, rfl, hwf, h.named, h.first, rfl⟩
    | cons next names =>
      obtain ⟨t', d', last, hplace, hrest⟩ :=
        ih (h.down hwf) (hwf.put_free h.directory h.first) (List.cons_ne_nil _ _)
      rw [List.append_assoc, List.singleton_append] at hplace
      exact ⟨t', d', last, hplace, hrest⟩

/-- Nothing or an empty directory is at the place. -/
def Vacant (p : Place) (t : FileTree) : Prop :=
  t.get? p = none ∨ t.get? p = some .directory ∧ ∀ q, Below p q → t.get? q = none

theorem sameApart_made (t : FileTree) (d : Place) (name : String) (names : List String) :
    SameApart (d ++ [name]) t (t.made d (name :: names)) := by
  induction names generalizing t d name with
  | nil => exact sameApart_put (List.prefix_refl _) _
  | cons next names ih =>
    have hrest := ih (t.put (d ++ [name]) .directory) (d ++ [name]) next
    refine (sameApart_put (List.prefix_refl _) _).trans fun q hq => hrest q fun hbegins => hq ?_
    exact (List.prefix_append _ _).trans hbegins

theorem get?_made_first (t : FileTree) (d : Place) (name : String) (names : List String) :
    (t.made d (name :: names)).get? (d ++ [name]) = some .directory := by
  have hthere := get?_put_self t .directory (concat_ne_nil d name)
  cases names with
  | nil => exact hthere
  | cons next names =>
    refine (sameApart_made _ (d ++ [name]) next names _ fun hbegins => ?_).trans hthere
    exact absurd hbegins.length_le (by simp)

/-- The first directory has been made, or none. -/
theorem Ahead.same_or_first (h : Ahead t current path m d (name :: names)) (hwf : t.WellFormed)
    (hpartly : Partly t (t.made d (name :: names)) t') :
    (∀ q, t'.get? q = t.get? q) ∨ t'.get? (d ++ [name]) = some .directory ∧
      Partly (t.put (d ++ [name]) .directory) (t.made d (name :: names)) t' := by
  have hsame := hpartly.sameApart (sameApart_made t d name names)
  rcases hpartly.either (d ++ [name]) with hgone | hmade
  · rw [h.first] at hgone
    refine Or.inl fun q => ?_
    by_cases hq : d ++ [name] <+: q
    · rw [(hpartly.wellFormed.cut hgone).free q hq, (hwf.cut h.first).free q hq]
    · exact hsame q hq
  · have hthere := hmade.trans (get?_made_first t d name names)
    refine Or.inr ⟨hthere, fun q => ?_, hpartly.wellFormed⟩
    by_cases hq : q = d ++ [name]
    · rw [hq, get?_put_self t _ (concat_ne_nil d name)]
      exact Or.inl hthere
    · rw [get?_put_of_ne t _ hq]
      exact hpartly.either q

/-- Some of the directories have been made. -/
theorem Ahead.of_partly (h : Ahead t current path m d names) (hwf : t.WellFormed) (hne : names ≠ [])
    (hpartly : Partly t (t.made d names) t') :
    Stands t' current path (d ++ names) ∧ Vacant (d ++ names) t' := by
  induction names generalizing t d with
  | nil => exact absurd rfl hne
  | cons name names ih =>
    rcases h.same_or_first hwf hpartly with hsame | ⟨hthere, hrest⟩
    · have h' := h.mono hsame
      exact ⟨.ahead hne h', Or.inl (h'.get? hpartly.wellFormed hne)⟩
    cases names with
    | nil =>
      refine ⟨.denotes ((h.named.denotes hwf h.first).congr (hpartly.sameApart
        (sameApart_made t d name []))), Or.inr ⟨hthere, fun q hq => ?_⟩⟩
      have hfree : (t.put (d ++ [name]) .directory).get? q = none :=
        (get?_put_of_ne t _ hq.2).trans ((hwf.cut h.first).free q hq.1)
      exact (hrest.either q).elim (fun he => he.trans hfree) fun he => he.trans hfree
    | cons next names =>
      have hnext := ih (h.down hwf) (hwf.put_free h.directory h.first) (List.cons_ne_nil _ _) hrest
      rwa [List.append_assoc, List.singleton_append] at hnext

end EmbeddedSolidity.FileSystem.FileTree
