import EmbeddedSolidity.Proofs.FileSystem.Apart
import EmbeddedSolidity.Proofs.FileSystem.Missing

/-!
# Directories that may be there already

A path may lead to a directory and then have plain names, of which some stand for directories and the
others for nothing. Making all directories of the path makes those that are missing, whoever has made
the others. So two runs may make a directory that lies above those of both. A file in the place of one
of the directories is in the way.

* `FileTree.fill`, `FileTree.Apart.fill` : the missing directories, made alike in trees that are alike;
* `FileTree.Points.makeDirectories_cases` : making all directories of a path.
-/

namespace EmbeddedSolidity.FileSystem.FileTree

variable {t t' : FileTree} {current d p q : Place} {path name : String} {names : List String} {m : Nat}
  {Y : Set Place}

/-- A directory, unless something is there. -/
def putMissing (t : FileTree) (p : Place) : FileTree :=
  match t.get? p with
  | none => t.put p .directory
  | some _ => t

/-- Directories, each in the one before it, where nothing is. -/
def fill : FileTree → Place → List String → FileTree
  | t, _, [] => t
  | t, d, name :: names => fill (t.putMissing (d ++ [name])) (d ++ [name]) names

theorem putMissing_of_none (h : t.get? p = none) : t.putMissing p = t.put p .directory := by
  unfold putMissing
  rw [h]

theorem putMissing_of_some {e : Entry} (h : t.get? p = some e) : t.putMissing p = t := by
  unfold putMissing
  rw [h]

theorem get?_putMissing_of_ne (t : FileTree) (h : q ≠ p) : (t.putMissing p).get? q = t.get? q := by
  unfold putMissing
  split
  · exact get?_put_of_ne t _ h
  · rfl

/-! ## Trees that are alike -/

theorem Apart.putMissing (h : Apart Y t t') (p : Place) :
    Apart Y (t.putMissing p) (t'.putMissing p) := by
  have hinside : p ∈ Y → ∀ t : FileTree, Apart Y t (t.putMissing p) := by
    intro hp t
    unfold FileTree.putMissing
    split
    · exact apart_put t _ hp
    · exact .refl Y t
  by_cases hp : p ∈ Y
  · exact (hinside hp t).symm.trans (h.trans (hinside hp t'))
  · unfold FileTree.putMissing
    rw [h.get? hp]
    split
    · exact h.put p .directory
    · exact h

/-- The missing directories of a chain are made alike, although in the one tree more of them may be
missing than in the other. -/
theorem Apart.fill (h : Apart Y t t') (d : Place) (names : List String) :
    Apart Y (t.fill d names) (t'.fill d names) := by
  induction names generalizing t t' d with
  | nil => exact h
  | cons name names ih => exact ih (h.putMissing _) _

/-- Only what is missing is made. -/
theorem apart_fill (t : FileTree) (d : Place) (names : List String)
    (hY : ∀ xs, xs ≠ [] → xs <+: names → t.get? (d ++ xs) = none → d ++ xs ∈ Y) :
    Apart Y t (t.fill d names) := by
  induction names generalizing t d with
  | nil => exact .refl Y t
  | cons name names ih =>
    have hfirst : Apart Y t (t.putMissing (d ++ [name])) := by
      unfold putMissing
      split
      · next hnone =>
        exact apart_put t _ (hY [name] (List.cons_ne_nil _ _) (List.prefix_append _ names) hnone)
      · exact .refl Y t
    refine hfirst.trans (ih _ _ fun xs hne hfront hnone => ?_)
    have hplace : d ++ [name] ++ xs = d ++ name :: xs := List.append_assoc _ _ _
    have hother : d ++ [name] ++ xs ≠ d ++ [name] := fun heq =>
      hne (List.append_right_eq_self.1 heq)
    rw [get?_putMissing_of_ne t hother] at hnone
    rw [hplace] at hnone ⊢
    exact hY _ (List.cons_ne_nil _ _) (List.cons_prefix_cons.2 ⟨rfl, hfront⟩) hnone

/-- No place of the chain is taken by anything but a directory. -/
def Passable (t : FileTree) (d : Place) (names : List String) : Prop :=
  ∀ xs, xs <+: names → ∀ e, t.get? (d ++ xs) = some e → e = .directory

theorem Passable.down (h : Passable t d (name :: names)) :
    Passable (t.putMissing (d ++ [name])) (d ++ [name]) names := by
  intro xs hfront e he
  have hplace : d ++ [name] ++ xs = d ++ name :: xs := List.append_assoc _ _ _
  have hchain : name :: xs <+: name :: names := List.cons_prefix_cons.2 ⟨rfl, hfront⟩
  unfold putMissing at he
  split at he
  · by_cases heq : d ++ [name] ++ xs = d ++ [name]
    · rw [heq, get?_put_self t _ (concat_ne_nil d name)] at he
      exact (Option.some.inj he).symm
    · rw [get?_put_of_ne t _ heq, hplace] at he
      exact h _ hchain e he
  · rw [hplace] at he
    exact h _ hchain e he

/-- The last place of a chain that is made is a directory. -/
theorem get?_fill (t : FileTree) (hd : t.get? d = some .directory) (h : Passable t d names) :
    (t.fill d names).get? (d ++ names) = some .directory := by
  induction names generalizing t d with
  | nil => rwa [List.append_nil]
  | cons name names ih =>
    have hplace : d ++ name :: names = d ++ [name] ++ names := (List.append_assoc _ [name] _).symm
    rw [hplace]
    refine ih _ ?_ h.down
    cases hthere : t.get? (d ++ [name]) with
    | none => rw [putMissing_of_none hthere, get?_put_self t _ (concat_ne_nil d name)]
    | some e =>
      rw [putMissing_of_some hthere, hthere,
        h [name] (List.cons_prefix_cons.2 ⟨rfl, List.nil_prefix⟩) e hthere]

/-! ## Paths with plain names behind a directory -/

/-- The path leads to the directory `d` and then has the plain names `names`, if any. -/
structure Points (t : FileTree) (current : Place) (path : String) (m : Nat) (d : Place)
    (names : List String) : Prop where
  spells : Spells t current m d path names
  plain : ∀ name ∈ names, Plain name
  directory : t.get? d = some .directory

theorem Points.mono (h : Points t current path m d names) (hkeeps : KeepsWays t t') :
    Points t' current path m d names :=
  ⟨h.spells.mono hkeeps, h.plain, hkeeps d _ isWay_directory h.directory⟩

/-- The names behind a directory. -/
theorem Points.down (h : Points t current path m d (name :: names))
    (hthere : t.get? (d ++ [name]) = some .directory) : Points t current path m (d ++ [name]) names :=
  ⟨h.spells.down (h.plain name List.mem_cons_self) hthere,
    fun next hnext => h.plain next (List.mem_cons_of_mem _ hnext), hthere⟩

theorem Points.named (h : Points t current path m d [name]) : Names t current path m d name :=
  h.spells.named (h.plain name List.mem_cons_self) h.directory

theorem Names.points (h : Names t current path m d name) : Points t current path m d [name] := by
  obtain ⟨front, hparts, hreach⟩ := h.reaches
  have hdot : name ≠ "." := h.plain.2.1
  refine ⟨⟨h.fault, front, [name], hparts, ?_, by simpa using hdot, hreach⟩, by simpa using h.plain,
    h.directory⟩
  rw [List.filter_cons_of_pos (by simpa using hdot), List.filter_nil]

theorem Spells.leads (h : Spells t current m d path []) : Leads t current path m d := by
  obtain ⟨front, tail, hparts, hnames, hlast, hreach⟩ := h.reaches
  obtain rfl := eq_nil_of_filter hnames hlast
  rw [List.append_nil] at hparts
  exact ⟨h.fault, hparts ▸ hreach⟩

/-- A directory at the place is what the path leads to. -/
theorem Points.leads (h : Points t current path m d names) (hwf : t.WellFormed)
    (hthere : t.get? (d ++ names) = some .directory) : Leads t current path m (d ++ names) := by
  induction names generalizing d with
  | nil =>
    rw [List.append_nil]
    exact h.spells.leads
  | cons name names ih =>
    have hplace : d ++ name :: names = d ++ [name] ++ names := (List.append_assoc _ [name] _).symm
    rw [hplace] at hthere ⊢
    refine ih (h.down ?_) hthere
    by_cases hnil : names = []
    · subst hnil
      rwa [List.append_nil] at hthere
    · obtain ⟨next, rest, rfl⟩ := List.exists_cons_of_ne_nil hnil
      exact hwf.directory_of_append _ next rest hthere

/-! ## Making all directories of a path -/

/-- A directory that is there is not made again. -/
theorem Leads.makeDirectories (h : Leads t current path m p) :
    t.makeDirectories current path = (.ok (), t) := by
  have hmake : t.makeDirectory current path = .error .exists := by
    unfold makeDirectory
    rw [FileTree.resolveName, resolveNames_eq h.fault]
    rcases h.reaches.walk_false with hwalk | ⟨q, target, hwalk⟩ <;> rw [hwalk] <;> rfl
  have hdirectory : t.isDirectory current path = true := by
    unfold isDirectory
    rw [entryAt_of_leads h]
  unfold FileTree.makeDirectories
  split
  · rfl
  · unfold ancestors climb
    rw [hmake]
    dsimp only
    rw [hdirectory]
    rfl

/-- In a well-formed tree nothing is below a missing directory, so all that are behind it are made. -/
theorem fill_eq_made (hwf : t.WellFormed) (h : Ahead t current path m d names) :
    t.fill d names = t.made d names := by
  induction names generalizing t d with
  | nil => rfl
  | cons name names ih =>
    unfold fill made
    rw [putMissing_of_none h.first]
    exact ih (hwf.put_free h.directory h.first) (h.down hwf)

/-- What is wrong if a file is in the place of a directory that is needed for others, or of the last
one. -/
def inTheWay (names : List String) : Fault :=
  if names = [] then .exists else .notDirectory

/-- No directory is made in the place of a file or below it. -/
theorem Points.makeDirectories_file {content : ByteArray} {executable : Bool}
    (h : Points t current path m d (name :: names))
    (hthere : t.get? (d ++ [name]) = some (.file content executable)) :
    t.makeDirectories current path = (.error (inTheWay names), t) := by
  have hplain : Plain name := h.plain name List.mem_cons_self
  have hmake : t.makeDirectory current path = .error (inTheWay names) := by
    obtain ⟨front, tail, hparts, hnames, hlast, hreach⟩ := h.spells.exists_first
    unfold makeDirectory
    rw [FileTree.resolveName, resolveNames_eq h.spells.fault, hparts,
      walk_append hreach (Or.inl (List.cons_ne_nil _ _)), walk_plain hplain, hthere]
    unfold inTheWay
    dsimp only
    by_cases hnil : names = []
    · obtain rfl := eq_nil_of_filter (hnames.trans hnil) hlast
      rw [if_pos hnil]
      rfl
    · have htail : tail.isEmpty = false := by
        rw [← Bool.not_eq_true, List.isEmpty_iff]
        rintro rfl
        exact hnil hnames.symm
      rw [if_neg hnil, htail]
      rfl
  obtain ⟨front, last, hparts, hlast⟩ := h.spells.exists_last h.plain (List.cons_ne_nil _ _)
  unfold FileTree.makeDirectories ancestors
  rw [isEmpty_of_parts hparts, isSome_parent? hparts hlast, Bool.or_false,
    if_neg Bool.false_ne_true, climb, hmake]
  unfold inTheWay
  by_cases hnil : names = []
  · subst hnil
    have hother : t.isDirectory current path = false := by
      unfold isDirectory entryAt
      rcases h.named.resolve true with ⟨hr, -⟩ | ⟨hr, -⟩ <;>
        rw [hr, walk_plain hplain, hthere] <;> rfl
    rw [if_pos rfl]
    dsimp only
    rw [hother, if_neg Bool.false_ne_true]
  · rw [if_neg hnil]

/-- At most one place of a chain is that of a file. -/
theorem WellFormed.eq_of_file {xs xs' : List String} {content content' : ByteArray}
    {executable executable' : Bool} (hwf : t.WellFormed) (hxs : xs <+: names) (hxs' : xs' <+: names)
    (hfile : t.get? (d ++ xs) = some (.file content executable))
    (hfile' : t.get? (d ++ xs') = some (.file content' executable')) : xs = xs' := by
  by_contra hne
  have hother : d ++ xs ≠ d ++ xs' := fun heq => hne (List.append_cancel_left heq)
  rcases List.prefix_or_prefix_of_prefix hxs hxs' with hle | hle
  · rw [hwf.directory_of_below ⟨(List.prefix_append_right_inj d).2 hle, hother.symm⟩ hfile'] at hfile
    cases hfile
  · rw [hwf.directory_of_below ⟨(List.prefix_append_right_inj d).2 hle, hother⟩ hfile] at hfile'
    cases hfile'

/-- Either the directories of the path that are missing are made, or a file is in the way. -/
theorem Points.makeDirectories_cases (h : Points t current path m d names) (hwf : t.WellFormed)
    (hlinks : ∀ xs, xs <+: names → ∀ target, t.get? (d ++ xs) ≠ some (.link target)) :
    Passable t d names ∧ t.makeDirectories current path = (.ok (), t.fill d names) ∨
      ∃ xs rest content executable, names = xs ++ rest ∧
        t.get? (d ++ xs) = some (.file content executable) ∧
        t.makeDirectories current path = (.error (inTheWay rest), t) := by
  induction names generalizing d with
  | nil =>
    refine Or.inl ⟨fun xs hxs e he => ?_, h.spells.leads.makeDirectories⟩
    rw [List.prefix_nil.1 hxs, List.append_nil, h.directory] at he
    exact (Option.some.inj he).symm
  | cons name names ih =>
    have hfirst : [name] <+: name :: names := List.cons_prefix_cons.2 ⟨rfl, List.nil_prefix⟩
    have hplace : ∀ xs, d ++ [name] ++ xs = d ++ name :: xs := fun xs => List.append_assoc _ _ _
    -- A place of the chain is the directory at its beginning, or the first name leads to it.
    have hchain : ∀ {P : Place → Prop}, P d → (∀ xs, xs <+: names → P (d ++ [name] ++ xs)) →
        ∀ xs, xs <+: name :: names → P (d ++ xs) := by
      intro P hd hrest xs hxs
      rcases xs with _ | ⟨next, xs⟩
      · rwa [List.append_nil]
      · obtain ⟨rfl, hrest'⟩ := List.cons_prefix_cons.1 hxs
        rw [← hplace]
        exact hrest xs hrest'
    have hd : ∀ e, t.get? d = some e → e = .directory := fun e he =>
      (Option.some.inj (h.directory.symm.trans he)).symm
    rcases hthere : t.get? (d ++ [name]) with _ | ⟨_ | ⟨content, executable⟩ | target⟩
    · have hahead : Ahead t current path m d (name :: names) :=
        ⟨h.spells, h.plain, h.directory, fun first hfirst => by
          obtain rfl := Option.mem_some_iff.1 hfirst
          exact hthere⟩
      refine Or.inl ⟨hchain (P := fun p => ∀ e, t.get? p = some e → e = .directory) hd
        fun xs _ e he => ?_, ?_⟩
      · rw [(hwf.cut hthere).free _ (List.prefix_append _ _)] at he
        cases he
      · rw [hahead.makeDirectories hwf (List.cons_ne_nil _ _), fill_eq_made hwf hahead]
    · have hfill : t.fill d (name :: names) = t.fill (d ++ [name]) names := by
        rw [fill, putMissing_of_some hthere]
      rcases ih (h.down hthere) (fun xs hxs target => by
          rw [hplace]
          exact hlinks _ (List.cons_prefix_cons.2 ⟨rfl, hxs⟩) target) with
        ⟨hclear, hmake⟩ | ⟨xs, rest, content, executable, rfl, hfile, hmake⟩
      · exact Or.inl ⟨hchain (P := fun p => ∀ e, t.get? p = some e → e = .directory) hd hclear,
          hfill ▸ hmake⟩
      · rw [hplace] at hfile
        exact Or.inr ⟨name :: xs, rest, content, executable, rfl, hfile, hmake⟩
    · exact Or.inr ⟨[name], names, content, executable, rfl, hthere, h.makeDirectories_file hthere⟩
    · exact absurd hthere (hlinks [name] hfirst target)

end EmbeddedSolidity.FileSystem.FileTree
