import EmbeddedSolidity.Proofs.Collect.Exact
import EmbeddedSolidity.Proofs.FileSystem.Ancestors
import EmbeddedSolidity.Proofs.Plan.Linkless
import Mathlib.Logic.Relation

/-!
# Routes below a directory

A collection goes down by joining names, so a path that it meets below a directory is spelled there in
one way. Two paths may lead to one place all the same, since links are followed. Where no entry is a
link, the names that lead to a path lead to its place.

* `Path.Under.eq_of_components` : a path below a directory is spelled in one way;
* `View.Enters`, `View.sourceBelow_iff_exists` : the directories that are entered, and what is found in
  them;
* `View.Enters.opens`, `View.place_of_leadsTo` : places without links.
-/

namespace EmbeddedSolidity

open FileSystem FileSystem.FileTree
open Relation (ReflTransGen)

namespace Path

variable {base directory name name' path path' : String} {names : List String}

/-! ## Spellings -/

/-- The path continues that of a directory by names. -/
def Under (directory path : String) : Prop :=
  ∃ names : List String, (∀ name ∈ names, Simple name ∧ Plain name) ∧ path = names.foldl join directory

namespace Under

theorem refl (directory : String) : Under directory directory :=
  ⟨[], List.forall_mem_nil _, rfl⟩

theorem join (h : Under directory path) (hname : Simple name ∧ Plain name) :
    Under directory (join path name) := by
  obtain ⟨names, hnames, rfl⟩ := h
  refine ⟨names ++ [name], List.forall_mem_append.2 ⟨hnames, List.forall_mem_singleton.2 hname⟩, ?_⟩
  rw [List.foldl_append]
  rfl

/-- Paths below a directory differ in their components if they differ. -/
theorem eq_of_components (h : Under directory path) (h' : Under directory path')
    (heq : components path = components path') : path = path' := by
  obtain ⟨names, hnames, rfl⟩ := h
  obtain ⟨names', hnames', rfl⟩ := h'
  rw [components_foldl_join hnames, components_foldl_join hnames', List.append_cancel_left_eq,
    (List.map_injective_iff.2 fun _ _ => Component.named.inj).eq_iff] at heq
  rw [heq]

/-- A joined path tells the directory and the name. -/
theorem join_inj (h : Under directory path) (h' : Under directory path')
    (hname : Simple name ∧ Plain name) (hname' : Simple name' ∧ Plain name')
    (heq : Path.join path name = Path.join path' name') : path = path' ∧ name = name' := by
  have hcomponents := congrArg components heq
  rw [components_join hname.1 hname.2, components_join hname'.1 hname'.2] at hcomponents
  obtain ⟨hpath, hlast⟩ := List.append_inj' hcomponents rfl
  exact ⟨h.eq_of_components h' hpath, Component.named.inj (List.cons.inj hlast).1⟩

/-- No path below a directory is below two of its entries. -/
theorem name_eq (hname : Simple name ∧ Plain name) (hname' : Simple name' ∧ Plain name')
    (h : Under (Path.join directory name) path) (h' : Under (Path.join directory name') path) : name = name' := by
  obtain ⟨names, hnames, rfl⟩ := h
  obtain ⟨names', hnames', heq⟩ := h'
  have hcomponents := congrArg components heq
  rw [components_foldl_join hnames, components_foldl_join hnames', components_join hname.1 hname.2,
    components_join hname'.1 hname'.2, List.append_assoc, List.append_assoc,
    List.append_cancel_left_eq] at hcomponents
  exact Component.named.inj (List.cons.inj hcomponents).1

/-- No path leads back to what it continues. -/
theorem ne_of_join (hname : Simple name ∧ Plain name)
    (h : Under (Path.join directory name) path) : path ≠ directory := by
  rintro rfl
  obtain ⟨names, hnames, heq⟩ := h
  have hcomponents := congrArg components heq
  rw [components_foldl_join hnames, components_join hname.1 hname.2, List.append_assoc,
    List.self_eq_append_right] at hcomponents
  cases hcomponents

end Under

end Path

namespace Collect.View

variable {v : View} {directory inner path path' name : String} {p q q' : Place}

/-! ## Directories that are entered -/

/-- An entry of the one directory is the other, and it is not passed over. -/
def Into (v : View) (directory inner : String) : Prop :=
  ∃ name, v.Enterable directory name ∧ inner = Path.join directory name

/-- From the one directory the other is entered, at once or from directory to directory. -/
def Enters (v : View) : String → String → Prop :=
  ReflTransGen v.Into

theorem Enters.isDirectory (h : v.Enters directory inner) (hdirectory : v.isDirectory directory = true) :
    v.isDirectory inner = true := by
  rcases ReflTransGen.cases_tail h with rfl | ⟨_, -, name, henter, rfl⟩
  · exact hdirectory
  · exact henter.isDirectory

theorem Enters.under (h : v.Enters directory inner) (hnames : v.tree.WellNamed) :
    Path.Under directory inner := by
  induction h with
  | refl => exact .refl directory
  | tail _ hinto ih =>
    obtain ⟨name, henter, rfl⟩ := hinto
    exact ih.join (henter.holds.allowed hnames)

/-- What is found below a directory is found in one that is entered. -/
theorem sourceBelow_iff_exists : v.SourceBelow directory path ↔
    ∃ inner name, v.Enters directory inner ∧ v.IsSource inner name ∧ path = Path.join inner name := by
  constructor
  · intro h
    induction h with
    | here hsource => exact ⟨_, _, .refl, hsource, rfl⟩
    | inside henter _ ih =>
      obtain ⟨inner, name, henters, hsource, rfl⟩ := ih
      exact ⟨inner, name, .head ⟨_, henter, rfl⟩ henters, hsource, rfl⟩
  · rintro ⟨inner, name, henters, hsource, rfl⟩
    induction henters using ReflTransGen.head_induction_on with
    | refl => exact .here hsource
    | head hinto _ ih =>
      obtain ⟨name, henter, rfl⟩ := hinto
      exact .inside henter ih

theorem SourceBelow.under (h : v.SourceBelow directory path) (hnames : v.tree.WellNamed) :
    Path.Under directory path := by
  obtain ⟨inner, name, henters, hsource, rfl⟩ := sourceBelow_iff_exists.1 h
  exact (henters.under hnames).join (hsource.holds.allowed hnames)

/-! ## Places -/

/-- The path leads to what is at a place. -/
def LeadsTo (v : View) (path : String) (q : Place) : Prop :=
  ∃ e, v.tree.entryAt v.current true path = .ok (q, e)

/-- Both paths lead to the same file or to the same directory. -/
def Alike (v : View) (path path' : String) : Prop :=
  ∃ q, v.LeadsTo path q ∧ v.LeadsTo path' q

theorem Opens.leadsTo (h : v.Opens path p) : v.LeadsTo path p :=
  ⟨.directory, h⟩

theorem LeadsTo.unique (h : v.LeadsTo path q) (h' : v.LeadsTo path q') : q' = q := by
  obtain ⟨e, he⟩ := h
  obtain ⟨e', he'⟩ := h'
  rw [he] at he'
  cases he'
  rfl

theorem Alike.symm (h : v.Alike path path') : v.Alike path' path :=
  let ⟨q, hq, hq'⟩ := h
  ⟨q, hq', hq⟩

theorem alike_self (h : v.isDirectory path = true) : v.Alike path path :=
  let ⟨p, hp⟩ := isDirectory_iff.1 h
  ⟨p, hp.leadsTo, hp.leadsTo⟩

/-- An entry that is no link stands at its place. -/
theorem place_of_leadsTo (hp : v.Opens directory p) (hname : Path.Simple name ∧ Plain name)
    (hlink : ∀ target, v.tree.get? (p ++ [name]) ≠ some (.link target))
    (hq : v.LeadsTo (Path.join directory name) q) : q = p ++ [name] := by
  obtain ⟨e, he⟩ := hq
  obtain ⟨m, hleads⟩ := leads_of_entryAt hp
  have hbase : directory ≠ "" := (fault_of_isDirectory (isDirectory_iff.2 ⟨p, hp⟩)).1
  have hresolve : v.tree.resolve v.current true ([name].foldl Path.join directory) =
      .ok (.entry q e) := resolve_of_entryAt he
  obtain ⟨m', p', hleads', hwalk⟩ := leads_of_resolve hbase (List.forall_mem_singleton.2 hname.1)
    (List.cons_ne_nil _ _) hresolve
  obtain ⟨rfl, rfl⟩ := hleads.unique (AgreeOnWays.refl _) hleads'
  rw [walk_plain hname.2] at hwalk
  cases hthere : v.tree.get? (p' ++ [name]) with
  | none =>
    rw [hthere] at hwalk
    dsimp only at hwalk
    split_ifs at hwalk
    cases hwalk
  | some found =>
    rw [hthere] at hwalk
    cases found with
    | directory =>
      rw [walk_nil] at hwalk
      cases hwalk
      rfl
    | file content executable =>
      cases hwalk
      rfl
    | link target => exact absurd hthere (hlink target)

/-- No entry of the directories that are entered is a link. -/
def Linkless (v : View) (directory : String) : Prop :=
  ∀ inner p, v.Enters directory inner → v.Opens inner p → FileTree.Linkless p v.tree

/-- Without links, the place of a directory is told by the names that lead to it. -/
theorem Enters.opens (h : v.Enters directory inner) (hnames : v.tree.WellNamed)
    (hlinkless : v.Linkless directory) (hp : v.Opens directory p) :
    ∃ names : List String, inner = names.foldl Path.join directory ∧ v.Opens inner (p ++ names) := by
  induction h with
  | refl => exact ⟨[], rfl, by rwa [List.append_nil]⟩
  | tail henters hinto ih =>
    obtain ⟨names, rfl, hopens⟩ := ih
    obtain ⟨name, henter, rfl⟩ := hinto
    obtain ⟨q, hq⟩ := isDirectory_iff.1 henter.isDirectory
    have hplace := place_of_leadsTo hopens (henter.holds.allowed hnames)
      (hlinkless _ _ henters hopens name) hq.leadsTo
    refine ⟨names ++ [name], by rw [List.foldl_append]; rfl, ?_⟩
    rw [← List.append_assoc, ← hplace]
    exact hq

end Collect.View

end EmbeddedSolidity
