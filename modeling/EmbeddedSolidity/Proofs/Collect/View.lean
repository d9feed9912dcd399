import EmbeddedSolidity.Proofs.Collect.Order
import EmbeddedSolidity.Proofs.Compile.Account
import Mathlib.Data.List.Dedup

/-!
# What a collection sees

A collection asks for the kinds of paths and for the names in directories. A view fixes what these
questions are about : a file tree with the current directory, and which directories can be read. It
leaves open in which order the names in a directory are told. What there is to find is told by the view
alone, without regard to how it is looked for.

* `View.Answers` : the answers to calls that are true to the view;
* `View.exists_answered`, `View.answers_log` : every plan can be so answered, and a host does so;
* `View.Holds`, `View.SourceBelow`, `View.Sought` : what there is to find.
-/

namespace EmbeddedSolidity

open FileSystem FileSystem.FileTree

namespace FileSystem.FileTree

variable {t : FileTree}

/-- The names in the tree are such as a file system allows. -/
def WellNamed (t : FileTree) : Prop :=
  ∀ q e, t.get? q = some e → ∀ name ∈ q, Path.Simple name ∧ Plain name

/-- The entries of a tree tell whether its names are allowed. -/
theorem wellNamed_of_entries
    (h : ∀ x ∈ t.entries, ∀ name ∈ x.1, Path.Simple name ∧ Plain name) : t.WellNamed := by
  intro q e he name hname
  by_cases hq : q = []
  · rw [hq] at hname
    cases hname
  · have hlookup : t.entries.lookup q = some e := by
      simpa [get?, hq] using he
    exact h _ (mem_of_lookup hlookup) name hname

theorem eq_of_nameIn? {p q : Place} {name : String} (h : nameIn? p q = some name) :
    q = p ++ [name] := by
  unfold nameIn? at h
  split_ifs at h with hlast
  rw [← hlast]
  exact (List.dropLast_append_getLast? name h).symm

/-- The names in a directory are those of the entries that stand in it. -/
theorem mem_names_iff {p : Place} {name : String} :
    name ∈ t.names p ↔ (t.get? (p ++ [name])).isSome = true := by
  constructor
  · intro h
    obtain ⟨⟨q, e⟩, hmem, hname⟩ := List.mem_filterMap.1 h
    obtain rfl := eq_of_nameIn? hname
    have hlookup : (t.entries.lookup (p ++ [name])).isSome = true :=
      List.lookup_isSome_iff.2 ⟨(p ++ [name], e), hmem, by simp⟩
    simpa [get?] using hlookup
  · intro h
    obtain ⟨e, he⟩ := Option.isSome_iff_exists.1 h
    exact mem_names t he

/-- If no place stands twice in a tree, no name stands twice in a directory. -/
theorem nodup_names (h : (t.entries.map (·.1)).Nodup) (p : Place) : (t.names p).Nodup := by
  have hmap : t.names p = (t.entries.map (·.1)).filterMap (nameIn? p) := by
    rw [List.filterMap_map]
    rfl
  rw [hmap]
  exact h.filterMap fun q q' name hq hq' => (eq_of_nameIn? hq).trans (eq_of_nameIn? hq').symm

end FileSystem.FileTree

namespace Collect

/-- A tree, the current directory, and which directories can be read. -/
structure View where
  tree : FileTree
  current : Place
  readable : Place → Prop

/-- All directories of the tree can be read. -/
def View.clear (t : FileTree) (current : Place) : View :=
  ⟨t, current, fun _ => True⟩

namespace View

variable (v : View)

/-- The path leads to the directory at a place. -/
def Opens (path : String) (p : Place) : Prop :=
  v.tree.entryAt v.current true path = .ok (p, .directory)

/-- The path leads to a directory. -/
def isDirectory (path : String) : Bool :=
  v.tree.isDirectory v.current path

/-- The answers that are true to the view. The names in a directory are told in any order. -/
def Answers : Exchange → Prop
  | ⟨.isDirectory path, answer⟩ => answer = v.isDirectory path
  | ⟨.list path, .ok names⟩ => ∃ p, v.Opens path p ∧ v.readable p ∧ names.Nodup ∧
      ∀ name, name ∈ names ↔ (v.tree.get? (p ++ [name])).isSome = true
  | ⟨.list path, .error _⟩ => ∀ p, v.Opens path p → ¬ v.readable p
  | _ => True

/-! ## What there is to find -/

/-- The path leads to a directory that can be read and in which there is such an entry. -/
def Holds (directory name : String) : Prop :=
  ∃ p, v.Opens directory p ∧ v.readable p ∧ (v.tree.get? (p ++ [name])).isSome = true

/-- The entry is a directory that is not passed over. -/
structure Enterable (directory name : String) : Prop where
  holds : v.Holds directory name
  isDirectory : v.isDirectory (Path.join directory name) = true
  kept : isPassedOver name = false

/-- The entry is a source file, or it is named like one and leads nowhere. -/
structure IsSource (directory name : String) : Prop where
  holds : v.Holds directory name
  noDirectory : v.isDirectory (Path.join directory name) = false
  named : Path.extension? (Path.join directory name) = some sourceExtension

/-- The path is that of a source file in the directory or in the directories below it. -/
inductive SourceBelow : String → String → Prop where
  | here {directory name : String} : v.IsSource directory name →
    SourceBelow directory (Path.join directory name)
  | inside {directory name path : String} : v.Enterable directory name →
    SourceBelow (Path.join directory name) path → SourceBelow directory path

/-- A path that leads to a directory stands for the source files below it, and any other path for
itself. -/
def StandsFor (path x : String) : Prop :=
  (v.isDirectory path = false ∧ x = path) ∨ (v.isDirectory path = true ∧ v.SourceBelow path x)

/-- One of the paths stands for it. -/
def Sought (paths : List String) (x : String) : Prop :=
  ∃ path ∈ paths, v.StandsFor path x

variable {v}

theorem isDirectory_iff {path : String} : v.isDirectory path = true ↔ ∃ p, v.Opens path p := by
  unfold isDirectory FileTree.isDirectory Opens
  constructor
  · intro h
    split at h
    · next p heq => exact ⟨p, heq⟩
    · cases h
  · rintro ⟨p, hp⟩
    rw [hp]

theorem Opens.unique {path : String} {p q : Place} (hp : v.Opens path p) (hq : v.Opens path q) :
    q = p := by
  have heq := hp.symm.trans hq
  cases heq
  rfl

/-- Below a directory is what its entries lead to. -/
theorem sourceBelow_iff {directory path : String} : v.SourceBelow directory path ↔ ∃ name,
    (v.IsSource directory name ∧ path = Path.join directory name) ∨
      (v.Enterable directory name ∧ v.SourceBelow (Path.join directory name) path) := by
  constructor
  · intro h
    cases h with
    | here hsource => exact ⟨_, Or.inl ⟨hsource, rfl⟩⟩
    | inside henter h => exact ⟨_, Or.inr ⟨henter, h⟩⟩
  · rintro ⟨name, ⟨hsource, rfl⟩ | ⟨henter, h⟩⟩
    · exact .here hsource
    · exact .inside henter h

/-! ## Answers -/

theorem exists_answers (v : View) : ∀ c : Call, ∃ answer, v.Answers ⟨c, answer⟩
  | .isDirectory path => ⟨v.isDirectory path, rfl⟩
  | .list path => by
    by_cases h : ∃ p, v.Opens path p ∧ v.readable p
    · obtain ⟨p, hp, hreadable⟩ := h
      refine ⟨.ok (v.tree.names p).dedup, p, hp, hreadable, List.nodup_dedup _, fun name => ?_⟩
      rw [List.mem_dedup, mem_names_iff]
    · exact ⟨.error .notFound, fun p hp hreadable => h ⟨p, hp, hreadable⟩⟩
  | .kind _ | .read _ | .write _ _ | .makeDirectories _ | .removeFile _ | .removeTree _ | .locate _
  | .execute _ _ _ => by
    obtain ⟨answer⟩ := Plan.nonempty_answer _
    exact ⟨answer, trivial⟩

/-- Every plan can be answered truly. -/
theorem exists_answered {α : Type} (v : View) (p : Plan α) :
    ∃ log a, Plan.Ends p log a ∧ ∀ x ∈ log, v.Answers x := by
  choose answers hanswers using v.exists_answers
  obtain ⟨log, a, he, hlog⟩ := Plan.exists_ends_answered answers p
  refine ⟨log, a, he, fun x hx => ?_⟩
  obtain ⟨c, answer⟩ := x
  obtain rfl : answer = answers c := hlog _ hx
  exact hanswers c

/-- A host answers truly what is asked of its tree. -/
theorem answers_answer {t : FileTree} (hplaces : (t.entries.map (·.1)).Nodup) (h : Host) :
    ∀ c : Call, (clear t h.current).Answers ⟨c, (h.answer t c).1⟩
  | .isDirectory path => rfl
  | .list path => by
    change (clear t h.current).Answers ⟨.list path, t.list h.current path⟩
    unfold FileTree.list
    cases hentry : t.entryAt h.current true path with
    | error fault =>
      intro p hp
      rw [Opens, clear, hentry] at hp
      cases hp
    | ok found =>
      obtain ⟨p, e⟩ := found
      cases e with
      | directory => exact ⟨p, hentry, trivial, nodup_names hplaces p, fun _ => mem_names_iff⟩
      | file content executable =>
        intro q hq
        rw [Opens, clear, hentry] at hq
        cases hq
      | link target =>
        intro q hq
        rw [Opens, clear, hentry] at hq
        cases hq
  | .kind _ | .read _ | .write _ _ | .makeDirectories _ | .removeFile _ | .removeTree _ | .locate _
  | .execute _ _ _ => trivial

/-- The calls of a plan that only looks are answered truly. -/
theorem answers_log {α : Type} {R : α → Prop} {p : Plan α} (hp : p.Always Call.Looks R)
    {t : FileTree} (hplaces : (t.entries.map (·.1)).Nodup) (h : Host) :
    ∀ x ∈ p.log h t, (clear t h.current).Answers x := by
  induction p with
  | done a => exact List.forall_mem_nil _
  | ask c next ih =>
    have hnext : ∀ answer, (next answer).Always Call.Looks R := fun answer log a he =>
      ⟨fun x hx => (hp _ _ (.ask answer he)).1 x (List.mem_cons_of_mem _ hx),
        (hp _ _ (.ask answer he)).2⟩
    have hlooks : c.Looks := (hp _ _ (Plan.ends_log h (.ask c next) t)).1 _ List.mem_cons_self
    have hlog : (Plan.ask c next).log h t =
        ⟨c, (h.answer t c).1⟩ :: (next (h.answer t c).1).log h (h.answer t c).2 := rfl
    rw [hlog, hlooks.answer h t]
    exact List.forall_mem_cons.2 ⟨answers_answer hplaces h c, ih _ (hnext _)⟩

end View

end Collect

end EmbeddedSolidity
