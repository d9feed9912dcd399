import EmbeddedSolidity.FileSystem.Tree
import Mathlib.Data.List.Induction
import Mathlib.Tactic.SplitIfs

/-!
# Places below a place

What is in a directory stands at the places below it. In a well-formed tree every entry stands in a
directory, and nothing stands below a place that is free.

* `FileTree.get?_eraseBelow`, `FileTree.get?_eraseBelow_of_not_below` : emptying a directory;
* `FileTree.WellFormed.put`, `FileTree.WellFormed.erase`, `FileTree.WellFormed.eraseBelow` : trees
  stay well-formed;
* `FileTree.free_below_of_names` : a directory without names has nothing below it.
-/

namespace EmbeddedSolidity.FileSystem

/-- The place `q` is below the place `p`. -/
def Below (p q : Place) : Prop :=
  p <+: q ∧ q ≠ p

instance (p q : Place) : Decidable (Below p q) :=
  inferInstanceAs (Decidable (_ ∧ _))

theorem below_append (p : Place) (name : String) (rest : Place) : Below p (p ++ name :: rest) :=
  ⟨List.prefix_append p _, by simp⟩

theorem below_iff {p q : Place} : Below p q ↔ ∃ name rest, q = p ++ name :: rest := by
  constructor
  · rintro ⟨⟨r, rfl⟩, hne⟩
    cases r with
    | nil => exact absurd (List.append_nil p) hne
    | cons name rest => exact ⟨name, rest, rfl⟩
  · rintro ⟨name, rest, rfl⟩
    exact below_append p name rest

theorem below_ne_nil {p q : Place} (h : Below p q) : q ≠ [] := by
  obtain ⟨name, rest, rfl⟩ := below_iff.1 h
  simp

theorem Below.trans {p q r : Place} (h : Below p q) (h' : Below q r) : Below p r := by
  obtain ⟨name, rest, rfl⟩ := below_iff.1 h
  obtain ⟨name', rest', rfl⟩ := below_iff.1 h'
  rw [List.append_assoc, List.cons_append]
  exact below_append _ _ _

namespace FileTree

variable {t t' : FileTree} {p q : Place} {e : Entry}

@[simp] theorem get?_nil (t : FileTree) : t.get? [] = some .directory :=
  rfl

theorem get?_eraseBelow_of_not_below (t : FileTree) (h : ¬ Below p q) :
    (t.eraseBelow p).get? q = t.get? q := by
  have := lookup_filter (f := fun r => !(p.isPrefixOf r && r != p)) (q := q) t.entries (by
    rw [Bool.not_eq_true', Bool.and_eq_false_iff]
    by_cases hp : p <+: q
    · have hq : q = p := Classical.byContradiction fun hne => h ⟨hp, hne⟩
      exact Or.inr (by simp [hq])
    · exact Or.inl (by rw [Bool.eq_false_iff, ne_eq, List.isPrefixOf_iff_prefix]; exact hp))
  simp only [get?, eraseBelow]
  rw [this]

/-- Nothing is left below an emptied directory. -/
theorem get?_eraseBelow (t : FileTree) (h : Below p q) : (t.eraseBelow p).get? q = none := by
  have := lookup_filter_eq_none (f := fun r => !(p.isPrefixOf r && r != p)) (q := q) t.entries
    (by simp [List.isPrefixOf_iff_prefix.2 h.1, h.2])
  simpa [get?, eraseBelow, below_ne_nil h] using this

/-! ## Well-formed trees -/

/-- Every entry stands in a directory. -/
def WellFormed (t : FileTree) : Prop :=
  ∀ q e, q ≠ [] → t.get? q = some e → t.get? q.dropLast = some .directory

theorem WellFormed.directory_of_append (h : t.WellFormed) (p : Place) (name : String) :
    ∀ (rest : Place) {e : Entry}, t.get? (p ++ name :: rest) = some e → t.get? p = some .directory := by
  intro rest
  induction rest using List.reverseRecOn with
  | nil =>
    intro e he
    simpa using h _ _ (by simp) he
  | append_singleton rest last ih =>
    intro e he
    have hparent := h _ _ (by simp) he
    rw [← List.cons_append, ← List.append_assoc, List.dropLast_concat] at hparent
    exact ih hparent

/-- What has something below it is a directory. -/
theorem WellFormed.directory_of_below (h : t.WellFormed) (hq : Below p q) (he : t.get? q = some e) :
    t.get? p = some .directory := by
  obtain ⟨name, rest, rfl⟩ := below_iff.1 hq
  exact h.directory_of_append p name rest he

/-- Nothing is below a place that is no directory. -/
theorem WellFormed.free_below (h : t.WellFormed) (hp : t.get? p ≠ some .directory)
    (hq : Below p q) : t.get? q = none := by
  cases he : t.get? q with
  | none => rfl
  | some e => exact absurd (h.directory_of_below hq he) hp

theorem dropLast_ne {p : Place} (h : p ≠ []) : p.dropLast ≠ p := fun e => by
  have hlength := congrArg List.length e
  rw [List.length_dropLast] at hlength
  have := List.length_pos_iff.2 h
  omega

theorem below_dropLast {p : Place} (h : p ≠ []) : Below p.dropLast p :=
  ⟨List.dropLast_prefix p, (dropLast_ne h).symm⟩

/-- Putting an entry in a directory, unless it hides another directory. -/
theorem WellFormed.put (h : t.WellFormed) (hp : p ≠ [])
    (hparent : t.get? p.dropLast = some .directory) (hold : t.get? p ≠ some .directory) :
    (t.put p e).WellFormed := by
  intro q e' hq he
  by_cases hqp : q = p
  · subst hqp
    rw [get?_put_of_ne t e (dropLast_ne hq)]
    exact hparent
  · rw [get?_put_of_ne t e hqp] at he
    have hdirectory := h q e' hq he
    have hne : q.dropLast ≠ p := fun heq => hold (heq ▸ hdirectory)
    rw [get?_put_of_ne t e hne]
    exact hdirectory

/-- Erasing a place that has nothing below it. -/
theorem WellFormed.erase (h : t.WellFormed) (hbelow : ∀ q, Below p q → t.get? q = none) :
    (t.erase p).WellFormed := by
  intro q e hq he
  by_cases hqp : q = p
  · subst hqp
    rw [get?_erase_self t hq] at he
    cases he
  · rw [get?_erase_of_ne t hqp] at he
    have hne : q.dropLast ≠ p := fun heq => by
      rw [hbelow q (heq ▸ below_dropLast hq)] at he
      cases he
    rw [get?_erase_of_ne t hne]
    exact h q e hq he

theorem WellFormed.eraseBelow (h : t.WellFormed) (p : Place) : (t.eraseBelow p).WellFormed := by
  intro q e hq he
  by_cases hbelow : Below p q
  · rw [get?_eraseBelow t hbelow] at he
    cases he
  · have hparent : ¬ Below p q.dropLast := fun hp => hbelow (hp.trans (below_dropLast hq))
    rw [get?_eraseBelow_of_not_below t hbelow] at he
    rw [get?_eraseBelow_of_not_below t hparent]
    exact h q e hq he

/-! ## Names -/

theorem mem_of_lookup {l : List (Place × Entry)} (h : l.lookup q = some e) : (q, e) ∈ l := by
  induction l with
  | nil => cases h
  | cons x l ih =>
    obtain ⟨r, e'⟩ := x
    rw [lookup_cons] at h
    split_ifs at h with hq
    · cases h
      subst hq
      exact List.mem_cons_self
    · exact List.mem_cons_of_mem _ (ih h)

theorem mem_names (t : FileTree) {name : String} (h : t.get? (p ++ [name]) = some e) :
    name ∈ t.names p := by
  have hlookup : t.entries.lookup (p ++ [name]) = some e := by
    simpa [get?] using h
  exact List.mem_filterMap.2 ⟨_, mem_of_lookup hlookup, by simp [nameIn?]⟩

/-- The entries of a tree tell whether it is well-formed. -/
theorem wellFormed_of_entries (h : ∀ x ∈ t.entries, t.get? x.1.dropLast = some .directory) :
    t.WellFormed := by
  intro q e hq he
  have hlookup : t.entries.lookup q = some e := by
    simpa [get?, hq] using he
  exact h _ (mem_of_lookup hlookup)

/-- A directory without names has nothing below it. -/
theorem free_below_of_names (h : t.WellFormed) (hnames : t.names p = []) (hq : Below p q) :
    t.get? q = none := by
  obtain ⟨name, rest, rfl⟩ := below_iff.1 hq
  have hfirst : t.get? (p ++ [name]) = none := by
    cases hfirst : t.get? (p ++ [name]) with
    | none => rfl
    | some e =>
      have hmem := mem_names t hfirst
      rw [hnames] at hmem
      exact absurd hmem List.not_mem_nil
  cases rest with
  | nil => exact hfirst
  | cons name' rest =>
    have hbelow : Below (p ++ [name]) (p ++ name :: name' :: rest) :=
      below_iff.2 ⟨name', rest, by simp⟩
    exact h.free_below (by rw [hfirst]; nofun) hbelow

/-! ## Changes -/

/-- A file with the content is at the place. -/
def HasFile (t : FileTree) (q : Place) (content : ByteArray) : Prop :=
  ∃ executable, t.get? q = some (.file content executable)

/-- The trees differ at most below the place. -/
def SameOutside (p : Place) (t t' : FileTree) : Prop :=
  ∀ q, ¬ Below p q → t'.get? q = t.get? q

/-- No link is below the place. -/
def Unlinked (p : Place) (t : FileTree) : Prop :=
  ∀ q target, Below p q → t.get? q ≠ some (.link target)

/-- The entry leads on: it is a directory or a link. -/
def IsWay (e : Entry) : Prop :=
  ∀ content executable, e ≠ .file content executable

theorem isWay_directory : IsWay .directory :=
  nofun

theorem isWay_link (target : String) : IsWay (.link target) :=
  nofun

/-- Directories and links of the one tree are in the other. -/
def KeepsWays (t t' : FileTree) : Prop :=
  ∀ q e, IsWay e → t.get? q = some e → t'.get? q = some e

/-- Where both trees have a directory or a link, it is the same. -/
def AgreeOnWays (t t' : FileTree) : Prop :=
  ∀ q e e', IsWay e → IsWay e' → t.get? q = some e → t'.get? q = some e' → e = e'

/-- Every entry of the one tree is in the other. -/
def Extends (t t' : FileTree) : Prop :=
  ∀ q e, t.get? q = some e → t'.get? q = some e

theorem SameOutside.refl (p : Place) (t : FileTree) : SameOutside p t t :=
  fun _ _ => rfl

theorem SameOutside.trans {t'' : FileTree} (h : SameOutside p t t') (h' : SameOutside p t' t'') :
    SameOutside p t t'' :=
  fun q hq => (h' q hq).trans (h q hq)

theorem Extends.refl (t : FileTree) : Extends t t :=
  fun _ _ h => h

theorem Extends.trans {t'' : FileTree} (h : Extends t t') (h' : Extends t' t'') : Extends t t'' :=
  fun q e he => h' q e (h q e he)

theorem Extends.keepsWays (h : Extends t t') : KeepsWays t t' :=
  fun q e _ he => h q e he

theorem KeepsWays.trans {t'' : FileTree} (h : KeepsWays t t') (h' : KeepsWays t' t'') :
    KeepsWays t t'' :=
  fun q e hway he => h' q e hway (h q e hway he)

theorem KeepsWays.agree (h : KeepsWays t t') : AgreeOnWays t t' := by
  intro q e e' hway _ he he'
  rw [h q e hway he] at he'
  exact Option.some.inj he'

theorem AgreeOnWays.refl (t : FileTree) : AgreeOnWays t t := by
  intro q e e' _ _ he he'
  rw [he] at he'
  exact Option.some.inj he'

/-- Changes below a place agree on the ways if there are no links. -/
theorem SameOutside.agree (h : SameOutside p t t') (hlinks : Unlinked p t)
    (hlinks' : Unlinked p t') : AgreeOnWays t t' := by
  intro q e e' hway hway' he he'
  by_cases hq : Below p q
  · cases e with
    | file content executable => exact absurd rfl (hway content executable)
    | link target => exact absurd he (hlinks q target hq)
    | directory =>
      cases e' with
      | file content executable => exact absurd rfl (hway' content executable)
      | link target => exact absurd he' (hlinks' q target hq)
      | directory => rfl
  · rw [h q hq, he] at he'
    exact Option.some.inj he'

/-- Erasing agrees on the ways that are left. -/
theorem agree_eraseBelow (t : FileTree) (p : Place) : AgreeOnWays t (t.eraseBelow p) := by
  intro q e e' _ _ he he'
  by_cases hq : Below p q
  · rw [get?_eraseBelow t hq] at he'
    cases he'
  · rw [get?_eraseBelow_of_not_below t hq, he] at he'
    exact Option.some.inj he'

end FileTree

end EmbeddedSolidity.FileSystem
