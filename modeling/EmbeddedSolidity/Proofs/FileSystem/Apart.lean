import EmbeddedSolidity.Proofs.FileSystem.Naming
import Mathlib.Data.Set.Basic

/-!
# Trees that are alike apart from a region

Two trees are alike apart from a set of places if every directory has the same entries in the same
order in both, those in the set not counted. Then they have the same entry at every other place, and
the same names in every directory that has no entry in the set. An edit that is made in both leaves
them alike apart from the set, wherever it is made.

* `FileTree.Apart.get?`, `FileTree.Apart.names` : what trees that are alike have in common;
* `FileTree.Apart.of_free`, `FileTree.eraseAll_of_free` : where nothing is;
* `FileTree.Edits` : putting and erasing entries of a region;
* `FileTree.Apart.of_inside` : programs that work below a place, in both trees.
-/

namespace EmbeddedSolidity.FileSystem.FileTree

variable {t t' t'' u u' : FileTree} {p q r : Place} {e : Entry} {Y Z : Set Place}
  {g : FileTree → FileTree}

/-! ## What is beside a region -/

open Classical in
/-- The entries in a directory, in order, without those in a region. -/
noncomputable def besides (Y : Set Place) (p : Place) (t : FileTree) : List (Place × Entry) :=
  t.entries.filter fun e => e.1 ≠ [] ∧ e.1.dropLast = p ∧ e.1 ∉ Y

/-- The trees have the same entries in each directory, in the same order, but for a region. -/
def Apart (Y : Set Place) (t t' : FileTree) : Prop :=
  ∀ p, t'.besides Y p = t.besides Y p

theorem Apart.refl (Y : Set Place) (t : FileTree) : Apart Y t t :=
  fun _ => rfl

theorem Apart.symm (h : Apart Y t t') : Apart Y t' t :=
  fun p => (h p).symm

theorem Apart.trans (h : Apart Y t t') (h' : Apart Y t' t'') : Apart Y t t'' :=
  fun p => (h' p).trans (h p)

open Classical in
/-- Beside a larger region is less. -/
theorem besides_of_subset (hYZ : Y ⊆ Z) (p : Place) (t : FileTree) :
    t.besides Z p = (t.besides Y p).filter fun e => e.1 ∉ Z := by
  unfold besides
  rw [List.filter_filter]
  refine List.filter_congr fun e _ => ?_
  rw [Bool.eq_iff_iff]
  simp only [decide_eq_true_eq, Bool.and_eq_true]
  exact ⟨fun ⟨hne, hp, hZ⟩ => ⟨hZ, hne, hp, fun hY => hZ (hYZ hY)⟩,
    fun ⟨hZ, hne, hp, _⟩ => ⟨hne, hp, hZ⟩⟩

theorem Apart.mono (h : Apart Y t t') (hYZ : Y ⊆ Z) : Apart Z t t' := fun p => by
  rw [besides_of_subset hYZ, besides_of_subset hYZ, h p]

open Classical in
/-- A place beside the region has the same entry in both trees. -/
theorem Apart.get? (h : Apart Y t t') (hq : q ∉ Y) : t'.get? q = t.get? q := by
  by_cases hne : q = []
  · rw [hne]
    rfl
  · have hlookup : ∀ t : FileTree, t.get? q = (t.besides Y q.dropLast).lookup q := by
      intro t
      unfold FileTree.get? besides
      rw [if_neg (by simpa using hne)]
      exact (lookup_filter (f := fun r => r ≠ [] ∧ r.dropLast = q.dropLast ∧ r ∉ Y) t.entries
        (decide_eq_true ⟨hne, rfl, hq⟩)).symm
    rw [hlookup, hlookup, h]

theorem dropLast_concat (p : Place) (name : String) : (p ++ [name]).dropLast = p :=
  List.dropLast_concat

open Classical in
/-- A directory has the same names in both trees if none of its entries is in the region. -/
theorem Apart.names (h : Apart Y t t') (hp : ∀ name, p ++ [name] ∉ Y) : t'.names p = t.names p := by
  have hnames : ∀ t : FileTree, t.names p = (t.besides Y p).filterMap fun e => nameIn? p e.1 := by
    intro t
    unfold FileTree.names besides
    rw [List.filterMap_filter]
    refine congrArg (t.entries.filterMap ·) (funext fun e => ?_)
    split
    · rfl
    · next hnot =>
      unfold nameIn?
      split
      · next hdrop =>
        rcases List.eq_nil_or_concat e.1 with hnil | ⟨front, name, hconcat⟩
        · rw [hnil]
          rfl
        · rw [hconcat, List.concat_eq_append, dropLast_concat] at hdrop
          rw [decide_eq_true_eq, hconcat, List.concat_eq_append, hdrop] at hnot
          exact absurd ⟨concat_ne_nil p name, dropLast_concat p name, hp name⟩ hnot
      · rfl
  rw [hnames, hnames, h]

theorem Apart.sameApart (h : Apart {q | p <+: q} t t') : SameApart p t t' :=
  fun _ hq => h.get? hq

theorem Apart.isEmptyAt (h : Apart Y t t') (hp : ∀ name, p ++ [name] ∉ Y) :
    t'.isEmptyAt p = t.isEmptyAt p := by
  unfold FileTree.isEmptyAt
  rw [h.names hp]

/-! ## Free places -/

/-- A place that is free has no entries. -/
theorem ne_of_free {x : Place × Entry} (hx : x ∈ t.entries) (hp : p ≠ []) (hfree : t.get? p = none) :
    x.1 ≠ p := by
  rintro rfl
  unfold FileTree.get? at hfree
  rw [if_neg (by simpa using hp), List.lookup_eq_none_iff] at hfree
  simpa using hfree x hx

/-- Nothing is erased where nothing is. -/
theorem eraseAll_of_free (hp : p ≠ []) (hfree : ∀ q, p <+: q → t.get? q = none) :
    t.eraseAll p = t := by
  have hkept : ∀ x ∈ t.entries, (!p.isPrefixOf x.1) = true := by
    intro x hx
    rw [Bool.not_eq_true', Bool.eq_false_iff, ne_eq, List.isPrefixOf_iff_prefix]
    intro hfront
    have hne : x.1 ≠ [] := fun heq => hp (List.prefix_nil.1 (heq ▸ hfront))
    exact ne_of_free hx hne (hfree _ hfront) rfl
  unfold eraseAll
  rw [List.filter_eq_self.2 hkept]

/-- What has nothing below it is erased by itself. -/
theorem eraseAll_of_free_below (hfree : ∀ q, Below p q → t.get? q = none) :
    t.eraseAll p = t.erase p := by
  unfold eraseAll erase
  congr 1
  refine List.filter_congr fun x hx => ?_
  by_cases heq : x.1 = p
  · simp [heq]
  · have hnot : ¬ p <+: x.1 := fun hfront =>
      ne_of_free hx (below_ne_nil ⟨hfront, heq⟩) (hfree _ ⟨hfront, heq⟩) rfl
    rw [← List.isPrefixOf_iff_prefix, Bool.not_eq_true] at hnot
    simp [hnot, heq]

open Classical in
/-- Where nothing is in either tree, nothing makes them different. -/
theorem Apart.of_free (h : Apart (Y ∪ Z) t t') (hne : [] ∉ Z) (hfree : ∀ q ∈ Z, t.get? q = none)
    (hfree' : ∀ q ∈ Z, t'.get? q = none) : Apart Y t t' := by
  have hbesides : ∀ {t : FileTree}, (∀ q ∈ Z, t.get? q = none) → ∀ p,
      t.besides (Y ∪ Z) p = t.besides Y p := by
    intro t hfree p
    unfold besides
    refine List.filter_congr fun x hx => ?_
    have hx' : x.1 ∉ Z := fun hmem =>
      ne_of_free hx (fun heq => hne (heq ▸ hmem)) (hfree _ hmem) rfl
    simp [hx']
  intro p
  rw [← hbesides hfree, ← hbesides hfree', h]

/-! ## Edits -/

open Classical in
/-- Entries that are kept by their places leave trees alike. -/
theorem Apart.filter (h : Apart Y t t') (f : Place → Bool) :
    Apart Y ⟨t.entries.filter fun e => f e.1⟩ ⟨t'.entries.filter fun e => f e.1⟩ := by
  have hfilter : ∀ (t : FileTree) (p : Place),
      besides Y p ⟨t.entries.filter fun e => f e.1⟩ = (t.besides Y p).filter fun e => f e.1 := by
    intro t p
    unfold besides
    rw [List.filter_filter, List.filter_filter]
    exact List.filter_congr fun e _ => Bool.and_comm _ _
  intro p
  rw [hfilter, hfilter, h]

open Classical in
/-- What is erased in a region does not count. -/
theorem apart_filter (t : FileTree) {f : Place → Bool} (hf : ∀ q, f q = false → q ∈ Y) :
    Apart Y t ⟨t.entries.filter fun e => f e.1⟩ := by
  intro p
  unfold besides
  rw [List.filter_filter]
  refine List.filter_congr fun e _ => ?_
  cases hfe : f e.1 with
  | true => rw [Bool.and_true]
  | false => simp [hf _ hfe]

open Classical in
theorem besides_append (Y : Set Place) (p : Place) (l l' : List (Place × Entry)) :
    besides Y p ⟨l ++ l'⟩ = besides Y p ⟨l⟩ ++ besides Y p ⟨l'⟩ :=
  List.filter_append _ _

/-- The same entry is put in both trees. -/
theorem Apart.put (h : Apart Y t t') (p : Place) (e : Entry) : Apart Y (t.put p e) (t'.put p e) := by
  intro r
  unfold FileTree.put
  rw [besides_append, besides_append]
  exact congrArg (· ++ _) (h.filter (· != p) r)

theorem apart_erase (t : FileTree) (hp : p ∈ Y) : Apart Y t (t.erase p) := by
  refine apart_filter t (f := (· != p)) fun q hq => ?_
  rw [bne_eq_false_iff_eq] at hq
  rwa [hq]

open Classical in
theorem apart_put (t : FileTree) (e : Entry) (hp : p ∈ Y) : Apart Y t (t.put p e) := by
  intro r
  have hnone : besides Y r ⟨[(p, e)]⟩ = [] := by
    unfold besides
    exact List.filter_eq_nil_iff.2 (List.forall_mem_singleton.2 (by simp [hp]))
  unfold FileTree.put
  rw [besides_append, hnone, List.append_nil]
  exact apart_erase t hp r

theorem apart_eraseAll (t : FileTree) (hp : ∀ q, p <+: q → q ∈ Y) : Apart Y t (t.eraseAll p) := by
  refine apart_filter t (f := fun q => !p.isPrefixOf q) fun q hq => hp q ?_
  rwa [Bool.not_eq_false', List.isPrefixOf_iff_prefix] at hq

/-- A change of trees that concerns a region, and is the same in trees that are alike. -/
structure Edits (Z : Set Place) (g : FileTree → FileTree) : Prop where
  apart : ∀ t, Apart Z t (g t)
  congr : ∀ {Y t t'}, Apart Y t t' → Apart Y (g t) (g t')

theorem edits_id (Z : Set Place) : Edits Z id :=
  ⟨fun t => .refl Z t, fun h => h⟩

theorem edits_put (e : Entry) (hp : p ∈ Z) : Edits Z fun t => t.put p e :=
  ⟨fun t => apart_put t e hp, fun h => h.put p e⟩

theorem edits_erase (hp : p ∈ Z) : Edits Z fun t => t.erase p :=
  ⟨fun t => apart_erase t hp, fun h => h.filter (· != p)⟩

theorem edits_eraseAll (hp : ∀ q, p <+: q → q ∈ Z) : Edits Z fun t => t.eraseAll p :=
  ⟨fun t => apart_eraseAll t hp, fun h => h.filter fun q => !p.isPrefixOf q⟩

theorem Edits.mono (h : Edits Y g) (hYZ : Y ⊆ Z) : Edits Z g :=
  ⟨fun t => (h.apart t).mono hYZ, h.congr⟩

/-! ## Work below a place -/

theorem prefix_dropLast_of_below (h : Below p q) : p <+: q.dropLast := by
  obtain ⟨name, rest, rfl⟩ := below_iff.1 h
  rw [List.dropLast_append_of_ne_nil (List.cons_ne_nil _ _)]
  exact List.prefix_append p _

theorem below_of_prefix_dropLast (hq : q ≠ []) (h : p <+: q.dropLast) : Below p q := by
  refine ⟨h.trans (List.dropLast_prefix q), fun heq => ?_⟩
  have hlt : q.dropLast.length < q.length := by
    rw [List.length_dropLast]
    exact Nat.sub_one_lt (by simpa using hq)
  rw [heq] at hlt
  exact absurd (heq ▸ h.length_le) (Nat.not_le.2 hlt)

open Classical in
/-- Trees stay alike if in both something works below a place that is beside the region, changes
nothing elsewhere, and leaves the same there. -/
theorem Apart.of_inside (h : Apart Y t t') (hp : ∀ q, Below p q → q ∉ Y)
    (hu : Apart {q | Below p q} t u) (hu' : Apart {q | Below p q} t' u')
    (hsame : Apart {q | ¬ Below p q} u u') : Apart Y u u' := by
  intro r
  by_cases hr : p <+: r
  · -- All that is in this directory is below the place.
    have hinner : ∀ t : FileTree, t.besides Y r = t.besides {q | ¬ Below p q} r := by
      intro t
      unfold besides
      refine List.filter_congr fun e _ => ?_
      rw [decide_eq_decide]
      refine and_congr_right fun hne => and_congr_right fun hdrop => ?_
      have hbelow : Below p e.1 := below_of_prefix_dropLast hne (hdrop ▸ hr)
      exact iff_of_true (hp _ hbelow) fun hnot => hnot hbelow
    rw [hinner, hinner, hsame]
  · -- Nothing that is in this directory is below the place.
    have houter : ∀ t : FileTree,
        t.besides Y r = (t.besides {q | Below p q} r).filter fun e => e.1 ∉ Y := by
      intro t
      unfold besides
      rw [List.filter_filter]
      refine List.filter_congr fun e _ => ?_
      rw [Bool.eq_iff_iff]
      simp only [decide_eq_true_eq, Bool.and_eq_true, Set.mem_ofPred_eq]
      refine ⟨fun ⟨hne, hdrop, hY⟩ => ⟨hY, hne, hdrop, fun hbelow => ?_⟩,
        fun ⟨hY, hne, hdrop, _⟩ => ⟨hne, hdrop, hY⟩⟩
      exact hr (hdrop ▸ prefix_dropLast_of_below hbelow)
    have hsame' : t'.besides Y r = t.besides Y r := h r
    rw [houter, houter] at hsame'
    rw [houter, houter, hu' r, hu r, hsame']

end EmbeddedSolidity.FileSystem.FileTree
