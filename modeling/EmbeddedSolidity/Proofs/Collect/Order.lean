import EmbeddedSolidity.Collect
import Mathlib.Data.List.Forall2
import Mathlib.Data.List.Lex
import Mathlib.Data.List.Sort
import Mathlib.Data.Prod.Lex
import Mathlib.Data.String.Basic

/-!
# The order of paths

Paths are compared by the keys of their components, which are linearly ordered. So paths that are put in
order are strictly increasing, every path that was there is still there up to its spelling, and which
paths are kept is decided by the components that occur, not by their order or number.

* `Path.isBefore_iff`, `Path.same_iff` : comparing paths is comparing keys;
* `Collect.pairwise_inOrder`, `Collect.mem_of_mem_inOrder`, `Collect.exists_same_inOrder` : paths in
  order;
* `Collect.same_inOrder` : lists with the same components are the same in order.
-/

namespace EmbeddedSolidity

namespace Path

/-! ## Keys -/

/-- A component as the order sees it : its rank, and among names the name. -/
def Component.key : Component → Nat ×ₗ String
  | .root => toLex (0, "")
  | .current => toLex (1, "")
  | .parent => toLex (2, "")
  | .named name => toLex (3, name)

theorem Component.isBefore_iff (a b : Component) : a.isBefore b = true ↔ a.key < b.key := by
  cases a <;> cases b <;> simp [isBefore, key, Prod.Lex.toLex_lt_toLex]

theorem Component.key_injective : Function.Injective Component.key := by
  intro a b h
  cases a <;> cases b <;> simp_all [key]

/-- A path as the order sees it. -/
def key (path : String) : List (Nat ×ₗ String) :=
  (components path).map Component.key

theorem listBefore_iff : ∀ as bs : List Component,
    listBefore as bs = true ↔ as.map Component.key < bs.map Component.key
  | [], [] => by simp [listBefore]
  | [], _ :: _ => by simp [listBefore]
  | _ :: _, [] => by simp [listBefore]
  | a :: as, b :: bs => by
    rw [listBefore, Bool.or_eq_true, Bool.and_eq_true, beq_iff_eq, Component.isBefore_iff,
      listBefore_iff as bs, List.map_cons, List.map_cons, List.cons_lt_cons_iff,
      Component.key_injective.eq_iff]

theorem isBefore_iff (a b : String) : isBefore a b = true ↔ key a < key b :=
  listBefore_iff _ _

theorem same_iff (a b : String) : same a b = true ↔ key a = key b := by
  unfold same key
  rw [beq_iff_eq, (List.map_injective_iff.2 Component.key_injective).eq_iff]

end Path

namespace Collect

open EmbeddedSolidity.Path (key)

variable {l l' : List String}

/-! ## Paths in order -/

theorem mem_of_mem_dropRepeated {x : String} : ∀ {l : List String}, x ∈ dropRepeated l → x ∈ l
  | [], h => h
  | path :: rest, h => by
    have ih := @mem_of_mem_dropRepeated x rest
    unfold dropRepeated at h
    cases hrest : dropRepeated rest with
    | nil =>
      rw [hrest] at h
      exact List.mem_cons.2 ((List.mem_cons.1 h).imp_right nofun)
    | cons next more =>
      rw [hrest] at h ih
      dsimp only at h
      split_ifs at h
      · exact List.mem_cons.2 ((List.mem_cons.1 h).imp_right fun h => ih (List.mem_cons_of_mem _ h))
      · exact List.mem_cons.2 ((List.mem_cons.1 h).imp_right ih)

/-- What is dropped has the components of a path that is kept. -/
theorem mem_map_key_dropRepeated (k : List (Nat ×ₗ String)) :
    ∀ l : List String, k ∈ (dropRepeated l).map key ↔ k ∈ l.map key
  | [] => Iff.rfl
  | path :: rest => by
    have ih := mem_map_key_dropRepeated k rest
    rw [List.map_cons, List.mem_cons, ← ih]
    conv_lhs => unfold dropRepeated
    cases hrest : dropRepeated rest with
    | nil => rw [List.map_cons, List.mem_cons]
    | cons next more =>
      dsimp only
      split_ifs with hsame
      · rw [List.map_cons, List.map_cons, List.mem_cons, List.mem_cons, (Path.same_iff _ _).1 hsame,
          or_self_left]
      · rw [List.map_cons, List.mem_cons]

theorem pairwise_dropRepeated : ∀ {l : List String}, l.Pairwise (fun a b => key a ≤ key b) →
    (dropRepeated l).Pairwise fun a b => key a < key b
  | [], _ => List.Pairwise.nil
  | path :: rest, h => by
    rw [List.pairwise_cons] at h
    have ih := pairwise_dropRepeated h.2
    have hle : ∀ x ∈ dropRepeated rest, key path ≤ key x := fun x hx =>
      h.1 x (mem_of_mem_dropRepeated hx)
    unfold dropRepeated
    cases hrest : dropRepeated rest with
    | nil => exact List.pairwise_singleton _ _
    | cons next more =>
      rw [hrest] at ih hle
      dsimp only
      split_ifs with hsame
      · rw [List.pairwise_cons] at ih ⊢
        refine ⟨fun x hx => ?_, ih.2⟩
        rw [(Path.same_iff _ _).1 hsame]
        exact ih.1 x hx
      · have hne : key path ≠ key next := fun h => hsame ((Path.same_iff _ _).2 h)
        have hlt : key path < key next := lt_of_le_of_ne (hle next List.mem_cons_self) hne
        rw [List.pairwise_cons] at ih
        refine List.pairwise_cons.2 ⟨fun x hx => ?_, List.pairwise_cons.2 ih⟩
        rcases List.mem_cons.1 hx with rfl | hx
        · exact hlt
        · exact hlt.trans (ih.1 x hx)

/-- Paths in order are strictly increasing. -/
theorem pairwise_inOrder (l : List String) :
    (inOrder l).Pairwise fun a b => Path.isBefore a b = true := by
  have hle : ∀ a b, (!Path.isBefore b a) = true ↔ key a ≤ key b := fun a b => by
    rw [Bool.not_eq_true', Bool.eq_false_iff, ne_eq, Path.isBefore_iff, not_lt]
  have hsorted : (l.mergeSort fun a b => !Path.isBefore b a).Pairwise fun a b =>
      (!Path.isBefore b a) = true :=
    List.pairwise_mergeSort
      (fun a b c hab hbc => (hle a c).2 (((hle a b).1 hab).trans ((hle b c).1 hbc)))
      (fun a b => by
        rw [Bool.or_eq_true, hle, hle]
        exact le_total _ _) l
  have hstrict := pairwise_dropRepeated (hsorted.imp fun h => (hle _ _).1 h)
  exact hstrict.imp fun h => (Path.isBefore_iff _ _).2 h

theorem mem_of_mem_inOrder {x : String} (h : x ∈ inOrder l) : x ∈ l :=
  List.mem_mergeSort.1 (mem_of_mem_dropRepeated h)

theorem mem_map_key_inOrder (k : List (Nat ×ₗ String)) (l : List String) :
    k ∈ (inOrder l).map key ↔ k ∈ l.map key := by
  unfold inOrder
  rw [mem_map_key_dropRepeated]
  exact ((List.mergeSort_perm l _).map key).mem_iff

/-- Every path is kept in one spelling. -/
theorem exists_same_inOrder {x : String} (h : x ∈ l) : ∃ y ∈ inOrder l, Path.same x y = true := by
  obtain ⟨y, hy, hkey⟩ := List.mem_map.1
    ((mem_map_key_inOrder (key x) l).2 (List.mem_map_of_mem h))
  exact ⟨y, hy, (Path.same_iff _ _).2 hkey.symm⟩

/-- Which paths are kept is decided by the components that occur. -/
theorem same_inOrder (h : ∀ x ∈ l, ∃ y ∈ l', Path.same x y = true)
    (h' : ∀ y ∈ l', ∃ x ∈ l, Path.same y x = true) :
    List.Forall₂ (fun a b => Path.same a b = true) (inOrder l) (inOrder l') := by
  have hsub : ∀ {l l' : List String}, (∀ x ∈ l, ∃ y ∈ l', Path.same x y = true) →
      ∀ k ∈ l.map key, k ∈ l'.map key := by
    intro l l' h k hk
    obtain ⟨x, hx, rfl⟩ := List.mem_map.1 hk
    obtain ⟨y, hy, hsame⟩ := h x hx
    exact (Path.same_iff _ _).1 hsame ▸ List.mem_map_of_mem hy
  have hmem : ∀ k, k ∈ (inOrder l).map key ↔ k ∈ (inOrder l').map key := fun k => by
    rw [mem_map_key_inOrder, mem_map_key_inOrder]
    exact ⟨hsub h k, hsub h' k⟩
  have hstrict : ∀ l : List String, ((inOrder l).map key).Pairwise (· < ·) := fun l =>
    List.pairwise_map.2 ((pairwise_inOrder l).imp fun h => (Path.isBefore_iff _ _).1 h)
  have heq : (inOrder l).map key = (inOrder l').map key :=
    List.Pairwise.eq_of_mem_iff (hstrict l) (hstrict l') fun {k} => hmem k
  have hsame : ∀ a b, Path.same a b = true ↔ key a = key b := Path.same_iff
  simp only [hsame]
  rw [← List.forall₂_map_left_iff (R := fun k b => k = key b), ← List.forall₂_map_right_iff, heq,
    List.forall₂_eq_eq_eq]

end Collect

end EmbeddedSolidity
