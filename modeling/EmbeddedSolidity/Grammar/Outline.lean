import EmbeddedSolidity.Source.Token

/-!
# Outlines of trees

Neither where the tokens of a source stand nor what its strings hold decides whether it is a
program, or where the invocations of a program are. So the grammar reads outlines: trees without
the places of words and marks and without the values of strings. The trees are numbered in the
order in which they begin, and groups, words and marks keep their numbers, by which they are found
again.

* `outlines` : the outlines of trees;
* `groupNumbers` : the numbers of the groups in outlines;
* `numbered`, `exists_of_mem_outlines` : the trees by their numbers.
-/

namespace EmbeddedSolidity.Grammar

open EmbeddedSolidity.Source (Tree Delimiter Literal sizes places)

/-- What the grammar sees of a literal. -/
inductive LiteralClass where
  | string
  | integer (written : List Char)
  | float (written : List Char)
  | other
deriving DecidableEq, Repr

/-- The class of a literal. -/
def LiteralClass.of : Literal → LiteralClass
  | .string _ => string
  | .integer written => integer written
  | .float written => float written
  | .other => other

/-- What the grammar sees of a tree. -/
inductive Outline where
  | group (number : Nat) (delimiter : Delimiter) (body : List Outline)
  | word (number : Nat) (name : String) (raw : Bool)
  | mark (number : Nat) (sign : Char) (joint : Bool)
  | literal (value : LiteralClass)
deriving Repr

mutual

/-- The number of outlines in an outline, itself included. -/
def Outline.size : Outline → Nat
  | .group _ _ body => outlineSizes body + 1
  | _ => 1

/-- The number of outlines in a list of outlines. -/
def outlineSizes : List Outline → Nat
  | [] => 0
  | a :: as => a.size + outlineSizes as

end

mutual

/-- The numbers of the groups in an outline. -/
def Outline.groupNumbers : Outline → List Nat
  | .group n _ body => n :: Grammar.groupNumbers body
  | _ => []

/-- The numbers of the groups in a list of outlines. -/
def groupNumbers : List Outline → List Nat
  | [] => []
  | a :: as => a.groupNumbers ++ groupNumbers as

end

/-! ## The outlines of trees -/

mutual

/-- The outline of a tree whose number is `n`. -/
def Outline.of (n : Nat) : Tree → Outline
  | .group d body => .group n d (outlinesFrom (n + 1) body)
  | .word _ name raw => .word n name raw
  | .mark _ sign joint => .mark n sign joint
  | .literal value => .literal (.of value)

/-- The outlines of trees that are numbered from `n` on. -/
def outlinesFrom (n : Nat) : List Tree → List Outline
  | [] => []
  | t :: ts => .of n t :: outlinesFrom (n + t.size) ts

end

/-- The outlines of trees. -/
def outlines (ts : List Tree) : List Outline :=
  outlinesFrom 0 ts

mutual

/-- A tree and the trees in it, in the order in which they begin. -/
def inTree : Tree → List Tree
  | .group d body => .group d body :: numbered body
  | t => [t]

/-- The trees and those in them, in the order in which they begin, which is that of their
numbers. -/
def numbered : List Tree → List Tree
  | [] => []
  | t :: ts => inTree t ++ numbered ts

end

mutual

theorem length_inTree : ∀ t : Tree, (inTree t).length = t.size
  | .group _ body => by rw [inTree, List.length_cons, length_numbered body, Tree.size]
  | .word .. | .mark .. | .literal _ => rfl

theorem length_numbered : ∀ ts : List Tree, (numbered ts).length = sizes ts
  | [] => rfl
  | t :: ts => by
    rw [numbered, List.length_append, length_inTree t, length_numbered ts, sizes]

end

mutual

/-- The number of a group in the outline of a tree is that of a group in the tree. -/
theorem exists_of_mem_outline : ∀ (t : Tree) {n k : Nat}, n ∈ (Outline.of k t).groupNumbers →
    k ≤ n ∧ ∃ d body, (inTree t)[n - k]? = some (.group d body)
  | .group d body, n, k, hn => by
    rw [Outline.of, Outline.groupNumbers, List.mem_cons] at hn
    rcases hn with rfl | hn
    · exact ⟨Nat.le_refl _, d, body, by simp [inTree]⟩
    · obtain ⟨hle, d', body', hat⟩ := exists_of_mem_outlines body hn
      refine ⟨by omega, d', body', ?_⟩
      have hsucc : n - k = n - (k + 1) + 1 := by omega
      rw [inTree, hsucc, List.getElem?_cons_succ, hat]
  | .word .., n, k, hn | .mark .., n, k, hn | .literal _, n, k, hn => by
    simp [Outline.of, Outline.groupNumbers] at hn

/-- The number of a group in the outlines of trees is that of a group in the trees. -/
theorem exists_of_mem_outlines : ∀ (ts : List Tree) {n k : Nat}, n ∈ groupNumbers (outlinesFrom k ts) →
    k ≤ n ∧ ∃ d body, (numbered ts)[n - k]? = some (.group d body)
  | [], n, k, hn => by
    simp [outlinesFrom, groupNumbers] at hn
  | t :: ts, n, k, hn => by
    rw [outlinesFrom, groupNumbers, List.mem_append] at hn
    rcases hn with hn | hn
    · obtain ⟨hle, d, body, hat⟩ := exists_of_mem_outline t hn
      refine ⟨hle, d, body, ?_⟩
      rw [numbered, List.getElem?_append_left (List.getElem?_eq_some_iff.1 hat).1, hat]
    · obtain ⟨hle, d, body, hat⟩ := exists_of_mem_outlines ts hn
      refine ⟨by omega, d, body, ?_⟩
      have hrest : n - k - t.size = n - (k + t.size) := by omega
      rw [numbered, List.getElem?_append_right (by rw [length_inTree]; omega), length_inTree, hrest,
        hat]

end

mutual

/-- A tree in a tree is not larger, and its places are among those of the tree. -/
theorem le_of_mem_inTree : ∀ (t : Tree) {u : Tree}, u ∈ inTree t →
    u.size ≤ t.size ∧ u.places ⊆ t.places
  | .group d body, u, hu => by
    rw [inTree, List.mem_cons] at hu
    rcases hu with rfl | hu
    · exact ⟨Nat.le_refl _, fun _ h => h⟩
    · obtain ⟨hsize, hplaces⟩ := le_of_mem_numbered body hu
      exact ⟨by rw [Tree.size]; omega, hplaces⟩
  | .word .., u, hu | .mark .., u, hu | .literal _, u, hu => by
    obtain rfl := List.mem_singleton.1 hu
    exact ⟨Nat.le_refl _, fun _ h => h⟩

/-- A tree in trees is not larger than these, and its places are among theirs. -/
theorem le_of_mem_numbered : ∀ (ts : List Tree) {u : Tree}, u ∈ numbered ts →
    u.size ≤ sizes ts ∧ u.places ⊆ places ts
  | [], u, hu => by
    simp [numbered] at hu
  | t :: ts, u, hu => by
    rw [numbered, List.mem_append] at hu
    rw [sizes, places]
    rcases hu with hu | hu
    · obtain ⟨hsize, hplaces⟩ := le_of_mem_inTree t hu
      exact ⟨by omega, fun _ h => List.mem_append_left _ (hplaces h)⟩
    · obtain ⟨hsize, hplaces⟩ := le_of_mem_numbered ts hu
      exact ⟨by omega, fun _ h => List.mem_append_right _ (hplaces h)⟩

end

end EmbeddedSolidity.Grammar
