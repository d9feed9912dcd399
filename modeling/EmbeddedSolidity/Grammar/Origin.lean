import EmbeddedSolidity.Grammar.Outline

/-!
# Where trees come from

A parser that reads some outlines only ever sees these outlines, what they enclose, and the ends of
such lists. `Part` says so of the outlines that are left to it : their groups are groups of the outlines
that are read. What a number of a group stands for is the body of a group in the trees, which is
smaller than the trees in which the group stands (`inside_bodyAt`).

* `Part.drop`, `Part.inside` : passing outlines and going into a group;
* `bodyAt`, `placeAt` : the body and the place of a number.
-/

namespace EmbeddedSolidity.Grammar

open EmbeddedSolidity.Source (Tree Delimiter sizes places)

/-! ## Outlines -/

variable {origin os : List Outline}

/-- The groups among the outlines are groups of the origin. -/
def Part (origin os : List Outline) : Prop :=
  groupNumbers os ⊆ groupNumbers origin

namespace Part

theorem refl (origin : List Outline) : Part origin origin :=
  fun _ h => h

theorem nil : Part origin [] :=
  nofun

theorem tail {a : Outline} (h : Part origin (a :: os)) : Part origin os :=
  fun _ hn => h (List.mem_append_right _ hn)

theorem drop : ∀ {os : List Outline} (n : Nat), Part origin os → Part origin (os.drop n)
  | _, 0, h => h
  | [], _ + 1, _ => nil
  | _ :: _, n + 1, h => drop n h.tail

theorem inside {n : Nat} {d : Delimiter} {body : List Outline}
    (h : Part origin (.group n d body :: os)) : Part origin body :=
  fun _ hn => h (List.mem_append_left _ (List.mem_cons_of_mem n hn))

theorem group {n : Nat} {d : Delimiter} {body : List Outline}
    (h : Part origin (.group n d body :: os)) : n ∈ groupNumbers origin :=
  h (List.mem_append_left _ List.mem_cons_self)

end Part

/-! ## Trees -/

variable {trees ts : List Tree}

/-- The trees are in a group of the origin. -/
structure Inside (origin ts : List Tree) : Prop where
  sizes_lt : sizes ts < sizes origin
  places_subset : places ts ⊆ places origin

/-- A place of the origin. At the end of a scope, and in front of a group or a literal, there is
no place; it is empty then. -/
def PlaceIn (origin : List Tree) (place : List Char) : Prop :=
  place = [] ∨ place ∈ places origin

/-- The body of the group with a number. -/
def bodyAt (trees : List Tree) (n : Nat) : List Tree :=
  match (numbered trees)[n]? with
  | some (.group _ body) => body
  | _ => []

/-- The place of the word or mark with a number. -/
def placeAt (trees : List Tree) (n : Nat) : List Char :=
  match (numbered trees)[n]? with
  | some (.word place _ _) => place
  | some (.mark place _ _) => place
  | _ => []

/-- The number of a group is that of a group in the trees. -/
theorem inside_bodyAt {n : Nat} (hn : n ∈ groupNumbers (outlines trees)) :
    Inside trees (bodyAt trees n) := by
  obtain ⟨-, d, body, hat⟩ := exists_of_mem_outlines trees hn
  obtain ⟨hsize, hplaces⟩ := le_of_mem_numbered trees (List.mem_of_getElem? hat)
  rw [Nat.sub_zero] at hat
  rw [Tree.size] at hsize
  unfold bodyAt
  rw [hat]
  exact ⟨hsize, hplaces⟩

theorem placeIn_placeAt (trees : List Tree) (n : Nat) : PlaceIn trees (placeAt trees n) := by
  have hmem : ∀ {t : Tree}, (numbered trees)[n]? = some t → t.places ⊆ places trees :=
    fun hat => (le_of_mem_numbered trees (List.mem_of_getElem? hat)).2
  unfold placeAt
  split
  · next hat => exact Or.inr (hmem hat List.mem_cons_self)
  · next hat => exact Or.inr (hmem hat List.mem_cons_self)
  · exact Or.inl rfl

end EmbeddedSolidity.Grammar
