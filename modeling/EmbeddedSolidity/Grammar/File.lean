import EmbeddedSolidity.Grammar.Item

/-!
# Files and lists of expressions

The two things that are read as a whole: a file of items, and the body of an invocation as a
list of expressions. Both are read by the grammar of a depth that the trees cannot exceed.

* `invocations` : the invocations of a file;
* `invocationsInside?` : the invocations of a list of expressions;
* `of_mem_invocations`, `of_mem_invocationsInside?` : they are part of the trees.
-/

namespace EmbeddedSolidity.Grammar

open EmbeddedSolidity.Source (Tree Delimiter)

variable {o : List Outline}

/-- A macro invocation: the source from its path on, the words of the path, and the group it is
applied to. -/
structure Invocation where
  place : List Char
  path : List String
  delimiter : Delimiter
  body : List Tree
deriving Repr

/-- The invocation is one of the trees `o` : its body is the body of a group in them, and its place
is one of theirs. -/
structure Invocation.Of (o : List Tree) (i : Invocation) : Prop where
  inside : Inside o i.body
  place : PlaceIn o i.place

/-- The invocation at a site of trees. -/
def Site.invocation (trees : List Tree) (s : Site) : Invocation where
  place := (s.place.map (placeAt trees)).getD []
  path := s.path
  delimiter := s.delimiter
  body := bodyAt trees s.body

theorem Site.of_invocation {trees : List Tree} {s : Site} (h : s.Of (outlines trees)) :
    (s.invocation trees).Of trees where
  inside := inside_bodyAt h
  place := by
    unfold Site.invocation
    cases s.place with
    | none => exact Or.inl rfl
    | some n => exact placeIn_placeAt trees n

namespace Readers

/-- The readers one level above. -/
def next (g : Readers o) : Readers o where
  type := g.typeExpression
  bound := g.singleBound
  pattern := g.singlePattern
  unary := g.operand
  operators := g.operatorsFrom
  statementExpression := g.statementForm
  statements := g.statementList
  item := g.itemForm

/-- The readers of a depth. -/
def ofDepth (n : Nat) : Readers o :=
  n.repeat next exhausted

/-- The readers for outlines. A construct that encloses itself takes at most four levels for each
shape that it reads. -/
def ofOutlines (o : List Outline) : Readers o :=
  ofDepth (4 * outlineSizes o + 8)

/-- A file: its attributes and its items. -/
def file (g : Readers o) : Parser o (Found o) := do
  let attributes ← g.innerAttributes
  return attributes ++ (← Parser.toEnd g.item)

end Readers

/-- The invocations of a file, or what is wrong with it. -/
def invocations (trees : List Tree) : Except String (List Invocation) :=
  (Readers.ofOutlines (outlines trees)).file.whole.map (·.map fun s => s.1.invocation trees)

/-- The invocations in trees that are expressions with commas between them. -/
def invocationsInside? (trees : List Tree) : Option (List Invocation) :=
  (Readers.ofOutlines (outlines trees)).expressions.whole.toOption.map
    (·.map fun s => s.1.invocation trees)

/-- The value of trees that are one string. -/
def stringOf : List Tree → Except String (List Char)
  | [.literal (.string value)] => .ok value
  | .literal (.string _) :: _ => .error "unexpected token"
  | [] => .error "unexpected end of input, expected string literal"
  | _ => .error "expected string literal"

/-- What is found in a file is part of it. -/
theorem of_mem_invocations {trees : List Tree} {found : List Invocation}
    (h : invocations trees = .ok found) {i : Invocation} (hi : i ∈ found) : i.Of trees := by
  unfold invocations at h
  cases hwhole : (Readers.ofOutlines (outlines trees)).file.whole with
  | error m =>
    rw [hwhole] at h
    cases h
  | ok sites =>
    rw [hwhole] at h
    cases h
    obtain ⟨s, -, rfl⟩ := List.mem_map.1 hi
    exact Site.of_invocation s.2

/-- What is found in the body of an invocation is part of it. -/
theorem of_mem_invocationsInside? {trees : List Tree} {found : List Invocation}
    (h : invocationsInside? trees = some found) {i : Invocation} (hi : i ∈ found) :
    i.Of trees := by
  obtain ⟨sites, -, rfl⟩ := Option.map_eq_some_iff.1 h
  obtain ⟨s, -, rfl⟩ := List.mem_map.1 hi
  exact Site.of_invocation s.2

end EmbeddedSolidity.Grammar
