/-!
# Similar names

Which of some names is meant by a name that is none of them. Two names are the more similar the
more characters they share at about the same places, and the fewer of these are out of order.

* `similarity` : a number between zero and one;
* `similar` : the names that are similar, the most similar one last.
-/

namespace EmbeddedSolidity.CommandLine

/-- How far apart shared characters may be. -/
def searchRange (a b : List Char) : Nat :=
  max a.length b.length / 2 - 1

/-- The first place in a range that holds a character and is not taken. -/
def partner? (b : Array Char) (taken : List Nat) (c : Char) (first last : Nat) : Option Nat :=
  (List.range last).find? fun j => first ≤ j && b[j]? == some c && !taken.contains j

/-- The places of the characters that both names share: those in the first name, and those in the
second one. -/
def shared (a b : List Char) : List Nat × List Nat :=
  let range := searchRange a b
  a.zipIdx.foldl (fun (left, right) (c, i) =>
    match partner? b.toArray right c (i - range) (min b.length (i + range + 1)) with
    | some j => (left ++ [i], right ++ [j])
    | none => (left, right)) ([], [])

/-- How many of the shared characters are out of order. -/
def outOfOrder (a b : List Char) (left right : List Nat) : Nat :=
  let xs := left.map fun i => a[i]?
  let ys := (right.mergeSort fun i j => decide (i ≤ j)).map fun j => b[j]?
  (xs.zip ys).countP fun (x, y) => x != y

/-- How similar two names are. -/
def similarity (first second : String) : Float :=
  let a := first.toList
  let b := second.toList
  let (left, right) := shared a b
  if a.isEmpty && b.isEmpty then 1
  else if left.isEmpty then 0
  else
    let matched := left.length.toFloat
    let moved := outOfOrder a b left right / 2
    (matched / a.length.toFloat + matched / b.length.toFloat +
      (left.length - moved).toFloat / matched) / 3

/-- What names that are similar must exceed. -/
def threshold : Float :=
  0.7

/-- Put a name behind those that are at most as similar. -/
def insertBySimilarity (entry : Float × String) : List (Float × String) → List (Float × String)
  | [] => [entry]
  | first :: rest =>
    if first.1 > entry.1 then entry :: first :: rest
    else first :: insertBySimilarity entry rest

/-- The names that are similar to a name, the most similar one last. -/
def similar (name : String) (names : List String) : List String :=
  let rated := names.map fun other => (similarity name other, other)
  ((rated.filter fun entry => entry.1 > threshold).foldl
    (fun found entry => insertBySimilarity entry found) []).map (·.2)

end EmbeddedSolidity.CommandLine
