/-!
# File trees

A file tree holds an entry for each place in it. A place is the list of names that lead to it
from the root, which is always a directory; links are not followed in a place.

* `FileTree.get?_put_self`, `FileTree.get?_put_of_ne` : putting an entry changes one place;
* `FileTree.get?_erase_self`, `FileTree.get?_erase_of_ne` : so does erasing it;
* `FileTree.get?_eraseAll` : erasing with all that is below leaves every other place as it is.
-/

namespace EmbeddedSolidity.FileSystem

/-- Contents are compared in one way, although Mathlib has a second instance. -/
instance (priority := high) instDecidableEqContent : DecidableEq ByteArray :=
  ByteArray.instDecidableEq

/-- The names that lead to an entry from the root. -/
abbrev Place := List String

/-- What is at a place. -/
inductive Entry where
  | directory
  | file (content : ByteArray) (executable : Bool)
  | link (target : String)
deriving DecidableEq

/-- The entries of a file system, each at its place. -/
structure FileTree where
  entries : List (Place × Entry) := []

namespace FileTree

/-- The entry at a place. -/
def get? (t : FileTree) (p : Place) : Option Entry :=
  if p.isEmpty then some .directory else t.entries.lookup p

/-- Take the entry at a place away. -/
def erase (t : FileTree) (p : Place) : FileTree :=
  ⟨t.entries.filter (·.1 != p)⟩

/-- Put an entry at a place. -/
def put (t : FileTree) (p : Place) (e : Entry) : FileTree :=
  ⟨(t.erase p).entries ++ [(p, e)]⟩

/-- Take away the entry at a place and all that is below it. -/
def eraseAll (t : FileTree) (p : Place) : FileTree :=
  ⟨t.entries.filter fun e => !p.isPrefixOf e.1⟩

/-- Take away all that is below a place. -/
def eraseBelow (t : FileTree) (p : Place) : FileTree :=
  ⟨t.entries.filter fun e => !(p.isPrefixOf e.1 && e.1 != p)⟩

/-- The name of an entry in a directory. -/
def nameIn? (directory : Place) (p : Place) : Option String :=
  if p.dropLast = directory then p.getLast? else none

/-- The names of the entries in a directory. -/
def names (t : FileTree) (directory : Place) : List String :=
  t.entries.filterMap fun e => nameIn? directory e.1

/-- Nothing is in the directory. -/
def isEmptyAt (t : FileTree) (directory : Place) : Bool :=
  (t.names directory).isEmpty

/-! ## One place at a time -/

theorem lookup_cons (q r : Place) (e : Entry) (l : List (Place × Entry)) :
    ((r, e) :: l).lookup q = if q = r then some e else l.lookup q := by
  by_cases h : q = r
  · subst h
    rw [List.lookup_cons, beq_self_eq_true, if_pos rfl]
  · have hq : (q == r) = false := by simpa using h
    rw [List.lookup_cons, hq, if_neg h]

/-- Entries that a filter keeps whole are still found. -/
theorem lookup_filter {f : Place → Bool} {q : Place} (l : List (Place × Entry))
    (h : f q = true) : (l.filter fun e => f e.1).lookup q = l.lookup q := by
  induction l with
  | nil => rfl
  | cons e l ih =>
    obtain ⟨r, e⟩ := e
    by_cases hq : q = r
    · subst hq
      rw [List.filter_cons_of_pos (by simpa using h), lookup_cons, lookup_cons]
      simp
    · by_cases hf : f r = true
      · rw [List.filter_cons_of_pos (by simpa using hf), lookup_cons, lookup_cons, ih]
      · rw [List.filter_cons_of_neg (by simpa using hf), lookup_cons, ih]
        simp [hq]

/-- Entries that a filter drops are not found. -/
theorem lookup_filter_eq_none {f : Place → Bool} {q : Place} (l : List (Place × Entry))
    (h : f q = false) : (l.filter fun e => f e.1).lookup q = none := by
  induction l with
  | nil => rfl
  | cons e l ih =>
    obtain ⟨r, e⟩ := e
    by_cases hf : f r = true
    · have hq : q ≠ r := fun e => by simp [e, hf] at h
      rw [List.filter_cons_of_pos (by simpa using hf), lookup_cons, ih]
      simp [hq]
    · rw [List.filter_cons_of_neg (by simpa using hf), ih]

theorem lookup_append (l m : List (Place × Entry)) (q : Place) :
    (l ++ m).lookup q = (l.lookup q).or (m.lookup q) := by
  induction l with
  | nil => simp
  | cons e l ih =>
    obtain ⟨r, e⟩ := e
    rw [List.cons_append, lookup_cons, lookup_cons, ih]
    by_cases hq : q = r <;> simp [hq]

theorem get?_erase_self (t : FileTree) {p : Place} (h : p ≠ []) : (t.erase p).get? p = none := by
  have := lookup_filter_eq_none (f := (· != p)) (q := p) t.entries (by simp)
  simpa [get?, erase, h] using this

theorem get?_erase_of_ne (t : FileTree) {p q : Place} (h : q ≠ p) :
    (t.erase p).get? q = t.get? q := by
  have := lookup_filter (f := (· != p)) (q := q) t.entries (by simpa using h)
  simp only [get?, erase]
  rw [this]

theorem get?_put_self (t : FileTree) {p : Place} (e : Entry) (h : p ≠ []) :
    (t.put p e).get? p = some e := by
  have := get?_erase_self t h
  simp only [get?, List.isEmpty_iff, h, if_false] at this
  simp [get?, put, h, lookup_append, this]

theorem get?_put_of_ne (t : FileTree) {p q : Place} (e : Entry) (h : q ≠ p) :
    (t.put p e).get? q = t.get? q := by
  have := get?_erase_of_ne t h
  simp only [get?, put, lookup_append, lookup_cons, h, if_false] at this ⊢
  rw [← this]
  simp

/-- Erasing a place with all that is below it leaves every other place as it is. -/
theorem get?_eraseAll (t : FileTree) {p q : Place} (h : p.isPrefixOf q = false) :
    (t.eraseAll p).get? q = t.get? q := by
  have := lookup_filter (f := fun r => !p.isPrefixOf r) (q := q) t.entries (by simp [h])
  simp only [get?, eraseAll]
  rw [this]

end FileTree

end EmbeddedSolidity.FileSystem
