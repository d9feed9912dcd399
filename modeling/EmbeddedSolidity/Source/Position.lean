/-!
# Positions

A place in a source text. Lines count from one and end at a line feed only, so a carriage
return is one more character of its line. Columns count the characters before the place.

* `Position.past_append` : walking over two texts one after the other is walking over both;
* `Position.past_line` : a text without line feeds keeps the line;
* `Position.before_append` : the place of the end of a text is found by walking over the rest.
-/

namespace EmbeddedSolidity.Source

/-- A line, counted from one, and the number of characters before the place on it. -/
structure Position where
  line : Nat
  column : Nat
deriving DecidableEq, Repr

namespace Position

/-- The place before the first character. -/
def start : Position :=
  ⟨1, 0⟩

/-- The place after one character. -/
def step (p : Position) (c : Char) : Position :=
  if c == '\n' then ⟨p.line + 1, 0⟩ else ⟨p.line, p.column + 1⟩

/-- The place after a text. -/
def past (p : Position) (cs : List Char) : Position :=
  cs.foldl step p

/-- The place in a source where its end `tail` begins. -/
def before (source tail : List Char) : Position :=
  start.past (source.take (source.length - tail.length))

theorem past_append (p : Position) (cs ds : List Char) :
    p.past (cs ++ ds) = (p.past cs).past ds :=
  List.foldl_append

/-- A text without line feeds keeps the line and adds its length to the column. -/
theorem past_line {cs : List Char} (p : Position) (h : '\n' ∉ cs) :
    p.past cs = ⟨p.line, p.column + cs.length⟩ := by
  induction cs generalizing p with
  | nil => rfl
  | cons c cs ih =>
    have hc : c ≠ '\n' := fun e => h (e ▸ List.mem_cons_self)
    have hs : p.step c = ⟨p.line, p.column + 1⟩ := by simp [step, hc]
    change (p.step c).past cs = _
    rw [hs, ih _ fun e => h (List.mem_cons_of_mem c e)]
    simp [Nat.add_comm, Nat.add_left_comm]

theorem before_append (front tail : List Char) : before (front ++ tail) tail = start.past front := by
  simp [before]

end Position

end EmbeddedSolidity.Source
