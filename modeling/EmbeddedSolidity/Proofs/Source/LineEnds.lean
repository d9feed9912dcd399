import Mathlib.Data.List.TakeWhile
import Mathlib.Tactic.SplitIfs

/-!
# Line ends

The copy of a text with other line ends has a carriage return in front of every line feed (`crlf`).
A front of a text that is on one line is the front of the copy, and what follows it in the copy is the
copy of what follows it.

* `take_crlf`, `drop_crlf` : a front of so many characters;
* `takeWhile_crlf`, `dropWhile_crlf` : a front of characters that pass a test;
* `Inline` : a count of characters that are on one line.
-/

namespace EmbeddedSolidity.Source

/-- The text with a carriage return in front of every line feed. -/
def crlf : List Char → List Char
  | [] => []
  | c :: rest => if c = '\n' then '\r' :: '\n' :: crlf rest else c :: crlf rest

variable {c : Char} {cs rest : List Char}

@[simp] theorem crlf_nil : crlf [] = [] :=
  rfl

@[simp] theorem crlf_newline (rest : List Char) : crlf ('\n' :: rest) = '\r' :: '\n' :: crlf rest :=
  rfl

theorem crlf_cons (h : c ≠ '\n') (rest : List Char) : crlf (c :: rest) = c :: crlf rest :=
  if_neg h

/-- A character in front of the copy that is not part of a line end is in front of the text. -/
theorem of_crlf_eq_cons {copy : List Char} (h : crlf cs = c :: copy) (hc : c ≠ '\r') :
    ∃ rest, cs = c :: rest ∧ copy = crlf rest := by
  match cs with
  | [] => cases h
  | d :: rest =>
    by_cases hd : d = '\n'
    · subst hd
      exact absurd (List.cons.inj h).1.symm hc
    · rw [crlf_cons hd] at h
      obtain ⟨rfl, rfl⟩ := List.cons.inj h
      exact ⟨rest, rfl, rfl⟩

/-- The same of two characters. -/
theorem of_crlf_eq_cons_cons {d : Char} {copy : List Char} (h : crlf cs = c :: d :: copy)
    (hc : c ≠ '\r') (hd : d ≠ '\r') : ∃ rest, cs = c :: d :: rest ∧ copy = crlf rest := by
  obtain ⟨rest, rfl, hrest⟩ := of_crlf_eq_cons h hc
  obtain ⟨rest, rfl, rfl⟩ := of_crlf_eq_cons hrest.symm hd
  exact ⟨rest, rfl, rfl⟩

theorem crlf_cons_cons {d : Char} (hc : c ≠ '\n') (hd : d ≠ '\n') (rest : List Char) :
    crlf (c :: d :: rest) = c :: d :: crlf rest := by
  rw [crlf_cons hc, crlf_cons hd]

theorem crlf_append (cs ds : List Char) : crlf (cs ++ ds) = crlf cs ++ crlf ds := by
  induction cs with
  | nil => rfl
  | cons c cs ih =>
    by_cases hc : c = '\n'
    · subst hc
      simp [ih]
    · rw [List.cons_append, crlf_cons hc, crlf_cons hc, ih, List.cons_append]

/-- A text on one line is its own copy. -/
theorem crlf_of_not_mem (h : '\n' ∉ cs) : crlf cs = cs := by
  induction cs with
  | nil => rfl
  | cons c cs ih =>
    rw [List.mem_cons, not_or] at h
    rw [crlf_cons (Ne.symm h.1), ih h.2]

/-- The first characters, if they are on one line, are the first characters of the copy. -/
theorem take_crlf {n : Nat} (h : '\n' ∉ cs.take n) : (crlf cs).take n = cs.take n := by
  induction cs generalizing n with
  | nil => rfl
  | cons c cs ih =>
    cases n with
    | zero => rfl
    | succ n =>
      rw [List.take_succ_cons, List.mem_cons, not_or] at h
      rw [crlf_cons (Ne.symm h.1), List.take_succ_cons, List.take_succ_cons, ih h.2]

/-- What follows them in the copy is the copy of what follows them. -/
theorem drop_crlf {n : Nat} (h : '\n' ∉ cs.take n) : (crlf cs).drop n = crlf (cs.drop n) := by
  induction cs generalizing n with
  | nil => simp
  | cons c cs ih =>
    cases n with
    | zero => rfl
    | succ n =>
      rw [List.take_succ_cons, List.mem_cons, not_or] at h
      rw [crlf_cons (Ne.symm h.1), List.drop_succ_cons, List.drop_succ_cons, ih h.2]

/-- A test that neither character of a line end passes. -/
def StopsAtLineEnd (p : Char → Bool) : Prop :=
  p '\n' = false ∧ p '\r' = false

theorem takeWhile_crlf {p : Char → Bool} (hp : StopsAtLineEnd p) (cs : List Char) :
    (crlf cs).takeWhile p = cs.takeWhile p := by
  induction cs with
  | nil => rfl
  | cons c cs ih =>
    by_cases hc : c = '\n'
    · subst hc
      simp [hp.1, hp.2]
    · rw [crlf_cons hc, List.takeWhile_cons, List.takeWhile_cons, ih]

theorem dropWhile_crlf {p : Char → Bool} (hp : StopsAtLineEnd p) (cs : List Char) :
    (crlf cs).dropWhile p = crlf (cs.dropWhile p) := by
  induction cs with
  | nil => rfl
  | cons c cs ih =>
    by_cases hc : c = '\n'
    · subst hc
      simp [hp.1, hp.2]
    · rw [crlf_cons hc, List.dropWhile_cons, List.dropWhile_cons]
      split_ifs
      · exact ih
      · rw [crlf_cons hc]

/-- What such a test counts is on one line. -/
theorem not_mem_take_length {p : Char → Bool} (hp : StopsAtLineEnd p) (cs : List Char) :
    '\n' ∉ cs.take (cs.takeWhile p).length := by
  intro hmem
  rw [← List.prefix_iff_eq_take.1 (List.takeWhile_prefix p)] at hmem
  have hnewline := List.mem_takeWhile_imp hmem
  rw [hp.1] at hnewline
  cases hnewline

/-- The front in two parts. -/
theorem not_mem_take_add {m n : Nat} (hm : '\n' ∉ cs.take m) (hn : '\n' ∉ (cs.drop m).take n) :
    '\n' ∉ cs.take (m + n) := by
  rw [List.take_add, List.mem_append, not_or]
  exact ⟨hm, hn⟩

/-- A front of the text that is counted is on one line. -/
def Inline (cs : List Char) (count : Option Nat) : Prop :=
  ∀ n, count = some n → '\n' ∉ cs.take n

theorem inline_none (cs : List Char) : Inline cs none :=
  nofun

theorem inline_zero (cs : List Char) : Inline cs (some 0) := fun n hn => by
  cases hn
  exact List.not_mem_nil

theorem Inline.succ {count : Option Nat} (h : Inline cs count) (hc : c ≠ '\n') :
    Inline (c :: cs) (count.map (· + 1)) := fun n hn => by
  obtain ⟨m, hm, rfl⟩ := Option.map_eq_some_iff.1 hn
  rw [List.take_succ_cons, List.mem_cons, not_or]
  exact ⟨Ne.symm hc, h m hm⟩

end EmbeddedSolidity.Source
