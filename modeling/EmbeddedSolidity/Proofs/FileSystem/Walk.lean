import EmbeddedSolidity.FileSystem.Resolve
import EmbeddedSolidity.Proofs.FileSystem.Tree
import Mathlib.Tactic.SplitIfs

/-!
# Walking to directories

`Reaches t n here names m there` says that the names lead from the directory `here` to the directory
`there`, through links while `n` of them may be followed, of which `m` are left. What further names
lead to is found by walking on from there (`walk_append`), and names that lead to something behind
them reach a directory themselves (`reaches_of_walk_append`).

* `reaches_iff_walk` : the directories that a walk ends in;
* `Reaches.mono` : a walk needs the directories and the links of the tree only;
* `Reaches.unique` : names reach one directory, and the same one in every tree that agrees on the
  directories and links.
-/

namespace EmbeddedSolidity.FileSystem.FileTree

variable {t t' : FileTree}

/-- A name that stands for itself. -/
def Plain (name : String) : Prop :=
  name ≠ "" ∧ name ≠ "." ∧ name ≠ ".." ∧ name.utf8ByteSize ≤ maxName

instance (name : String) : Decidable (Plain name) :=
  inferInstanceAs (Decidable (_ ∧ _))

/-- The names lead from a directory to a directory. -/
inductive Reaches (t : FileTree) : Nat → Place → List String → Nat → Place → Prop where
  | nil (n : Nat) (here : Place) : Reaches t n here [] n here
  | skip {n m : Nat} {here there : Place} {name : String} {rest : List String} :
    name = "" ∨ name = "." → Reaches t n here rest m there → Reaches t n here (name :: rest) m there
  | up {n m : Nat} {here there : Place} {rest : List String} :
    Reaches t n here.dropLast rest m there → Reaches t n here (".." :: rest) m there
  | down {n m : Nat} {here there : Place} {name : String} {rest : List String} :
    Plain name → t.get? (here ++ [name]) = some .directory →
    Reaches t n (here ++ [name]) rest m there → Reaches t n here (name :: rest) m there
  | link {n m : Nat} {here there : Place} {name target : String} {rest : List String} :
    Plain name → t.get? (here ++ [name]) = some (.link target) →
    Reaches t n (startOf here target) (namesOf target ++ rest) m there →
    Reaches t (n + 1) here (name :: rest) m there

/-! ## Steps of a walk -/

section Steps

variable {follow : Bool} {n : Nat} {here : Place} {name : String} {rest : List String}

theorem walk_nil (t : FileTree) (follow : Bool) (n : Nat) (here : Place) :
    t.walk follow n here [] = .ok (.entry here .directory) := by
  cases n <;> rfl

theorem walk_skip (h : name = "" ∨ name = ".") :
    t.walk follow n here (name :: rest) = t.walk follow n here rest := by
  cases n <;> simp only [walk, walkNames, if_pos h]

theorem walk_up : t.walk follow n here (".." :: rest) = t.walk follow n here.dropLast rest := by
  have h : ¬ (".." = "" ∨ ".." = ".") := by decide
  cases n <;> simp only [walk, walkNames, if_neg h, if_pos]

/-- What a walk does at a plain name. -/
theorem walk_plain (h : Plain name) :
    t.walk follow n here (name :: rest) =
      match t.get? (here ++ [name]) with
      | none =>
        if t.get? here = some .directory ∧ rest.all (· == "") then
          .ok (.free (here ++ [name]) !rest.isEmpty)
        else .error .notFound
      | some .directory => t.walk follow n (here ++ [name]) rest
      | some (.file content executable) =>
        if rest.isEmpty then .ok (.entry (here ++ [name]) (.file content executable))
        else .error .notDirectory
      | some (.link target) =>
        if rest.isEmpty && !follow then .ok (.entry (here ++ [name]) (.link target))
        else
          match n with
          | 0 => .error .tooManyLinks
          | n + 1 => t.walk follow n (startOf here target) (namesOf target ++ rest) := by
  obtain ⟨h1, h2, h3, h4⟩ := h
  have hskip : ¬ (name = "" ∨ name = ".") := by rintro (h | h) <;> contradiction
  have hlong : ¬ maxName < name.utf8ByteSize := Nat.not_lt.2 h4
  cases n <;> simp only [walk, walkNames, if_neg hskip, if_neg h3, if_neg hlong] <;> rfl

theorem walk_down (h : Plain name) (hthere : t.get? (here ++ [name]) = some .directory) :
    t.walk follow n here (name :: rest) = t.walk follow n (here ++ [name]) rest := by
  rw [walk_plain h, hthere]

theorem walk_free (h : Plain name) (hhere : t.get? here = some .directory)
    (hthere : t.get? (here ++ [name]) = none) :
    t.walk follow n here [name] = .ok (.free (here ++ [name]) false) := by
  rw [walk_plain h, hthere]
  exact if_pos ⟨hhere, rfl⟩

theorem walk_file {content : ByteArray} {executable : Bool} (h : Plain name)
    (hthere : t.get? (here ++ [name]) = some (.file content executable)) :
    t.walk follow n here [name] = .ok (.entry (here ++ [name]) (.file content executable)) := by
  rw [walk_plain h, hthere]
  rfl

/-- A name is passed over, leads up, is plain, or is too long. -/
theorem name_cases (name : String) :
    (name = "" ∨ name = ".") ∨ name = ".." ∨ Plain name ∨
      (¬ (name = "" ∨ name = ".") ∧ name ≠ ".." ∧ maxName < name.utf8ByteSize) := by
  unfold Plain
  by_cases h1 : name = "" ∨ name = "."
  · exact Or.inl h1
  · by_cases h2 : name = ".."
    · exact Or.inr (Or.inl h2)
    · rw [not_or] at h1
      rcases Nat.lt_or_ge maxName name.utf8ByteSize with h | h
      · exact Or.inr (Or.inr (Or.inr ⟨not_or.2 h1, h2, h⟩))
      · exact Or.inr (Or.inr (Or.inl ⟨h1.1, h1.2, h2, h⟩))

theorem walk_tooLong (h1 : ¬ (name = "" ∨ name = ".")) (h2 : name ≠ "..")
    (h3 : maxName < name.utf8ByteSize) :
    t.walk follow n here (name :: rest) = .error .nameTooLong := by
  cases n <;> simp only [walk, walkNames, if_neg h1, if_neg h2, if_pos h3]

end Steps

/-! ## Walking on -/

section Walks

variable {follow : Bool} {n m : Nat} {here there : Place} {xs ys : List String}

/-- Behind a directory that is reached the walk goes on from there. -/
theorem walk_append (h : Reaches t n here xs m there) (hys : ys ≠ [] ∨ follow = true) :
    t.walk follow n here (xs ++ ys) = t.walk follow m there ys := by
  induction h with
  | nil => rfl
  | skip hname _ ih => rw [List.cons_append, walk_skip hname, ih]
  | up _ ih => rw [List.cons_append, walk_up, ih]
  | down hname hthere _ ih => rw [List.cons_append, walk_plain hname, hthere, ← ih]
  | @link n m here there name target rest hname hthere _ ih =>
    have hlast : ((rest ++ ys).isEmpty && !follow) = false := by
      rcases hys with hys | rfl
      · simp [hys]
      · simp
    rw [List.cons_append, walk_plain hname, hthere]
    dsimp only
    rw [if_neg (by rw [hlast]; exact Bool.false_ne_true), ← List.append_assoc, ih]

/-- From a directory that is reached, names lead on. -/
theorem Reaches.append {k : Nat} {last : Place} (h : Reaches t n here xs m there)
    (h' : Reaches t m there ys k last) : Reaches t n here (xs ++ ys) k last := by
  induction h with
  | nil => exact h'
  | skip hname _ ih => exact .skip hname (ih h')
  | up _ ih => exact .up (ih h')
  | down hname hthere _ ih => exact .down hname hthere (ih h')
  | link hname hthere _ ih => exact .link hname hthere (List.append_assoc _ _ _ ▸ ih h')

/-- A walk passes a directory between two lists of names, or it ends before the second list, which
is possible only if that asks for nothing, and not in a directory. -/
theorem walk_append_cases (t : FileTree) (follow : Bool) (ys : List String) {r : Found} :
    ∀ (n : Nat) (here : Place) (xs : List String), t.walk follow n here (xs ++ ys) = .ok r →
      (∃ m there, Reaches t n here xs m there ∧ t.walk follow m there ys = .ok r) ∨
        (ys.all (· == "") = true ∧ ∀ p, r ≠ .entry p .directory) := by
  intro n
  induction n using Nat.strongRecOn with
  | ind n ihn =>
    intro here xs
    induction xs generalizing here with
    | nil => exact fun h => Or.inl ⟨n, here, .nil n here, h⟩
    | cons name rest ih =>
      intro h
      rw [List.cons_append] at h
      rcases name_cases name with hskip | rfl | hplain | ⟨h1, h2, h3⟩
      · rw [walk_skip hskip] at h
        exact (ih here h).imp_left fun ⟨m, there, hreach, hw⟩ => ⟨m, there, .skip hskip hreach, hw⟩
      · rw [walk_up] at h
        exact (ih _ h).imp_left fun ⟨m, there, hreach, hw⟩ => ⟨m, there, .up hreach, hw⟩
      · rw [walk_plain hplain] at h
        split at h
        · split_ifs at h with hall
          cases h
          rw [List.all_append, Bool.and_eq_true] at hall
          exact Or.inr ⟨hall.2.2, nofun⟩
        · next hthere =>
          exact (ih _ h).imp_left fun ⟨m, there, hreach, hw⟩ =>
            ⟨m, there, .down hplain hthere hreach, hw⟩
        · split_ifs at h with hempty
          cases h
          have hys : ys = [] := (List.append_eq_nil_iff.1 (List.isEmpty_iff.1 hempty)).2
          exact Or.inr ⟨by rw [hys]; rfl, nofun⟩
        · next target hthere =>
          split_ifs at h with hlast
          · cases h
            rw [Bool.and_eq_true, List.isEmpty_iff] at hlast
            have hys : ys = [] := (List.append_eq_nil_iff.1 hlast.1).2
            exact Or.inr ⟨by rw [hys]; rfl, nofun⟩
          · cases n with
            | zero => cases h
            | succ n =>
              dsimp only at h
              rw [← List.append_assoc] at h
              exact (ihn n (Nat.lt_succ_self n) _ _ h).imp_left fun ⟨m, there, hreach, hw⟩ =>
                ⟨m, there, .link hplain hthere hreach, hw⟩
      · rw [walk_tooLong h1 h2 h3] at h
        cases h

/-- Names that lead to something behind them lead to a directory. -/
theorem reaches_of_walk_append {r : Found} (h : t.walk follow n here (xs ++ ys) = .ok r)
    (hys : ys.all (· == "") = false) :
    ∃ m there, Reaches t n here xs m there ∧ t.walk follow m there ys = .ok r := by
  rcases walk_append_cases t follow ys n here xs h with h | ⟨hall, -⟩
  · exact h
  · rw [hys] at hall
    cases hall

/-- A walk that ends in a directory reaches it, be a link at the end followed or not. -/
theorem reaches_of_walk (h : t.walk follow n here xs = .ok (.entry there .directory)) :
    ∃ m, Reaches t n here xs m there := by
  rw [← List.append_nil xs] at h
  rcases walk_append_cases t follow [] n here xs h with ⟨m, p, hreach, hw⟩ | ⟨-, hne⟩
  · rw [walk_nil] at hw
    cases hw
    exact ⟨m, hreach⟩
  · exact absurd rfl (hne there)

/-- The directories in which walks end. -/
theorem reaches_iff_walk :
    (∃ m, Reaches t n here xs m there) ↔ t.walk true n here xs = .ok (.entry there .directory) := by
  constructor
  · rintro ⟨m, h⟩
    have hw := @walk_append t true n m here there xs [] h (Or.inr rfl)
    rw [List.append_nil, walk_nil] at hw
    exact hw
  · exact reaches_of_walk

/-! ## Other trees -/

/-- A walk needs the directories and the links only. -/
theorem Reaches.mono (h : Reaches t n here xs m there) (hkeeps : KeepsWays t t') :
    Reaches t' n here xs m there := by
  induction h with
  | nil n here => exact .nil n here
  | skip hname _ ih => exact .skip hname ih
  | up _ ih => exact .up ih
  | down hname hthere _ ih => exact .down hname (hkeeps _ _ isWay_directory hthere) ih
  | link hname hthere _ ih => exact .link hname (hkeeps _ _ (isWay_link _) hthere) ih

/-- Names reach at most one directory, also in trees that differ otherwise than in their ways. -/
theorem Reaches.unique {m' : Nat} {there' : Place} (h : Reaches t n here xs m there)
    (hagree : AgreeOnWays t t') (h' : Reaches t' n here xs m' there') :
    m' = m ∧ there' = there := by
  induction h with
  | nil =>
    cases h'
    exact ⟨rfl, rfl⟩
  | skip hname _ ih =>
    cases h' with
    | skip _ h' => exact ih h'
    | up _ => exact absurd hname (by decide)
    | down hplain _ _ => exact absurd hname (not_or.2 ⟨hplain.1, hplain.2.1⟩)
    | link hplain _ _ => exact absurd hname (not_or.2 ⟨hplain.1, hplain.2.1⟩)
  | up _ ih =>
    cases h' with
    | skip hname _ => exact absurd hname (by decide)
    | up h' => exact ih h'
    | down hplain _ _ => exact absurd rfl hplain.2.2.1
    | link hplain _ _ => exact absurd rfl hplain.2.2.1
  | down hplain hthere _ ih =>
    cases h' with
    | skip hname _ => exact absurd hname (not_or.2 ⟨hplain.1, hplain.2.1⟩)
    | up _ => exact absurd rfl hplain.2.2.1
    | down _ _ h' => exact ih h'
    | link _ hlink _ =>
      exact nomatch hagree _ _ _ isWay_directory (isWay_link _) hthere hlink
  | link hplain hthere _ ih =>
    cases h' with
    | skip hname _ => exact absurd hname (not_or.2 ⟨hplain.1, hplain.2.1⟩)
    | up _ => exact absurd rfl hplain.2.2.1
    | down _ hdown _ =>
      exact nomatch hagree _ _ _ (isWay_link _) isWay_directory hthere hdown
    | link _ hlink h' =>
      obtain rfl := Entry.link.inj (hagree _ _ _ (isWay_link _) (isWay_link _) hthere hlink)
      exact ih h'

/-- In a well-formed tree names lead from a directory to a directory. -/
theorem Reaches.directory (h : Reaches t n here xs m there) (hwf : t.WellFormed)
    (hhere : t.get? here = some .directory) : t.get? there = some .directory := by
  have hup : ∀ {p : Place}, t.get? p = some .directory → t.get? p.dropLast = some .directory := by
    intro p hp
    by_cases hnil : p = []
    · rw [hnil]
      rfl
    · exact hwf p _ hnil hp
  induction h with
  | nil => exact hhere
  | skip _ _ ih => exact ih hhere
  | up _ ih => exact ih (hup hhere)
  | down _ hthere _ ih => exact ih hthere
  | @link _ _ here _ _ target _ _ _ _ ih =>
    refine ih ?_
    unfold startOf
    split
    · rfl
    · exact hhere

/-- If names reach a directory, a walk that does not follow a link at the end finds the directory
or such a link. -/
theorem Reaches.walk_false (h : Reaches t n here xs m there) :
    t.walk false n here xs = .ok (.entry there .directory) ∨
      ∃ q target, t.walk false n here xs = .ok (.entry q (.link target)) := by
  induction h with
  | nil => exact Or.inl (walk_nil _ _ _ _)
  | skip hname _ ih =>
    rw [walk_skip hname]
    exact ih
  | up _ ih =>
    rw [walk_up]
    exact ih
  | down hplain hthere _ ih =>
    rw [walk_plain hplain, hthere]
    exact ih
  | @link n _ here _ name target rest hplain hthere _ ih =>
    rw [walk_plain hplain, hthere]
    dsimp only
    split
    · exact Or.inr ⟨_, _, rfl⟩
    · exact ih

end Walks

end EmbeddedSolidity.FileSystem.FileTree
