import EmbeddedSolidity.Plan.Host

/-!
# Runs of plans

What is known of a run of a plan from the runs of its parts : a step behind another begins in the
tree that the first one leaves, and a plan that stops at the first error goes on only after a
result.

* `Plan.ensures_bind`, `Plan.ensures_andThen` : the rules for plans in sequence;
* `Plan.run_readText`, `Plan.run_writeText` : reading and writing text.
-/

namespace EmbeddedSolidity.Plan

open FileSystem

variable {α β ε : Type} {h : Host} {t : FileTree}

/-- The plan ends in such a result and such a tree. -/
def Ensures (h : Host) (p : Plan α) (t : FileTree) (Q : α → FileTree → Prop) : Prop :=
  Q (p.run h t).1 (p.run h t).2

theorem ensures_pure {a : α} {Q : α → FileTree → Prop} (hQ : Q a t) :
    Ensures h (pure a : Plan α) t Q :=
  hQ

theorem run_call (h : Host) (t : FileTree) (c : Call) : (call c).run h t = h.answer t c :=
  rfl

theorem run_map (h : Host) (f : α → β) (p : Plan α) (t : FileTree) :
    (f <$> p).run h t = (f (p.run h t).1, (p.run h t).2) := by
  rw [map_eq_pure_bind, run_bind]
  rfl

/-- A plan behind another begins with its result, in its tree. -/
theorem ensures_bind {p : Plan α} {f : α → Plan β} {Q : β → FileTree → Prop}
    {P : α → FileTree → Prop} (hp : Ensures h p t P)
    (hf : ∀ a t', P a t' → Ensures h (f a) t' Q) : Ensures h (p >>= f) t Q := by
  unfold Ensures
  rw [run_bind]
  exact hf _ _ hp

/-- A run of plans in sequence is a run of the first and then one of the second. -/
theorem exists_run_of_bind {p : Plan α} {f : α → Plan β} {out : β × FileTree}
    (hrun : (p >>= f).run h t = out) :
    ∃ a t', p.run h t = (a, t') ∧ (f a).run h t' = out :=
  ⟨_, _, rfl, by rw [← run_bind, hrun]⟩

theorem Ensures.mono {p : Plan α} {P Q : α → FileTree → Prop} (hp : Ensures h p t P)
    (hPQ : ∀ a t', P a t' → Q a t') : Ensures h p t Q :=
  hPQ _ _ hp

/-- Two facts about the end of a plan. -/
theorem Ensures.and {p : Plan α} {P Q : α → FileTree → Prop} (hp : Ensures h p t P)
    (hq : Ensures h p t Q) : Ensures h p t fun a t' => P a t' ∧ Q a t' :=
  ⟨hp, hq⟩

/-- A plan that may fail is left with its error, or goes on with its result. -/
theorem ensures_andThen {p : Plan (Except ε α)} {f : α → Plan (Except ε β)}
    {Q : Except ε β → FileTree → Prop} {P : Except ε α → FileTree → Prop} (hp : Ensures h p t P)
    (herror : ∀ e t', P (.error e) t' → Q (.error e) t')
    (hok : ∀ a t', P (.ok a) t' → Ensures h (f a) t' Q) : Ensures h (andThen p f) t Q := by
  refine ensures_bind hp fun r t' hr => ?_
  cases r with
  | error e => exact herror e t' hr
  | ok a => exact hok a t' hr

theorem run_andThen_ok {p : Plan (Except ε α)} {f : α → Plan (Except ε β)} {a : α} {t' : FileTree}
    (hp : p.run h t = (.ok a, t')) : (andThen p f).run h t = (f a).run h t' := by
  unfold andThen
  rw [run_bind, hp]

theorem run_andThen_error {p : Plan (Except ε α)} {f : α → Plan (Except ε β)} {e : ε}
    {t' : FileTree} (hp : p.run h t = (.error e, t')) :
    (andThen p f).run h t = (.error e, t') := by
  unfold andThen
  rw [run_bind, hp]
  rfl

/-- The text of a file that a path leads to. -/
def textAt (h : Host) (t : FileTree) (path : String) : Except Fault String :=
  match t.read h.current path with
  | .ok bytes =>
    match Text.decode? bytes with
    | some text => .ok text
    | none => .error .notText
  | .error fault => .error fault

/-- Reading changes nothing. -/
theorem run_readText (h : Host) (t : FileTree) (path : String) :
    (readText path).run h t = (textAt h t path, t) := by
  unfold readText textAt
  rw [run_bind, run_call]
  dsimp only [Host.answer]
  cases t.read h.current path with
  | error fault => rfl
  | ok bytes =>
    dsimp only
    cases Text.decode? bytes <;> rfl

theorem run_writeText (h : Host) (t : FileTree) (path text : String) :
    (writeText path text).run h t = t.keeping (t.write h.current path text.toUTF8) :=
  rfl

end EmbeddedSolidity.Plan
