import EmbeddedSolidity.Proofs.Plan.Run

/-!
# Logs of plans

A log holds the calls of a plan, in order, with the answers that they got. Whatever the answers are,
a plan that is made of two parts first has the log of the one and then that of the other, so what is
known of the parts is known of the whole, be the machine a file tree or not.

* `Plan.Ends` : with such a log the plan ends in such a result;
* `Plan.ends_log` : the run on a host is such an end, with its log `Plan.log`;
* `Plan.Ends.of_bind`, `Plan.Ends.of_andThen`, `Plan.Ends.unique` : the log of plans in sequence;
* `Plan.Ends.bind`, `Plan.exists_ends_answered` : making a log;
* `Plan.steps`, `Plan.Ends.run_eq` : the trees in which calls are made, which are told by the log;
* `Plan.Follows` : what is left of a plan behind such a log;
* `Plan.always_bind`, `Plan.always_andThen` : the calls and the results that a plan can have,
  whatever the answers are.
-/

namespace EmbeddedSolidity

open FileSystem

/-- A call and the answer to it. -/
abbrev Exchange : Type :=
  (c : Call) × c.Answer

/-- The call starts a program. -/
def Call.Starts : Call → Prop
  | .execute _ _ _ => True
  | _ => False

namespace Plan

variable {α β ε : Type}

/-- With these calls, so answered, the plan ends in this result. -/
inductive Ends : Plan α → List Exchange → α → Prop where
  | done (a : α) : Ends (.done a) [] a
  | ask {c : Call} {next : c.Answer → Plan α} {log : List Exchange} {a : α} (answer : c.Answer) :
    Ends (next answer) log a → Ends (.ask c next) (⟨c, answer⟩ :: log) a

/-- The calls of a run on a host, with their answers. -/
def log (h : Host) : Plan α → FileTree → List Exchange
  | .done _, _ => []
  | .ask c next, t =>
    let (answer, t) := h.answer t c
    ⟨c, answer⟩ :: (next answer).log h t

/-- A run on a host ends in its result, with its log. -/
theorem ends_log (h : Host) (p : Plan α) (t : FileTree) : Ends p (p.log h t) (p.run h t).1 := by
  induction p generalizing t with
  | done a => exact .done a
  | ask c next ih => exact .ask _ (ih _ _)

theorem log_bind (h : Host) (p : Plan α) (f : α → Plan β) (t : FileTree) :
    (p >>= f).log h t = p.log h t ++ (f (p.run h t).1).log h (p.run h t).2 := by
  change (p.bind f).log h t = _
  induction p generalizing t with
  | done a => rfl
  | ask c next ih =>
    change _ :: _ = _ :: _
    rw [ih]
    rfl

/-- The first calls are those of the first plan. -/
theorem log_prefix_bind (h : Host) (p : Plan α) (f : α → Plan β) (t : FileTree) :
    p.log h t <+: (p >>= f).log h t := by
  rw [log_bind]
  exact List.prefix_append _ _

/-! ## Plans in sequence -/

variable {log : List Exchange}

theorem Ends.of_pure {a b : α} (he : Ends (pure a : Plan α) log b) : log = [] ∧ b = a := by
  cases he
  exact ⟨rfl, rfl⟩

theorem Ends.of_call {c : Call} {a : c.Answer} (he : Ends (call c) log a) : log = [⟨c, a⟩] := by
  cases he with
  | ask answer he =>
    cases he
    rfl

/-- The log of a plan behind another is behind the log of that. -/
theorem Ends.of_bind {p : Plan α} {f : α → Plan β} {b : β} (he : Ends (p >>= f) log b) :
    ∃ first a second, log = first ++ second ∧ Ends p first a ∧ Ends (f a) second b := by
  change Ends (p.bind f) log b at he
  induction p generalizing log with
  | done a => exact ⟨[], a, log, rfl, .done a, he⟩
  | ask c next ih =>
    cases he with
    | ask answer he =>
      obtain ⟨first, a, second, rfl, hfirst, hsecond⟩ := ih answer he
      exact ⟨_ :: first, a, second, rfl, .ask answer hfirst, hsecond⟩

/-- A plan that may fail ends with its error, or goes on with its result. -/
theorem Ends.of_andThen {p : Plan (Except ε α)} {f : α → Plan (Except ε β)} {r : Except ε β}
    (he : Ends (andThen p f) log r) :
    (∃ e, Ends p log (.error e) ∧ r = .error e) ∨
      ∃ first a second, log = first ++ second ∧ Ends p first (.ok a) ∧ Ends (f a) second r := by
  obtain ⟨first, result, second, rfl, hfirst, hsecond⟩ := he.of_bind
  cases result with
  | error e =>
    obtain ⟨rfl, rfl⟩ := hsecond.of_pure
    exact Or.inl ⟨e, by rwa [List.append_nil], rfl⟩
  | ok a => exact Or.inr ⟨first, a, second, rfl, hfirst, hsecond⟩

/-- The answers tell where a plan ends and with which result. -/
theorem Ends.unique {p : Plan α} {log log' rest rest' : List Exchange} {a a' : α}
    (he : Ends p log a) (he' : Ends p log' a') (heq : log ++ rest = log' ++ rest') :
    log' = log ∧ a' = a := by
  induction he generalizing log' with
  | done =>
    cases he'
    exact ⟨rfl, rfl⟩
  | ask answer _ ih =>
    cases he' with
    | ask answer' he' =>
      obtain ⟨hexchange, hmore⟩ := List.cons.inj heq
      cases hexchange
      obtain ⟨rfl, rfl⟩ := ih he' hmore
      exact ⟨rfl, rfl⟩

/-- A text that was read, or the fault, is told by the answer to one call. -/
theorem Ends.of_readText {path : String} {r : Except Fault String}
    (he : Ends (readText path) log r) : ∃ answer, log = [⟨.read path, answer⟩] ∧
      ∀ text, r = .ok text → ∃ bytes, answer = .ok bytes ∧ Text.decode? bytes = some text := by
  obtain ⟨first, answer, second, rfl, hfirst, hsecond⟩ := he.of_bind
  obtain rfl := hfirst.of_call
  cases answer with
  | error fault =>
    obtain ⟨rfl, rfl⟩ := hsecond.of_pure
    exact ⟨.error fault, rfl, nofun⟩
  | ok bytes =>
    dsimp only at hsecond
    cases hdecoded : Text.decode? bytes with
    | none =>
      rw [hdecoded] at hsecond
      obtain ⟨rfl, rfl⟩ := hsecond.of_pure
      exact ⟨.ok bytes, rfl, nofun⟩
    | some text =>
      rw [hdecoded] at hsecond
      obtain ⟨rfl, rfl⟩ := hsecond.of_pure
      exact ⟨.ok bytes, rfl, fun text' ht => ⟨bytes, rfl, by rw [hdecoded, Except.ok.inj ht]⟩⟩

/-! ## Making logs -/

section Making

variable {first second : List Exchange}

theorem ends_pure (a : α) : Ends (pure a : Plan α) [] a :=
  .done a

theorem ends_call (c : Call) (answer : c.Answer) : Ends (call c) [⟨c, answer⟩] answer :=
  .ask answer (.done answer)

/-- A plan behind another goes on where that ends. -/
theorem Ends.bind {p : Plan α} {f : α → Plan β} {a : α} {b : β} (hp : Ends p first a)
    (hf : Ends (f a) second b) : Ends (p >>= f) (first ++ second) b := by
  induction hp with
  | done a => exact hf
  | ask answer _ ih => exact .ask answer (ih hf)

theorem Ends.map {p : Plan α} {a : α} (hp : Ends p log a) (f : α → β) :
    Ends (p >>= fun a => pure (f a)) log (f a) := by
  have hboth : Ends (p >>= fun a => pure (f a)) (log ++ []) (f a) := hp.bind (ends_pure (f a))
  rwa [List.append_nil] at hboth

/-- The logs of plans in sequence. -/
theorem ends_bind_iff {p : Plan α} {f : α → Plan β} {b : β} : Ends (p >>= f) log b ↔
    ∃ first a second, log = first ++ second ∧ Ends p first a ∧ Ends (f a) second b := by
  constructor
  · exact Ends.of_bind
  · rintro ⟨first, a, second, rfl, hp, hf⟩
    exact hp.bind hf

theorem ends_pure_iff {a b : α} : Ends (pure a : Plan α) log b ↔ log = [] ∧ b = a := by
  constructor
  · exact Ends.of_pure
  · rintro ⟨rfl, rfl⟩
    exact ends_pure _

theorem ends_call_iff {c : Call} {a : c.Answer} : Ends (call c) log a ↔ log = [⟨c, a⟩] := by
  constructor
  · exact Ends.of_call
  · rintro rfl
    exact ends_call c a

theorem Ends.andThen_error {p : Plan (Except ε α)} {f : α → Plan (Except ε β)} {e : ε}
    (hp : Ends p log (.error e)) : Ends (andThen p f) log (.error e) := by
  have hboth : Ends (andThen p f) (log ++ []) (.error e) := hp.bind (.done _)
  rwa [List.append_nil] at hboth

theorem Ends.andThen_ok {p : Plan (Except ε α)} {f : α → Plan (Except ε β)} {a : α}
    {r : Except ε β} (hp : Ends p first (.ok a)) (hf : Ends (f a) second r) :
    Ends (andThen p f) (first ++ second) r :=
  hp.bind hf

/-- A file that is no text, or cannot be read, has no text. -/
theorem ends_readText_error {path : String} (f : Fault) :
    Ends (readText path) [⟨.read path, .error f⟩] (.error f) :=
  (ends_call (.read path) (.error f)).bind (.done _)

theorem ends_readText_bytes (path : String) (bytes : ByteArray) :
    Ends (readText path) [⟨.read path, .ok bytes⟩]
      (match Text.decode? bytes with
        | some text => .ok text
        | none => .error .notText) := by
  refine (ends_call (.read path) (.ok bytes)).bind ?_
  dsimp only
  cases Text.decode? bytes <;> exact .done _

/-- With any answers a plan ends. -/
theorem exists_ends_answered (answers : (c : Call) → c.Answer) (p : Plan α) :
    ∃ log a, Ends p log a ∧ ∀ x ∈ log, x.2 = answers x.1 := by
  induction p with
  | done a => exact ⟨[], a, .done a, List.forall_mem_nil _⟩
  | ask c next ih =>
    obtain ⟨log, a, he, hlog⟩ := ih (answers c)
    exact ⟨_, a, .ask _ he, List.forall_mem_cons.2 ⟨rfl, hlog⟩⟩

end Making

/-! ## The trees of a run -/

/-- The calls of a run on a host, each with the tree in which it is made and with its answer. -/
def steps (h : Host) : Plan α → FileTree → List (FileTree × Exchange)
  | .done _, _ => []
  | .ask c next, t =>
    let (answer, t') := h.answer t c
    (t, ⟨c, answer⟩) :: (next answer).steps h t'

/-- A plan that ends with the log of another one's run does on that host what the other one does. -/
theorem Ends.run_eq {h : Host} {p : Plan α} {q : Plan β} {t : FileTree} {b : β}
    (he : Ends q (p.log h t) b) :
    q.steps h t = p.steps h t ∧ q.run h t = (b, (p.run h t).2) := by
  generalize hlog : p.log h t = log at he
  induction he generalizing p t with
  | done b =>
    cases p with
    | done a => exact ⟨rfl, rfl⟩
    | ask c next => cases hlog
  | @ask c next log b answer _ ih =>
    cases p with
    | done a => cases hlog
    | ask c' next' =>
      obtain ⟨hexchange, hmore⟩ := List.cons.inj hlog
      cases hexchange
      obtain ⟨hsteps, hrun⟩ := ih hmore
      exact ⟨congrArg (_ :: ·) hsteps, hrun⟩

/-! ## What is left of a plan -/

/-- After these calls, so answered, this is left of the plan. -/
inductive Follows : Plan α → List Exchange → Plan α → Prop where
  | refl (p : Plan α) : Follows p [] p
  | ask {c : Call} {next : c.Answer → Plan α} {log : List Exchange} {rest : Plan α}
    (answer : c.Answer) :
    Follows (next answer) log rest → Follows (.ask c next) (⟨c, answer⟩ :: log) rest

/-- One more call is answered. -/
theorem Follows.snoc {p : Plan α} {c : Call} {next : c.Answer → Plan α}
    (hp : Follows p log (.ask c next)) (answer : c.Answer) :
    Follows p (log ++ [⟨c, answer⟩]) (next answer) := by
  generalize hrest : Plan.ask c next = rest at hp
  induction hp with
  | refl =>
    subst hrest
    exact .ask answer (.refl _)
  | ask answer' _ ih => exact .ask answer' (ih hrest)

/-- The end of what is left is the end of the plan. -/
theorem Follows.ends {p rest : Plan α} {more : List Exchange} {a : α} (hp : Follows p log rest)
    (he : Ends rest more a) : Ends p (log ++ more) a := by
  induction hp with
  | refl => exact he
  | ask answer _ ih => exact .ask answer (ih he)

/-- Nothing is left of a plan that has ended. -/
theorem Follows.done {p : Plan α} {a : α} (hp : Follows p log (.done a)) : Ends p log a := by
  have he := hp.ends (.done a)
  rwa [List.append_nil] at he

theorem nonempty_answer (c : Call) : Nonempty c.Answer := by
  cases c with
  | isDirectory => exact ⟨false⟩
  | locate => exact ⟨none⟩
  | kind | list | read | write | makeDirectories | removeFile | removeTree | execute =>
    exact ⟨.error .notFound⟩

/-- Every plan can end. -/
theorem exists_ends (p : Plan α) : ∃ log a, Ends p log a := by
  induction p with
  | done a => exact ⟨[], a, .done a⟩
  | ask c next ih =>
    obtain ⟨answer⟩ := nonempty_answer c
    obtain ⟨log, a, he⟩ := ih answer
    exact ⟨_, a, .ask _ he⟩

/-- A plan that goes on with a call can end, whatever the answer is. -/
theorem Follows.exists_ends {p : Plan α} {c : Call} {next : c.Answer → Plan α}
    (hp : Follows p log (.ask c next)) (answer : c.Answer) :
    ∃ more a, Ends p (log ++ ⟨c, answer⟩ :: more) a := by
  obtain ⟨more, a, he⟩ := Plan.exists_ends (next answer)
  exact ⟨more, a, hp.ends (.ask answer he)⟩

/-! ## Whatever the answers are -/

/-- Whatever the answers are, the plan makes such calls only and gives such a result. -/
def Always (P : Call → Prop) (Q : α → Prop) (p : Plan α) : Prop :=
  ∀ log a, Ends p log a → (∀ x ∈ log, P x.1) ∧ Q a

/-- Whatever the answers are, the plan gives such a result. -/
abbrev Gives (Q : α → Prop) (p : Plan α) : Prop :=
  p.Always (fun _ => True) Q

variable {P : Call → Prop} {Q : α → Prop} {R : β → Prop}

/-- What a plan always gives, it gives on a host. -/
theorem Always.ensures {p : Plan α} (hp : p.Always P Q) (h : Host) (t : FileTree) :
    Ensures h p t fun a _ => Q a :=
  (hp _ _ (ends_log h p t)).2

theorem Always.mono {Q' : α → Prop} {p : Plan α} (hp : p.Always P Q) (hQ : ∀ a, Q a → Q' a) :
    p.Always P Q' :=
  fun log a he => ⟨(hp log a he).1, hQ a (hp log a he).2⟩

theorem Always.weaken {P' : Call → Prop} {p : Plan α} (hp : p.Always P Q) (hP : ∀ c, P c → P' c) :
    p.Always P' Q :=
  fun log a he => ⟨fun x hx => hP x.1 ((hp log a he).1 x hx), (hp log a he).2⟩

theorem gives_any (p : Plan α) : p.Gives fun _ => True :=
  fun _ _ _ => ⟨fun _ _ => trivial, trivial⟩

theorem always_pure {a : α} (hQ : Q a) : (pure a : Plan α).Always P Q := fun _ _ he => by
  obtain ⟨rfl, rfl⟩ := he.of_pure
  exact ⟨List.forall_mem_nil _, hQ⟩

theorem always_call {c : Call} (hc : P c) : (call c).Always P fun _ => True := fun _ _ he => by
  obtain rfl := he.of_call
  exact ⟨List.forall_mem_singleton.2 hc, trivial⟩

theorem always_bind {p : Plan α} {f : α → Plan β} (hp : p.Always P Q)
    (hf : ∀ a, Q a → (f a).Always P R) : (p >>= f).Always P R := fun _ _ he => by
  obtain ⟨first, a, second, rfl, hfirst, hsecond⟩ := he.of_bind
  obtain ⟨hcalls, hQ⟩ := hp _ _ hfirst
  obtain ⟨hmore, hR⟩ := hf a hQ _ _ hsecond
  exact ⟨List.forall_mem_append.2 ⟨hcalls, hmore⟩, hR⟩

theorem always_andThen {p : Plan (Except ε α)} {f : α → Plan (Except ε β)}
    {Q : Except ε α → Prop} {R : Except ε β → Prop} (hp : p.Always P Q)
    (herror : ∀ e, Q (.error e) → R (.error e)) (hok : ∀ a, Q (.ok a) → (f a).Always P R) :
    (andThen p f).Always P R :=
  always_bind hp fun r hr => match r with
    | .error e => always_pure (herror e hr)
    | .ok a => hok a hr

theorem always_readText {path : String} (hpath : P (.read path)) :
    (readText path).Always P fun _ => True := fun _ _ he => by
  obtain ⟨answer, rfl, -⟩ := he.of_readText
  exact ⟨List.forall_mem_singleton.2 hpath, trivial⟩

end Plan

end EmbeddedSolidity
