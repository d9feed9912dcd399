import EmbeddedSolidity.Proofs.FileSystem.Removal
import EmbeddedSolidity.Proofs.Plan.Log

/-!
# Plans in which a call fails

One call of a plan fails, with any fault, and the rest of the plan runs on what that call left : a write
may leave a part of the content, and making directories or removing a tree may stop half way.

* `Host.Fails` : what a call that fails answers and leaves;
* `Plan.Falters` : a run in which one call fails;
* `Plan.Falters.of_bind`, `Plan.Falters.of_andThen` : the call is one of the first plan or of the second;
* `Plan.Meets` : a run in which any number of calls fail;
* `Host.Meets.write`, `Host.Meets.makeDirectories`, `Host.Meets.gone` : what a call leaves of which it is
  only known what it answered.
-/

namespace EmbeddedSolidity

open FileSystem FileSystem.FileTree

/-- What a call that fails answers, and the tree that it leaves. -/
inductive Host.Fails (h : Host) (t : FileTree) : (call : Call) → call.Answer → FileTree → Prop where
  | kind {path : String} (f : Fault) : Fails h t (.kind path) (Except.error f) t
  | isDirectory {path : String} : Fails h t (.isDirectory path) false t
  | list {path : String} (f : Fault) : Fails h t (.list path) (Except.error f) t
  | read {path : String} (f : Fault) : Fails h t (.read path) (Except.error f) t
  /-- The file has not been opened. -/
  | write {path : String} {content : ByteArray} (f : Fault) :
    Fails h t (.write path content) (Except.error f) t
  /-- A part of the content has been written. -/
  | writePart {path : String} {content front rest : ByteArray} {t' : FileTree} (f : Fault) :
    content = front ++ rest → t.write h.current path front = .ok t' →
    Fails h t (.write path content) (Except.error f) t'
  | makeDirectories {path : String} {t' : FileTree} (f : Fault) :
    Partly t (t.makeDirectories h.current path).2 t' →
    Fails h t (.makeDirectories path) (Except.error f) t'
  | removeFile {path : String} (f : Fault) : Fails h t (.removeFile path) (Except.error f) t
  | removeTree {path : String} {t' : FileTree} (f : Fault) :
    Partly t (t.removeTree h.current path).2 t' →
    Fails h t (.removeTree path) (Except.error f) t'
  | locate {name : String} : Fails h t (.locate name) none t
  /-- The program has not been started. -/
  | execute {program directory : String} {limit : Option Nat} (f : Fault) :
    Fails h t (.execute program directory limit) (Except.error f) t

namespace Plan

variable {α β ε : Type} {h : Host} {t t' : FileTree} {failed : Call} {a : α} {b : β}

/-- A run in which the call `failed` fails, once. -/
inductive Falters (h : Host) : Plan α → FileTree → Call → α → FileTree → Prop where
  | now {call : Call} {next : call.Answer → Plan α} {t t' : FileTree} {answer : call.Answer} :
    h.Fails t call answer t' →
    Falters h (.ask call next) t call ((next answer).run h t').1 ((next answer).run h t').2
  | later {call : Call} {next : call.Answer → Plan α} {t t' : FileTree} {failed : Call} {a : α} :
    Falters h (next (h.answer t call).1) (h.answer t call).2 failed a t' →
    Falters h (.ask call next) t failed a t'

/-- A run in which a call fails is an end of the plan. -/
theorem Falters.exists_ends {p : Plan α} (hf : Falters h p t failed a t') : ∃ log, Ends p log a := by
  induction hf with
  | now => exact ⟨_, .ask _ (ends_log h _ _)⟩
  | later _ ih =>
    obtain ⟨log, hends⟩ := ih
    exact ⟨_, .ask _ hends⟩

/-! ## Plans in sequence -/

/-- No call, no failure. -/
theorem not_falters_pure {a' : α} : ¬ Falters h (pure a : Plan α) t failed a' t' :=
  nofun

theorem Falters.of_call {c : Call} {answer : c.Answer} (hf : Falters h (call c) t failed answer t') :
    failed = c ∧ h.Fails t c answer t' := by
  cases hf with
  | now hfails => exact ⟨rfl, hfails⟩
  | later hf => cases hf

/-- A call of the first plan fails and the second runs, or the first runs and a call of the second
fails. -/
theorem Falters.of_bind {p : Plan α} {f : α → Plan β} (hf : Falters h (p >>= f) t failed b t') :
    (∃ a t₁, Falters h p t failed a t₁ ∧ (f a).run h t₁ = (b, t')) ∨
      Falters h (f (p.run h t).1) (p.run h t).2 failed b t' := by
  change Falters h (p.bind f) t failed b t' at hf
  induction p generalizing t with
  | done a => exact Or.inr hf
  | ask c next ih =>
    cases hf with
    | @now _ _ _ t₁ answer hfails =>
      refine Or.inl ⟨_, _, .now hfails, ?_⟩
      exact (run_bind h (next answer) f t₁).symm
    | later hf =>
      refine (ih _ hf).imp_left fun ⟨a, t₁, hfalters, hrun⟩ => ?_
      exact ⟨a, t₁, .later hfalters, hrun⟩

/-- A plan that stops at an error. -/
theorem Falters.of_andThen {p : Plan (Except ε α)} {f : α → Plan (Except ε β)} {r : Except ε β}
    (hf : Falters h (andThen p f) t failed r t') :
    (∃ e, Falters h p t failed (.error e) t' ∧ r = .error e) ∨
      (∃ a t₁, Falters h p t failed (.ok a) t₁ ∧ (f a).run h t₁ = (r, t')) ∨
      ∃ a t₁, p.run h t = (.ok a, t₁) ∧ Falters h (f a) t₁ failed r t' := by
  rcases hf.of_bind with ⟨result, t₁, hfalters, hrun⟩ | hfalters
  · cases result with
    | error e =>
      obtain ⟨rfl, rfl⟩ := Prod.mk.inj hrun
      exact Or.inl ⟨e, hfalters, rfl⟩
    | ok a => exact Or.inr (Or.inl ⟨a, t₁, hfalters, hrun⟩)
  · rcases hrun : p.run h t with ⟨e | a, t₁⟩
    · rw [hrun] at hfalters
      exact absurd hfalters not_falters_pure
    · rw [hrun] at hfalters
      exact Or.inr (Or.inr ⟨a, t₁, rfl, hfalters⟩)

/-- A plan whose first step does not end well if a call of it fails. -/
theorem Falters.of_andThen_run {p : Plan (Except ε α)} {f : α → Plan (Except ε β)} {r : Except ε β}
    {t₁ : FileTree} (hstops : ∀ {r t'}, Falters h p t failed r t' → ∃ e, r = .error e)
    (hrun : p.run h t = (.ok a, t₁)) (hf : Falters h (andThen p f) t failed r t') :
    (∃ e, Falters h p t failed (.error e) t') ∨ Falters h (f a) t₁ failed r t' := by
  rcases hf.of_andThen with ⟨e, hfalters, -⟩ | ⟨a', t₂, hfalters, -⟩ | ⟨a', t₂, hrun', hfalters⟩
  · exact Or.inl ⟨e, hfalters⟩
  · obtain ⟨e, he⟩ := hstops hfalters
    cases he
  · obtain ⟨ha, rfl⟩ := Prod.mk.inj (hrun.symm.trans hrun')
    cases ha
    exact Or.inr hfalters

/-- The one call that reads a text fails, and nothing changes. -/
theorem Falters.of_readText {path : String} {r : Except Fault String}
    (hf : Falters h (readText path) t failed r t') : t' = t ∧ ∃ f, r = .error f := by
  rcases hf.of_bind with ⟨answer, t₁, hcall, hrun⟩ | hfalters
  · obtain ⟨rfl, hfails⟩ := hcall.of_call
    cases hfails with
    | read f =>
      obtain ⟨rfl, rfl⟩ := Prod.mk.inj hrun
      exact ⟨rfl, f, rfl⟩
  · split at hfalters
    · split at hfalters <;> exact absurd hfalters not_falters_pure
    · exact absurd hfalters not_falters_pure

/-! ## Runs in which a call fails -/

theorem falters_call {c : Call} {answer : c.Answer} (hfails : h.Fails t c answer t') :
    Falters h (call c) t c answer t' :=
  .now hfails

/-- A call of the first plan fails. -/
theorem Falters.bind {p : Plan α} (hp : Falters h p t failed a t') (f : α → Plan β) :
    Falters h (p >>= f) t failed ((f a).run h t').1 ((f a).run h t').2 := by
  change Falters h (p.bind f) t failed _ _
  induction hp with
  | @now _ next _ t₁ answer hfails =>
    have hrun := run_bind h (next answer) f t₁
    rw [← hrun]
    exact .now hfails
  | later _ ih => exact .later ih

/-- A call of the second plan fails. -/
theorem Falters.behind {p : Plan α} {f : α → Plan β} {t₁ : FileTree} (hrun : p.run h t = (a, t₁))
    (hf : Falters h (f a) t₁ failed b t') : Falters h (p >>= f) t failed b t' := by
  change Falters h (p.bind f) t failed b t'
  induction p generalizing t with
  | done a' =>
    cases hrun
    exact hf
  | ask c next ih => exact .later (ih _ hrun)

theorem Falters.andThen_error {p : Plan (Except ε α)} {e : ε} (hp : Falters h p t failed (.error e) t')
    (f : α → Plan (Except ε β)) : Falters h (andThen p f) t failed (.error e) t' :=
  hp.bind _

theorem Falters.andThen_behind {p : Plan (Except ε α)} {f : α → Plan (Except ε β)} {t₁ : FileTree}
    {r : Except ε β} (hrun : p.run h t = (.ok a, t₁)) (hf : Falters h (f a) t₁ failed r t') :
    Falters h (andThen p f) t failed r t' :=
  Falters.behind hrun hf

/-! ## Any number of failures -/

end Plan

/-- A call is answered by the host, or it fails. A removal that fails does not answer that nothing was
there. -/
inductive Host.Meets (h : Host) (t : FileTree) (c : Call) : c.Answer → FileTree → Prop where
  | answered : Meets h t c (h.answer t c).1 (h.answer t c).2
  | failed {answer : c.Answer} {t' : FileTree} : h.Fails t c answer t' →
    (∀ path, (⟨c, answer⟩ : Exchange) ≠ ⟨.removeTree path, Except.error .notFound⟩) →
    Meets h t c answer t'

namespace Plan

/-- A run in which any number of calls fail, with its log. -/
inductive Meets (h : Host) : Plan α → FileTree → List Exchange → α → FileTree → Prop where
  | done (a : α) (t : FileTree) : Meets h (.done a) t [] a t
  | ask {c : Call} {next : c.Answer → Plan α} {t t₁ t' : FileTree} {answer : c.Answer}
    {log : List Exchange} {a : α} : h.Meets t c answer t₁ → Meets h (next answer) t₁ log a t' →
    Meets h (.ask c next) t (⟨c, answer⟩ :: log) a t'

variable {log : List Exchange}

/-- A run in which no call fails. -/
theorem meets_log (h : Host) (p : Plan α) (t : FileTree) :
    Meets h p t (p.log h t) (p.run h t).1 (p.run h t).2 := by
  induction p generalizing t with
  | done a => exact .done a t
  | ask c next ih => exact .ask .answered (ih _ _)

theorem Meets.ends {p : Plan α} (hp : Meets h p t log a t') : Ends p log a := by
  induction hp with
  | done a => exact .done a
  | ask _ _ ih => exact .ask _ ih

theorem Meets.of_pure {a' : α} (hp : Meets h (pure a : Plan α) t log a' t') : a' = a ∧ t' = t := by
  cases hp
  exact ⟨rfl, rfl⟩

theorem Meets.of_call {c : Call} {answer : c.Answer} (hp : Meets h (call c) t log answer t') :
    h.Meets t c answer t' := by
  cases hp with
  | ask hmeets hrest =>
    obtain ⟨rfl, rfl⟩ := Meets.of_pure hrest
    exact hmeets

/-- A run of two plans is a run of the first and then one of the second. -/
theorem Meets.of_bind {p : Plan α} {f : α → Plan β} (hp : Meets h (p >>= f) t log b t') :
    ∃ a t₁ first second, Meets h p t first a t₁ ∧ Meets h (f a) t₁ second b t' := by
  change Meets h (p.bind f) t log b t' at hp
  induction p generalizing t log with
  | done a => exact ⟨a, t, [], log, .done a t, hp⟩
  | ask c next ih =>
    cases hp with
    | ask hmeets hrest =>
      obtain ⟨a, t₁, first, second, hfirst, hsecond⟩ := ih _ hrest
      exact ⟨a, t₁, _, second, .ask hmeets hfirst, hsecond⟩

/-- The last call leaves the tree in which the run ends. -/
theorem Meets.last {p : Plan α} {c : Call} {answer : c.Answer}
    (hp : Meets h p t (log ++ [⟨c, answer⟩]) a t') : ∃ t₁, h.Meets t₁ c answer t' := by
  induction log generalizing p t with
  | nil =>
    cases hp with
    | @ask _ next _ t₁ _ _ _ _ hmeets hrest =>
      generalize hnext : next answer = rest at hrest
      cases hrest
      exact ⟨_, hmeets⟩
  | cons x log ih =>
    cases hp with
    | ask _ hrest => exact ih hrest

end Plan

/-- Content is written to the place that its path targets, or a part of it, or nothing changes. -/
theorem Host.Meets.write {h : Host} {t t' : FileTree} {path : String} {content : ByteArray}
    {answer : Call.Answer (.write path content)}
    (hmeets : h.Meets t (.write path content) answer t') :
    (answer = Except.ok () ∧ ∃ q executable, t.Targets h.current path q ∧
        t' = t.put q (.file content executable)) ∨
      (∃ f, answer = Except.error f) ∧ (t' = t ∨ ∃ q part executable,
        t.Targets h.current path q ∧ t' = t.put q (.file part executable)) := by
  have hput : ∀ {part t'}, t.write h.current path part = .ok t' → ∃ q executable,
      t.Targets h.current path q ∧ t' = t.put q (.file part executable) := fun hwrite =>
    let ⟨q, executable, heq, htargets⟩ := write_eq_ok hwrite
    ⟨q, executable, htargets, heq⟩
  cases hmeets with
  | answered =>
    unfold Host.answer
    dsimp only
    cases hwrite : t.write h.current path content with
    | error f => exact .inr ⟨⟨f, rfl⟩, .inl rfl⟩
    | ok t' => exact .inl ⟨rfl, hput hwrite⟩
  | failed hfails =>
    cases hfails with
    | write f => exact .inr ⟨⟨f, rfl⟩, .inl rfl⟩
    | writePart f _ hwrite =>
      obtain ⟨q, executable, hpart⟩ := hput hwrite
      exact .inr ⟨⟨f, rfl⟩, .inr ⟨q, _, executable, hpart⟩⟩

/-- Of the directories of a path some are made, and nothing else changes. -/
theorem Host.Meets.makeDirectories {h : Host} {t t' : FileTree} {path : String}
    {answer : Call.Answer (.makeDirectories path)}
    (hmeets : h.Meets t (.makeDirectories path) answer t') :
    Extends t t' ∧ ∀ q e, t'.get? q = some e → t.get? q = some e ∨ e = .directory := by
  have hadds := adds_makeDirectories t h.current path
  cases hmeets with
  | answered => exact ⟨hadds.keeps, hadds.only⟩
  | failed hfails =>
    cases hfails with
    | makeDirectories f hpartly =>
      refine ⟨fun q e he => ?_, fun q e he => ?_⟩
      · exact (hpartly.either q).elim (fun hsame => hsame.trans he)
          fun hafter => hafter.trans (hadds.keeps q e he)
      · exact (hpartly.either q).elim (fun hsame => .inl (hsame.symm.trans he))
          fun hafter => hadds.only q e (hafter.symm.trans he)

/-- A removal that is answered, by whatever, as one that ended well or found nothing leaves nothing. -/
theorem Host.Meets.gone {h : Host} {t t' : FileTree} {path : String}
    {answer : Call.Answer (.removeTree path)} (hmeets : h.Meets t (.removeTree path) answer t')
    (hanswer : answer = Except.ok () ∨ answer = Except.error Fault.notFound) :
    t'.kind h.current path = .error .notFound := by
  cases hmeets with
  | answered => exact removeTree_gone hanswer
  | failed hfails hhonest =>
    cases hfails with
    | removeTree f _ =>
      rcases hanswer with hanswer | hanswer <;> cases hanswer
      exact absurd rfl (hhonest path)

end EmbeddedSolidity
