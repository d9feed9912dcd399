import EmbeddedSolidity.Proofs.FileSystem.Visits
import EmbeddedSolidity.Proofs.Plan.Run
import EmbeddedSolidity.Proofs.Run.Handlers

/-!
# What a plan needs of a tree

A call that is answered alike in all trees that differ from the one at hand in a region only, and that
does the same to them, cannot tell what is in that region. If this is so for every call of a run, the
whole run goes the same way in such a tree.

Two plans may be carried out on one tree at the same time, the calls of the one between those of the
other. If each needs nothing of the region that the other one changes, then each goes as it does
alone.

* `Call.Avoids`, `Call.Avoids.answer` : a call that looks, and the places that it looks at;
* `Frame.Allows` : a call that cannot tell what is in a region, and changes another only;
* `Plan.Along` : what holds of every call of a run; `Plan.Along.lockstep` : two runs side by side;
* `Plan.Logic` : what can be proved of plans in sequence, whatever it is;
* `Plan.Interleaved` : the calls of two plans in some order;
* `Plan.Interleaved.alone` : each plan as if it were alone.
-/

namespace EmbeddedSolidity

open FileSystem FileSystem.FileTree

variable {h : Host} {t t' : FileTree} {Y Z : Set Place}

/-! ## Calls that look -/

/-- The places that a call looks at, if it does not change anything. -/
def Call.visits (h : Host) (t : FileTree) : Call → List Place
  | .kind path => t.visitsOf h.current false path
  | .isDirectory path | .list path | .read path => t.visitsOf h.current true path
  | .locate name => (candidates h.current h.search name).flatMap (t.visitsOf h.current true)
  | .write _ _ | .makeDirectories _ | .removeFile _ | .removeTree _ | .execute _ _ _ => []

/-- A call does not look into a region, and lists no directory with an entry there. -/
structure Call.Avoids (h : Host) (Y : Set Place) (t : FileTree) (c : Call) : Prop where
  visits : ∀ q ∈ c.visits h t, q ∉ Y
  lists : ∀ path p, c = .list path → t.entryAt h.current true path = .ok (p, .directory) →
    ∀ name, p ++ [name] ∉ Y

/-- A call that does not look into a region is answered alike whatever is there. -/
theorem Call.Avoids.answer {c : Call} (havoids : c.Avoids h Y t) (hlooks : c.Looks)
    (hapart : Apart Y t t') : (h.answer t' c).1 = (h.answer t c).1 := by
  have hsame : ∀ q ∈ c.visits h t, t'.get? q = t.get? q :=
    fun q hq => hapart.get? (havoids.visits q hq)
  cases c with
  | kind path =>
    change t'.kind h.current path = t.kind h.current path
    unfold FileTree.kind
    rw [entryAt_congr hsame]
  | isDirectory path =>
    change t'.isDirectory h.current path = t.isDirectory h.current path
    unfold FileTree.isDirectory
    rw [entryAt_congr hsame]
  | list path =>
    change t'.list h.current path = t.list h.current path
    unfold FileTree.list
    rw [entryAt_congr hsame]
    rcases hentry : t.entryAt h.current true path with _ | ⟨p, _ | _ | _⟩
    · rfl
    · exact congrArg Except.ok (hapart.names (havoids.lists path p rfl hentry))
    · rfl
    · rfl
  | read path =>
    change t'.read h.current path = t.read h.current path
    unfold FileTree.read
    rw [entryAt_congr hsame]
  | locate name =>
    exact locate_congr fun candidate hcandidate q hq =>
      hsame q (List.mem_flatMap.2 ⟨candidate, hcandidate, hq⟩)
  | write | makeDirectories | removeFile | removeTree | execute => exact hlooks.elim

/-- What a call avoids does not depend on what is there. -/
theorem Call.Avoids.congr {c : Call} (havoids : c.Avoids h Y t) (hapart : Apart Y t t') :
    c.Avoids h Y t' := by
  have hsame : ∀ q ∈ c.visits h t, t'.get? q = t.get? q :=
    fun q hq => hapart.get? (havoids.visits q hq)
  have hvisits : c.visits h t' = c.visits h t := by
    cases c with
    | kind | isDirectory | list | read => exact (resolve_congr hsame).2
    | locate name =>
      refine congrArg List.flatten (List.map_congr_left fun candidate hcandidate => ?_)
      exact (resolve_congr fun q hq =>
        hsame q (List.mem_flatMap.2 ⟨candidate, hcandidate, hq⟩)).2
    | write | makeDirectories | removeFile | removeTree | execute => rfl
  refine ⟨hvisits ▸ havoids.visits, fun path p hlist hentry => ?_⟩
  subst hlist
  rw [entryAt_congr hsame] at hentry
  exact havoids.lists path p rfl hentry

theorem Call.Avoids.mono {c : Call} (havoids : c.Avoids h Y t) (hZY : Z ⊆ Y) : c.Avoids h Z t :=
  ⟨fun q hq hZ => havoids.visits q hq (hZY hZ), fun path p hlist hentry name hZ =>
    havoids.lists path p hlist hentry name (hZY hZ)⟩

/-! ## Calls that cannot tell -/

/-- What a plan may change, what it must not need, and what it can rely on all the same. -/
structure Frame where
  own : Set Place
  other : Set Place
  good : FileTree → Prop

/-- In every good tree that differs in the other region only, the call is answered alike and does the
same, which concerns its own region. -/
def Frame.Allows (F : Frame) (h : Host) (c : Call) (t : FileTree) : Prop :=
  ∀ t', Apart F.other t t' → F.good t' →
    (h.answer t' c).1 = (h.answer t c).1 ∧
      Apart F.other (h.answer t c).2 (h.answer t' c).2 ∧
      Apart F.own t' (h.answer t' c).2 ∧ F.good (h.answer t' c).2

/-- A call that only looks, and not into the other region. -/
theorem Frame.allows_look {F : Frame} {c : Call} (hlooks : c.Looks)
    (havoids : c.Avoids h F.other t) : F.Allows h c t := fun t' hapart hgood => by
  rw [hlooks.answer h t, hlooks.answer h t']
  exact ⟨havoids.answer hlooks hapart, hapart, .refl _ _, hgood⟩

/-- The call is answered alike in both trees, leaves them as much alike as they were, and changes a
region only. -/
structure Call.Agrees (h : Host) (Z : Set Place) (c : Call) (t t' : FileTree) : Prop where
  answer : (h.answer t' c).1 = (h.answer t c).1
  congr : ∀ Y, Apart Y t t' → Apart Y (h.answer t c).2 (h.answer t' c).2
  apart : Apart Z t' (h.answer t' c).2

/-- A call that makes the same edit. -/
theorem Call.agrees_of_edits {c : Call} {answer : c.Answer} {g : FileTree → FileTree}
    (hg : Edits Z g) (ht : h.answer t c = (answer, g t)) (ht' : h.answer t' c = (answer, g t')) :
    c.Agrees h Z t t' :=
  ⟨by rw [ht, ht'], fun Y hapart => by rw [ht, ht']; exact hg.congr hapart,
    by rw [ht']; exact hg.apart t'⟩

/-- A call that is answered alike and changes nothing. -/
theorem Call.agrees_of_unchanged {c : Call} {answer : c.Answer} (Z : Set Place)
    (ht : h.answer t c = (answer, t)) (ht' : h.answer t' c = (answer, t')) : c.Agrees h Z t t' :=
  agrees_of_edits (edits_id Z) ht ht'

/-- A call that does the same to its own region. -/
theorem Frame.allows_of_agrees {F : Frame} {c : Call} (hZ : Z ⊆ F.own)
    (hagrees : ∀ t', Apart F.other t t' → F.good t' → c.Agrees h Z t t')
    (hgood : ∀ t', Apart Z t' (h.answer t' c).2 → F.good t' → F.good (h.answer t' c).2) :
    F.Allows h c t := fun t' hapart ht' =>
  have hc := hagrees t' hapart ht'
  ⟨hc.answer, hc.congr _ hapart, hc.apart.mono hZ, hgood t' hc.apart ht'⟩

/-- A write to a path that leads to the same in both trees. -/
theorem Call.agrees_write {path : String} {content : ByteArray}
    (hslash : endsInSlash path = false)
    (hresolve : t'.resolve h.current true path = t.resolve h.current true path)
    (hplace : ∀ r, t.resolve h.current true path = .ok r → (∀ q, r ≠ .entry q .directory) →
      r.place ∈ Z) :
    (Call.write path content).Agrees h Z t t' := by
  have hwrite : ∀ t₁ : FileTree, t₁.resolve h.current true path = t.resolve h.current true path →
      h.answer t₁ (.write path content) = t₁.keeping
        (match t.resolve h.current true path with
        | .error f => .error f
        | .ok (.entry _ .directory) | .ok (.free _ true) => .error .isDirectory
        | .ok (.entry q (.file _ executable)) => .ok (t₁.put q (.file content executable))
        | .ok (.entry q (.link _)) | .ok (.free q false) => .ok (t₁.put q (.file content false))) := by
    intro t₁ heq
    change t₁.keeping (t₁.write h.current path content) = _
    unfold FileTree.write
    rw [if_neg (by rw [hslash]; exact Bool.false_ne_true), heq]
    rcases t.resolve h.current true path with f | ⟨q, _ | _ | _⟩ | ⟨q, _ | _⟩ <;> rfl
  have ht := hwrite t rfl
  have ht' := hwrite t' hresolve
  rcases hr : t.resolve h.current true path with f | ⟨q, _ | ⟨old, executable⟩ | target⟩ | ⟨q, _ | _⟩
  all_goals rw [hr] at ht ht'
  · exact agrees_of_unchanged Z ht ht'
  · exact agrees_of_unchanged Z ht ht'
  · exact agrees_of_edits (edits_put (.file content executable) (hplace _ hr nofun)) ht ht'
  · exact agrees_of_edits (edits_put (.file content false) (hplace _ hr nofun)) ht ht'
  · exact agrees_of_edits (edits_put (.file content false) (hplace _ hr nofun)) ht ht'
  · exact agrees_of_unchanged Z ht ht'

/-- A file is read at a path that leads to the same in both trees. -/
theorem Call.agrees_read {path : String} (Z : Set Place)
    (hresolve : t'.resolve h.current true path = t.resolve h.current true path) :
    (Call.read path).Agrees h Z t t' := by
  have hread : t'.read h.current path = t.read h.current path := by
    unfold FileTree.read
    rw [entryAt_of_resolve_eq hresolve]
  exact agrees_of_unchanged Z rfl (Prod.ext hread rfl)

/-! ## Logics of plans -/

namespace Plan

variable {α β ε : Type}

/-- What can be proved of plans in sequence from what can be proved of their steps. -/
structure Logic where
  State : Type
  /-- Carried out from a state, the plan ends in such a result and such a state. -/
  Holds : {α : Type} → Plan α → State → (α → State → Prop) → Prop
  holds_pure : ∀ {α : Type} {a : α} {s : State} {Q : α → State → Prop},
    Q a s → Holds (Pure.pure a) s Q
  holds_bind : ∀ {α β : Type} {p : Plan α} {f : α → Plan β} {s : State} {P : α → State → Prop}
    {Q : β → State → Prop}, Holds p s P → (∀ a s', P a s' → Holds (f a) s' Q) →
      Holds (p >>= f) s Q

namespace Logic

variable {L : Logic} {s : L.State}

theorem mono {p : Plan α} {P Q : α → L.State → Prop} (hp : L.Holds p s P)
    (hPQ : ∀ a s', P a s' → Q a s') : L.Holds p s Q := by
  have hbind : L.Holds (p >>= pure) s Q :=
    L.holds_bind hp fun a s' ha => L.holds_pure (hPQ a s' ha)
  rwa [bind_pure] at hbind

theorem andThen {p : Plan (Except ε α)} {f : α → Plan (Except ε β)}
    {P : Except ε α → L.State → Prop} {Q : Except ε β → L.State → Prop} (hp : L.Holds p s P)
    (herror : ∀ e s', P (.error e) s' → Q (.error e) s')
    (hok : ∀ a s', P (.ok a) s' → L.Holds (f a) s' Q) : L.Holds (andThen p f) s Q :=
  L.holds_bind hp fun r s' hr => match r with
    | .error e => L.holds_pure (herror e s' hr)
    | .ok a => hok a s' hr

end Logic

/-! ## Every call of a run -/

/-- Every call of the run is made in such a tree, and the run ends in such a result and tree. -/
def Along (h : Host) (Safe : Call → FileTree → Prop) :
    Plan α → FileTree → (α → FileTree → Prop) → Prop
  | .done a, t, Q => Q a t
  | .ask c next, t, Q => Safe c t ∧ Along h Safe (next (h.answer t c).1) (h.answer t c).2 Q

variable {Safe : Call → FileTree → Prop} {Q : α → FileTree → Prop}

theorem Along.bind {p : Plan α} {f : α → Plan β} {P : α → FileTree → Prop}
    {Q : β → FileTree → Prop} (hp : Along h Safe p t P)
    (hf : ∀ a t', P a t' → Along h Safe (f a) t' Q) : Along h Safe (p >>= f) t Q := by
  change Along h Safe (p.bind f) t Q
  induction p generalizing t with
  | done a => exact hf a t hp
  | ask c next ih => exact ⟨hp.1, ih _ hp.2⟩

/-- The logic of all calls of a run. -/
def Along.logic (h : Host) (Safe : Call → FileTree → Prop) : Logic where
  State := FileTree
  Holds := Along h Safe
  holds_pure := id
  holds_bind := Along.bind

theorem Along.andThen {p : Plan (Except ε α)} {f : α → Plan (Except ε β)}
    {P : Except ε α → FileTree → Prop} {Q : Except ε β → FileTree → Prop} (hp : Along h Safe p t P)
    (herror : ∀ e t', P (.error e) t' → Q (.error e) t')
    (hok : ∀ a t', P (.ok a) t' → Along h Safe (f a) t' Q) : Along h Safe (Plan.andThen p f) t Q :=
  Logic.andThen (L := Along.logic h Safe) hp herror hok

theorem Along.mono {p : Plan α} {P Q : α → FileTree → Prop} (hp : Along h Safe p t P)
    (hPQ : ∀ a t', P a t' → Q a t') : Along h Safe p t Q :=
  Logic.mono (L := Along.logic h Safe) hp hPQ

theorem Along.call {c : Call} {Q : c.Answer → FileTree → Prop} (hc : Safe c t)
    (hQ : Q (h.answer t c).1 (h.answer t c).2) : Along h Safe (Plan.call c) t Q :=
  ⟨hc, hQ⟩

theorem Along.attempt {δ : Type} {p : Plan (Except Fault δ)} (path : String)
    {P : Except Fault δ → FileTree → Prop} {Q : Except Error δ → FileTree → Prop}
    (hp : Along h Safe p t P) (hPQ : ∀ r t', P r t' → Q (Workspace.fault path r) t') :
    Along h Safe (Workspace.attempt path p) t Q :=
  hp.bind fun r t' hr => hPQ r t' hr

/-- What holds at the end of a run. -/
theorem Along.ensures {p : Plan α} (hp : Along h Safe p t Q) : Ensures h p t Q := by
  induction p generalizing t with
  | done a => exact hp
  | ask c next ih => exact ih _ hp.2

/-- A run ends in its own result. -/
theorem Along.with_run {p : Plan α} (hp : Along h Safe p t Q) :
    Along h Safe p t fun a t' => Q a t' ∧ p.run h t = (a, t') := by
  induction p generalizing t with
  | done a => exact ⟨hp, rfl⟩
  | ask c next ih => exact ⟨hp.1, ih _ hp.2⟩

/-- Calls that are all of one kind keep what every such call keeps. -/
theorem Along.of_always {C : Call → Prop} {R : α → Prop} {I : FileTree → Prop} {p : Plan α}
    (hp : p.Always C R) (hcall : ∀ c t, C c → I t → Safe c t ∧ I (h.answer t c).2) (ht : I t) :
    Along h Safe p t fun a t' => R a ∧ I t' := by
  induction p generalizing t with
  | done a => exact ⟨(hp [] a (.done a)).2, ht⟩
  | ask c next ih =>
    have hc : C c := by
      obtain ⟨log, a, he⟩ := exists_ends (next (h.answer t c).1)
      exact (hp _ a (.ask _ he)).1 _ List.mem_cons_self
    obtain ⟨hsafe, hI⟩ := hcall c t hc ht
    refine ⟨hsafe, ih _ (fun log a he => ?_) hI⟩
    obtain ⟨hcalls, hR⟩ := hp _ a (.ask _ he)
    exact ⟨fun x hx => hcalls x (List.mem_cons_of_mem _ hx), hR⟩

/-- Calls that only look are all made in the same tree. -/
theorem Along.of_looks {R : α → Prop} {p : Plan α} (hp : p.Always Call.Looks R)
    (hlog : ∀ x ∈ p.log h t, Safe x.1 t) :
    Along h Safe p t fun a t' => R a ∧ t' = t ∧ a = (p.run h t).1 := by
  induction p with
  | done a => exact ⟨(hp [] a (.done a)).2, rfl, rfl⟩
  | ask c next ih =>
    have hc : c.Looks := by
      obtain ⟨log, a, he⟩ := exists_ends (next (h.answer t c).1)
      exact (hp _ a (.ask _ he)).1 _ List.mem_cons_self
    unfold log at hlog
    rw [List.forall_mem_cons] at hlog
    unfold Plan.run
    unfold Along
    dsimp only at hlog ⊢
    rw [hc.answer h t] at hlog ⊢
    refine ⟨hlog.1, ih _ (fun log a he => ?_) hlog.2⟩
    obtain ⟨hcalls, hR⟩ := hp _ a (.ask _ he)
    exact ⟨fun x hx => hcalls x (List.mem_cons_of_mem _ hx), hR⟩

/-- If a frame allows every call of a run, then in a good tree that differs in the other region only
the run goes the same way : with the same result and the same changes, all of its own region. -/
theorem Along.lockstep {F : Frame} {p : Plan α} (hp : Along h (F.Allows h) p t Q)
    (hapart : Apart F.other t t') (hgood : F.good t') :
    (p.run h t').1 = (p.run h t).1 ∧ Apart F.other (p.run h t).2 (p.run h t').2 ∧
      Apart F.own t' (p.run h t').2 ∧ F.good (p.run h t').2 := by
  induction p generalizing t t' with
  | done a => exact ⟨rfl, hapart, .refl _ _, hgood⟩
  | ask c next ih =>
    obtain ⟨hanswer, hafter, hown, hgood'⟩ := hp.1 t' hapart hgood
    obtain ⟨hresult, hend, hown', hlast⟩ := ih _ hp.2 hafter hgood'
    unfold Plan.run
    dsimp only
    rw [hanswer]
    exact ⟨hresult, hend, hown.trans hown', hlast⟩

/-! ## Two runs -/

/-- The logic of two runs of one plan that end in the same result. -/
def twins (h : Host) : Logic where
  State := FileTree × FileTree
  Holds := fun p s Q =>
    (p.run h s.2).1 = (p.run h s.1).1 ∧ Q (p.run h s.1).1 ((p.run h s.1).2, (p.run h s.2).2)
  holds_pure := fun hQ => ⟨rfl, hQ⟩
  holds_bind := by
    rintro α β p f s P Q ⟨hresult, hP⟩ hf
    obtain ⟨hresult', hQ⟩ := hf _ _ hP
    rw [run_bind, run_bind, hresult]
    exact ⟨hresult', hQ⟩

end Plan

/-! ## Two plans on one tree -/

namespace Plan

variable {α β : Type} {h₁ h₂ : Host}

/-- The calls of two plans are carried out in some order on one tree, each by its own host; the plans
end in such results, and in such a tree. -/
inductive Interleaved (h₁ h₂ : Host) : Plan α → Plan β → FileTree → α → β → FileTree → Prop where
  | done {a : α} {b : β} {t : FileTree} : Interleaved h₁ h₂ (.done a) (.done b) t a b t
  | first {c : Call} {next : c.Answer → Plan α} {q : Plan β} {t t' : FileTree} {a : α} {b : β} :
    Interleaved h₁ h₂ (next (h₁.answer t c).1) q (h₁.answer t c).2 a b t' →
      Interleaved h₁ h₂ (.ask c next) q t a b t'
  | second {p : Plan α} {c : Call} {next : c.Answer → Plan β} {t t' : FileTree} {a : α} {b : β} :
    Interleaved h₁ h₂ p (next (h₂.answer t c).1) (h₂.answer t c).2 a b t' →
      Interleaved h₁ h₂ p (.ask c next) t a b t'

/-- One plan after the other. -/
theorem interleaved_run (p : Plan α) (q : Plan β) (t : FileTree) :
    Interleaved h₁ h₂ p q t (p.run h₁ t).1 (q.run h₂ (p.run h₁ t).2).1
      (q.run h₂ (p.run h₁ t).2).2 := by
  induction p generalizing t with
  | ask c next ih => exact .first (ih _ _)
  | done a =>
    change Interleaved h₁ h₂ (.done a) q t a (q.run h₂ t).1 (q.run h₂ t).2
    induction q generalizing t with
    | ask c next ih => exact .second (ih _ _)
    | done b => exact .done

variable {G : FileTree → Prop} {p : Plan α} {q : Plan β} {a : α} {b : β}
  {t₁ t₂ s s' : FileTree} {P : α → FileTree → Prop} {Q : β → FileTree → Prop}

/-- If the one plan changes `Y` and does not need `Z`, and the other one changes `Z` and does not need
`Y`, each ends as it does alone. The induction is on the calls; the tree at hand is that of each plan
alone, apart from what the other one has changed. -/
theorem Interleaved.alone (hrun : Interleaved h₁ h₂ p q s a b s')
    (hp : Along h₁ ((Frame.mk Y Z G).Allows h₁) p t₁ P) (hq : Along h₂ ((Frame.mk Z Y G).Allows h₂) q t₂ Q)
    (hfirst : Apart Z t₁ s) (hsecond : Apart Y t₂ s) (hgood : G s) :
    (a = (p.run h₁ t₁).1 ∧ Apart Z (p.run h₁ t₁).2 s') ∧
      b = (q.run h₂ t₂).1 ∧ Apart Y (q.run h₂ t₂).2 s' := by
  induction hrun generalizing t₁ t₂ with
  | done => exact ⟨⟨rfl, hfirst⟩, rfl, hsecond⟩
  | first hrest ih =>
    obtain ⟨hanswer, hafter, hown, hgood'⟩ := hp.1 _ hfirst hgood
    rw [hanswer] at ih
    exact ih hp.2 hq hafter (hsecond.trans hown) hgood'
  | second hrest ih =>
    obtain ⟨hanswer, hafter, hown, hgood'⟩ := hq.1 _ hsecond hgood
    rw [hanswer] at ih
    exact ih hp hq.2 (hfirst.trans hown) hafter hgood'

end Plan

end EmbeddedSolidity
