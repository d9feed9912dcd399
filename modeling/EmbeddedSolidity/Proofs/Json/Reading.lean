import EmbeddedSolidity.Json.Reader

/-!
# Readers that succeed

Where a reader stands in its text does not decide what it gives. `Reader.Yields` says what a
reader gives on a text and what it leaves, whatever the place, and `Reader.Ensures` what holds of
everything that a reader gives. Both follow the structure of a reader : there is a rule for each
way of making one.

* `Reader.Yields.bind`, `yields_within`, `yields_peekToken` : rules for success;
* `Reader.Ensures.bind`, `ensures_readItems`, `ensures_readMembers` : rules for results.
-/

namespace EmbeddedSolidity.Json

open Reader

namespace Reader

variable {α β σ : Type}

/-- On the text `cs` the reader gives `a` and leaves `rest`. -/
def Yields (r : Reader α) (cs : List Char) (a : α) (rest : List Char) : Prop :=
  ∀ p, ∃ p', r.runFrom ⟨cs, p⟩ = (.ok a, ⟨rest, p'⟩)

/-- Everything that the reader gives has the property `P`. -/
def Ensures (r : Reader α) (P : α → Prop) : Prop :=
  ∀ c a c', r.runFrom c = (.ok a, c') → P a

/-! ## Steps of readers -/

theorem runFrom_bind (r : Reader α) (f : α → Reader β) (c : Cursor) :
    (r >>= f).runFrom c = match r.runFrom c with
      | (.ok a, c') => (f a).runFrom c'
      | (.error e, c') => (.error e, c') := by
  unfold runFrom ExceptT.run
  simp only [bind, ExceptT.bind, ExceptT.mk, StateT.bind]
  cases r c with
  | mk result c' => cases result <;> rfl

theorem yields_pure (a : α) (cs : List Char) : (pure a : Reader α).Yields cs a cs :=
  fun p => ⟨p, rfl⟩

theorem Yields.bind {r : Reader α} {f : α → Reader β} {cs mid rest : List Char} {a : α} {b : β}
    (h : r.Yields cs a mid) (h' : (f a).Yields mid b rest) : (r >>= f).Yields cs b rest := by
  intro p
  obtain ⟨p', hr⟩ := h p
  obtain ⟨p'', hf⟩ := h' p'
  refine ⟨p'', ?_⟩
  rw [runFrom_bind, hr]
  exact hf

theorem yields_get {f : Cursor → Reader β} {cs rest : List Char} {b : β}
    (h : ∀ p, (f ⟨cs, p⟩).Yields cs b rest) : (get >>= f).Yields cs b rest := by
  intro p
  obtain ⟨p', hf⟩ := h p p
  exact ⟨p', hf⟩

theorem yields_set {c : Cursor} (cs : List Char) : (set c : Reader PUnit).Yields cs ⟨⟩ c.rest :=
  fun _ => ⟨c.place, rfl⟩

theorem yields_peek (cs : List Char) : peek.Yields cs cs.head? cs :=
  fun p => ⟨p, rfl⟩

theorem yields_advance (c : Char) (cs : List Char) : advance.Yields (c :: cs) () cs :=
  fun p => ⟨p.after c, rfl⟩

theorem yields_next (c : Char) (cs : List Char) : next.Yields (c :: cs) (some c) cs :=
  (yields_peek _).bind ((yields_advance c cs).bind (yields_pure _ _))

theorem yields_fuelHere (cs : List Char) : fuelHere.Yields cs (cs.length + 1) cs :=
  fun p => ⟨p, rfl⟩

theorem ensures_pure {P : α → Prop} {a : α} (h : P a) : (pure a : Reader α).Ensures P := by
  intro c b c' hr
  cases hr
  exact h

theorem Ensures.bind {r : Reader α} {f : α → Reader β} {P : α → Prop} {Q : β → Prop}
    (h : r.Ensures P) (h' : ∀ a, P a → (f a).Ensures Q) : (r >>= f).Ensures Q := by
  intro c b c' hr
  rw [runFrom_bind] at hr
  split at hr
  · next a mid ha => exact h' a (h _ _ _ ha) _ _ _ hr
  · cases hr

/-- A reader in front of which nothing is known. -/
theorem ensures_bind {r : Reader α} {f : α → Reader β} {Q : β → Prop}
    (h : ∀ a, (f a).Ensures Q) : (r >>= f).Ensures Q :=
  Ensures.bind (P := fun _ => True) (fun _ _ _ _ => trivial) fun a _ => h a

theorem ensures_throw {P : α → Prop} (e : Error) : (throw e : Reader α).Ensures P := by
  intro c a c' hr
  cases hr

theorem ensures_failHere {P : α → Prop} (cause : Cause) : (failHere cause : Reader α).Ensures P :=
  ensures_bind fun _ => ensures_throw _

theorem ensures_failNext {P : α → Prop} (cause : Cause) : (failNext cause : Reader α).Ensures P :=
  ensures_bind fun _ => ensures_throw _

end Reader

variable {α β σ : Type}

/-! ## Space and containers -/

/-- All characters are space. -/
def Gap (cs : List Char) : Prop :=
  ∀ c ∈ cs, isSpace c = true

theorem gap_nil : Gap [] :=
  fun _ h => absurd h List.not_mem_nil

/-- Space in front of a character that is not space. -/
theorem skipWhile_append {gap : List Char} {c : Char} (rest : List Char)
    (hgap : Gap gap) (hc : isSpace c = false) (p : Place) :
    ∃ p', Cursor.skipWhile isSpace (gap ++ c :: rest) p = ⟨c :: rest, p'⟩ := by
  induction gap generalizing p with
  | nil => exact ⟨p, by simp [Cursor.skipWhile, hc]⟩
  | cons x gap ih =>
    obtain ⟨p', h⟩ := ih (fun y hy => hgap y (List.mem_cons_of_mem x hy)) (p.after x)
    exact ⟨p', by simpa [Cursor.skipWhile, hgap x List.mem_cons_self] using h⟩

theorem yields_peekToken {gap : List Char} {c : Char} (rest : List Char)
    (hgap : Gap gap) (hc : isSpace c = false) :
    peekToken.Yields (gap ++ c :: rest) (some c) (c :: rest) := by
  intro p
  obtain ⟨p', h⟩ := skipWhile_append rest hgap hc p
  refine ⟨p', ?_⟩
  change (Except.ok (Cursor.skipWhile isSpace (gap ++ c :: rest) p).rest.head?,
    Cursor.skipWhile isSpace (gap ++ c :: rest) p) = _
  rw [h]
  rfl

/-- Without space in front. -/
theorem yields_peekToken_cons {c : Char} (rest : List Char) (hc : isSpace c = false) :
    peekToken.Yields (c :: rest) (some c) (c :: rest) :=
  yields_peekToken rest gap_nil hc

theorem yields_peekToken_nil {gap : List Char} (hgap : Gap gap) :
    peekToken.Yields gap none [] := by
  have skips : ∀ (gap : List Char) (p : Place), Gap gap →
      ∃ p', Cursor.skipWhile isSpace gap p = ⟨[], p'⟩ := by
    intro gap
    induction gap with
    | nil => exact fun p _ => ⟨p, rfl⟩
    | cons x gap ih =>
      intro p hgap
      obtain ⟨p', h⟩ := ih (p.after x) fun y hy => hgap y (List.mem_cons_of_mem x hy)
      exact ⟨p', by simpa [Cursor.skipWhile, hgap x List.mem_cons_self] using h⟩
  intro p
  obtain ⟨p', h⟩ := skips gap p hgap
  refine ⟨p', ?_⟩
  change (Except.ok (Cursor.skipWhile isSpace gap p).rest.head?,
    Cursor.skipWhile isSpace gap p) = _
  rw [h]
  rfl

theorem yields_enter {depth : Nat} (h : 1 < depth) (c : Char) (cs : List Char) :
    (enter depth).Yields (c :: cs) () cs := by
  unfold enter
  rw [if_neg (by omega)]
  exact yields_advance c cs

theorem yields_within {body : Reader α} {close : Reader Unit} {cs mid rest : List Char} {a : α}
    (h : body.Yields cs a mid) (h' : close.Yields mid () rest) :
    (within body close).Yields cs a rest := by
  intro p
  obtain ⟨p', hb⟩ := h p
  obtain ⟨p'', hc⟩ := h' p'
  refine ⟨p'', ?_⟩
  have hb' : (attempt body).runFrom ⟨cs, p⟩ = (.ok (.ok a), ⟨mid, p'⟩) :=
    congrArg (fun x : Except Error α × Cursor => (Except.ok x.1, x.2)) hb
  have hc' : (attempt close).runFrom ⟨mid, p'⟩ = (.ok (.ok ()), ⟨rest, p''⟩) :=
    congrArg (fun x : Except Error Unit × Cursor => (Except.ok x.1, x.2)) hc
  unfold within
  rw [runFrom_bind, hb']
  dsimp only
  rw [runFrom_bind, hc']
  rfl

/-- What a container ensures is what its content ensures. -/
theorem ensures_within {body : Reader α} {P : α → Prop} (h : body.Ensures P) (close : Reader Unit) :
    (within body close).Ensures P := by
  have hb : (attempt body).Ensures fun result => ∀ a, result = .ok a → P a := by
    intro c result c' hr a ha
    have hr' : (Except.ok (body.run c).1, (body.run c).2) = (Except.ok result, c') := hr
    simp only [Prod.mk.injEq, Except.ok.injEq] at hr'
    exact h c a c' (Prod.ext (hr'.1.trans ha) hr'.2)
  refine hb.bind fun result hresult => ensures_bind fun ending => ?_
  split
  · exact ensures_pure (hresult _ rfl)
  · unfold located
    split
    · next h => cases h
    · exact ensures_failHere _
    · exact ensures_throw _
  · exact ensures_throw _

/-! ## Items and members -/

theorem ensures_readItems {item : Reader α} {P : α → Prop} (h : item.Ensures P) :
    ∀ (fuel : Nat) (first : Bool) (before : List α), (∀ a ∈ before, P a) →
      (readItems item fuel first before).Ensures fun as => ∀ a ∈ as, P a
  | 0, _, _, _ => ensures_failNext _
  | fuel + 1, first, before, hbefore => by
    refine ensures_bind fun more => ?_
    split
    · refine h.bind fun a ha => ensures_readItems h fuel false (a :: before) ?_
      intro b hb
      rcases List.mem_cons.1 hb with rfl | hb
      · exact ha
      · exact hbefore b hb
    · exact ensures_pure fun a ha => hbefore a (List.mem_reverse.1 ha)

theorem ensures_readMembers {step : σ → String → Reader σ} {P : σ → Prop}
    (h : ∀ state key, P state → (step state key).Ensures P) :
    ∀ (fuel : Nat) (first : Bool) (state : σ), P state → (readMembers step fuel first state).Ensures P
  | 0, _, _, _ => ensures_failNext _
  | fuel + 1, first, state, hstate => by
    refine ensures_bind fun more => ?_
    split
    · refine ensures_bind fun key => ?_
      exact (h state key hstate).bind fun state hstate =>
        ensures_readMembers h fuel false state hstate
    · exact ensures_pure hstate

/-- The document of a reader that reads the whole text but space. -/
theorem readDocument_of_yields {r : Reader α} {text : String} {a : α} {gap : List Char}
    (h : r.Yields text.toList a gap) (hgap : Gap gap) :
    readDocument r text = .ok a := by
  have hend : endDocument.Yields gap () [] := (yields_peekToken_nil hgap).bind (yields_pure _ _)
  have hall : (do let a ← r; endDocument; return a : Reader α).Yields text.toList a [] :=
    h.bind (hend.bind (yields_pure _ _))
  obtain ⟨p', hrun⟩ := hall ⟨1, 0⟩
  unfold readDocument Cursor.start
  rw [hrun]

theorem ensures_of_readDocument {r : Reader α} {P : α → Prop} (h : r.Ensures P) {text : String}
    {a : α} (hr : readDocument r text = .ok a) : P a := by
  have hall : (do let a ← r; endDocument; return a : Reader α).Ensures P :=
    h.bind fun a ha => ensures_bind fun _ => ensures_pure ha
  exact hall (Cursor.start text) a _ (Prod.ext hr rfl)

end EmbeddedSolidity.Json
