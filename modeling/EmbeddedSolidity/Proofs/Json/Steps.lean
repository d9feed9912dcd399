import EmbeddedSolidity.Proofs.Json.Reading

/-!
# Steps of readers

Two readers of one text are compared cursor by cursor. `Reader.Goes` says what a reader gives at a
cursor and where it leaves the cursor, place and all; there is an equivalence for each way of making
a reader, so that a run is taken apart and put together by the same rules.

* `Cursor.behindNext`, `Cursor.behindSpace`, `Cursor.behindDigits` : the cursors that are reached;
* `Reader.goes_bind`, `Reader.goes_peekToken_bind`, `Reader.goes_within` : the rules.
-/

namespace EmbeddedSolidity.Json

open Reader

/-! ## Cursors -/

namespace Cursor

/-- The cursor behind the next character. -/
def behindNext (c : Cursor) : Cursor :=
  match c.rest with
  | [] => c
  | ch :: rest => ⟨rest, c.place.after ch⟩

/-- The cursor behind space. -/
def behindSpace (c : Cursor) : Cursor :=
  skipWhile isSpace c.rest c.place

/-- How many digits stand at the cursor. -/
def digits (c : Cursor) : Nat :=
  (c.rest.takeWhile Char.isDigit).length

/-- The cursor `n` characters further in the line. -/
def forward (c : Cursor) (n : Nat) : Cursor :=
  ⟨c.rest.drop n, ⟨c.place.line, c.place.column + n⟩⟩

/-- The cursor behind digits. -/
def behindDigits (c : Cursor) : Cursor :=
  c.forward c.digits

@[simp] theorem length_behindNext (c : Cursor) : c.behindNext.rest.length = c.rest.length - 1 := by
  unfold behindNext
  split
  · next h => simp [h]
  · next h => simp [h]

@[simp] theorem length_forward (c : Cursor) (n : Nat) :
    (c.forward n).rest.length = c.rest.length - n :=
  List.length_drop

theorem length_pos_of_head? {c : Cursor} {ch : Char} (h : c.rest.head? = some ch) :
    1 ≤ c.rest.length :=
  List.length_pos_iff.2 fun hnil => by simp [hnil] at h

theorem length_behindSpace (c : Cursor) : c.behindSpace.rest.length ≤ c.rest.length := by
  unfold behindSpace
  generalize c.place = p
  induction c.rest generalizing p with
  | nil => exact Nat.le_refl _
  | cons x cs ih =>
    unfold skipWhile
    split
    · exact Nat.le_succ_of_le (ih _)
    · exact Nat.le_refl _

@[simp] theorem behindSpace_behindSpace (c : Cursor) :
    c.behindSpace.behindSpace = c.behindSpace := by
  unfold behindSpace
  generalize c.place = p
  induction c.rest generalizing p with
  | nil => rfl
  | cons x cs ih =>
    by_cases hx : isSpace x = true
    · simpa only [skipWhile, hx, if_true] using ih _
    · simp [skipWhile, hx]

theorem forward_forward (c : Cursor) (m n : Nat) : (c.forward m).forward n = c.forward (m + n) := by
  simp [forward, Nat.add_assoc]

theorem length_behindDigits (c : Cursor) : c.behindDigits.rest.length ≤ c.rest.length := by
  rw [behindDigits, length_forward]
  exact Nat.sub_le _ _

/-- A digit is one byte of its line. -/
theorem behindNext_of_isDigit {c : Cursor} {d : Char} (h : c.rest.head? = some d)
    (hd : d.isDigit = true) : c.behindNext = c.forward 1 := by
  obtain ⟨cs, p⟩ := c
  obtain ⟨rest, rfl⟩ : ∃ rest, cs = d :: rest := List.head?_eq_some_iff.1 h
  have hsize : d.utf8Size = 1 := by
    rw [Char.utf8Size_eq_one_iff, UInt32.le_iff_toNat_le]
    simp only [Char.isDigit, Bool.and_eq_true, decide_eq_true_eq, UInt32.le_iff_toNat_le] at hd
    exact Nat.le_trans hd.2 (by decide)
  have hline : (d == '\n') = false := by
    rw [beq_eq_false_iff_ne]
    rintro rfl
    exact absurd hd (by decide)
  simp [behindNext, forward, Place.after, hsize, hline]

theorem digits_of_isDigit {c : Cursor} {d : Char} (h : c.rest.head? = some d)
    (hd : d.isDigit = true) : c.digits = (c.forward 1).digits + 1 := by
  obtain ⟨cs, p⟩ := c
  obtain ⟨rest, rfl⟩ : ∃ rest, cs = d :: rest := List.head?_eq_some_iff.1 h
  simp [digits, forward, hd]

theorem exists_digit {c : Cursor} (h : 0 < c.digits) :
    ∃ d, c.rest.head? = some d ∧ d.isDigit = true := by
  obtain ⟨cs, p⟩ := c
  cases cs with
  | nil => exact absurd h (Nat.lt_irrefl 0)
  | cons d cs =>
    refine ⟨d, rfl, Decidable.byContradiction fun hd => ?_⟩
    simp [digits, hd] at h

/-- Behind the first digit the other ones follow. -/
theorem behindDigits_behindNext {c : Cursor} {d : Char} (h : c.rest.head? = some d)
    (hd : d.isDigit = true) : c.behindNext.behindDigits = c.behindDigits := by
  unfold behindDigits
  rw [behindNext_of_isDigit h hd, forward_forward, digits_of_isDigit h hd, Nat.add_comm]

end Cursor

namespace Reader

variable {α β : Type}

/-- From the one cursor the reader gives a result and comes to the other one. -/
def Goes (r : Reader α) (c : Cursor) (a : α) (c' : Cursor) : Prop :=
  r.runFrom c = (.ok a, c')

theorem Goes.unique {r : Reader α} {c c' c'' : Cursor} {a a' : α} (h : r.Goes c a c')
    (h' : r.Goes c a' c'') : a' = a ∧ c'' = c' := by
  have heq := h.symm.trans h'
  exact ⟨(Except.ok.inj (congrArg Prod.fst heq)).symm, (congrArg Prod.snd heq).symm⟩

theorem goes_bind {r : Reader α} {f : α → Reader β} {c c' : Cursor} {b : β} :
    (r >>= f).Goes c b c' ↔ ∃ a mid, r.Goes c a mid ∧ (f a).Goes mid b c' := by
  unfold Goes
  rw [runFrom_bind]
  constructor
  · intro h
    split at h
    · next a mid ha => exact ⟨a, mid, ha, h⟩
    · cases h
  · rintro ⟨a, mid, ha, hb⟩
    rw [ha]
    exact hb

theorem goes_bind_of {r : Reader α} {f : α → Reader β} {c mid c' : Cursor} {a : α} {b : β}
    (h : r.Goes c a mid) : (r >>= f).Goes c b c' ↔ (f a).Goes mid b c' := by
  rw [goes_bind]
  constructor
  · rintro ⟨a', mid', h', hf⟩
    obtain ⟨rfl, rfl⟩ := h.unique h'
    exact hf
  · exact fun hf => ⟨a, mid, h, hf⟩

theorem goes_iff_of {r : Reader α} {c c' c'' : Cursor} {a b : α} (h : r.Goes c a c') :
    r.Goes c b c'' ↔ b = a ∧ c'' = c' :=
  ⟨h.unique, fun ⟨ha, hc⟩ => ha ▸ hc ▸ h⟩

@[simp] theorem goes_pure {a b : α} {c c' : Cursor} :
    (pure a : Reader α).Goes c b c' ↔ b = a ∧ c' = c := by
  constructor
  · intro h
    cases h
    exact ⟨rfl, rfl⟩
  · rintro ⟨rfl, rfl⟩
    rfl

@[simp] theorem not_goes_throw {e : Error} {c c' : Cursor} {a : α} :
    ¬ (throw e : Reader α).Goes c a c' :=
  nofun

@[simp] theorem not_goes_failHere {cause : Cause} {c c' : Cursor} {a : α} :
    ¬ (failHere cause : Reader α).Goes c a c' :=
  nofun

@[simp] theorem not_goes_failNext {cause : Cause} {c c' : Cursor} {a : α} :
    ¬ (failNext cause : Reader α).Goes c a c' :=
  nofun

@[simp] theorem not_goes_failBare {cause : Cause} {c c' : Cursor} {a : α} :
    ¬ (failBare cause : Reader α).Goes c a c' :=
  nofun

@[simp] theorem goes_get_bind {f : Cursor → Reader β} {c c' : Cursor} {b : β} :
    (get >>= f).Goes c b c' ↔ (f c).Goes c b c' :=
  Iff.rfl

@[simp] theorem goes_set_bind {c₁ : Cursor} {f : PUnit → Reader β} {c c' : Cursor} {b : β} :
    (set c₁ >>= f).Goes c b c' ↔ (f ⟨⟩).Goes c₁ b c' :=
  Iff.rfl

@[simp] theorem goes_peek_bind {f : Option Char → Reader β} {c c' : Cursor} {b : β} :
    (peek >>= f).Goes c b c' ↔ (f c.rest.head?).Goes c b c' :=
  Iff.rfl

@[simp] theorem goes_advance {c c' : Cursor} {u : Unit} :
    advance.Goes c u c' ↔ c' = c.behindNext := by
  constructor
  · intro h
    exact (congrArg Prod.snd h).symm
  · rintro rfl
    rfl

@[simp] theorem goes_advance_bind {f : Unit → Reader β} {c c' : Cursor} {b : β} :
    (advance >>= f).Goes c b c' ↔ (f ()).Goes c.behindNext b c' :=
  Iff.rfl

@[simp] theorem goes_next_bind {f : Option Char → Reader β} {c c' : Cursor} {b : β} :
    (Reader.next >>= f).Goes c b c' ↔ (f c.rest.head?).Goes c.behindNext b c' :=
  Iff.rfl

@[simp] theorem goes_fuelHere_bind {f : Nat → Reader β} {c c' : Cursor} {b : β} :
    (fuelHere >>= f).Goes c b c' ↔ (f (c.rest.length + 1)).Goes c b c' :=
  Iff.rfl

@[simp] theorem goes_peekToken_bind {f : Option Char → Reader β} {c c' : Cursor} {b : β} :
    (peekToken >>= f).Goes c b c' ↔ (f c.behindSpace.rest.head?).Goes c.behindSpace b c' :=
  Iff.rfl

@[simp] theorem goes_skipDigits_bind {f : Nat → Reader β} {c c' : Cursor} {b : β} :
    (skipDigits >>= f).Goes c b c' ↔ (f c.digits).Goes c.behindDigits b c' :=
  Iff.rfl

/-- A container goes through its content and then through its end. -/
theorem goes_within {body : Reader α} {close : Reader Unit} {c c' : Cursor} {a : α} :
    (within body close).Goes c a c' ↔ ∃ mid, body.Goes c a mid ∧ close.Goes mid () c' := by
  have attempted : ∀ {γ δ : Type} (r : Reader γ) (f : Except Error γ → Reader δ) (c₁ c₂ : Cursor)
      (d : δ), (attempt r >>= f).Goes c₁ d c₂ ↔
        (f (r.runFrom c₁).1).Goes (r.runFrom c₁).2 d c₂ :=
    fun _ _ _ _ _ => Iff.rfl
  unfold within
  rw [attempted, attempted]
  unfold Goes
  cases hbody : body.runFrom c with
  | mk result mid =>
    cases hclose : close.runFrom mid with
    | mk ending last =>
      dsimp only
      cases result with
      | error e =>
        refine ⟨fun h => ?_, fun ⟨_, h, _⟩ => by cases h⟩
        obtain ⟨cause, place⟩ := e
        cases place <;> cases h
      | ok x =>
        cases ending with
        | error e =>
          refine ⟨fun h => (nomatch h), ?_⟩
          rintro ⟨_, h, h'⟩
          cases h
          rw [hclose] at h'
          cases h'
        | ok u =>
          constructor
          · intro h
            cases h
            exact ⟨mid, rfl, hclose⟩
          · rintro ⟨_, h, h'⟩
            cases h
            rw [hclose] at h'
            cases h'
            rfl

end Reader

end EmbeddedSolidity.Json
