import EmbeddedSolidity.Proofs.Json.RoundTrip
import EmbeddedSolidity.Proofs.Json.Shapes
import EmbeddedSolidity.Proofs.Json.TokenSpelling

/-!
# Grammars of shapes

The texts of a shape are told by a grammar : tokens as they are spelled, items and members with
commas between them, and space around every token. `Reader.Accepts` says that a reader passes just
the texts of a grammar, and what a shape is made of is accepted part by part.

* `ArraySpelled`, `ObjectSpelled`, `DocumentSpelled` : the grammars;
* `accepts_readText`, `accepts_readUnsigned`, `accepts_readOptional` : scalars;
* `members_of_goes`, `yields_readMembers_following` : objects;
* `readDocument_eq_ok_iff_spelled` : whole texts.
-/

namespace EmbeddedSolidity.Json

open Reader

/-! ## Grammars -/

section Grammars

variable {α ι : Type}

/-- A natural number below `2 ^ 64`. -/
def UnsignedSpelled (n : Nat) (cs : List Char) : Prop :=
  n < 2 ^ 64 ∧ NaturalSpelled n cs

/-- `null`, or a value. -/
def OrNull (P : α → List Char → Prop) : Option α → List Char → Prop
  | none, cs => cs = "null".toList
  | some a, cs => P a cs

/-- The items behind the first one, each behind its comma. -/
inductive Following (P : ι → List Char → Prop) : List ι → List Char → Prop where
  | nil {gap : List Char} : Gap gap → Following P [] gap
  | cons {i : ι} {is : List ι} {before gap cs rest : List Char} :
      Gap before → Gap gap → P i cs → Following P is rest →
      Following P (i :: is) (before ++ ',' :: (gap ++ (cs ++ rest)))

/-- Items with commas between them. -/
inductive Listed (P : ι → List Char → Prop) : List ι → List Char → Prop where
  | nil {gap : List Char} : Gap gap → Listed P [] gap
  | cons {i : ι} {is : List ι} {gap cs rest : List Char} :
      Gap gap → P i cs → Following P is rest → Listed P (i :: is) (gap ++ (cs ++ rest))

/-- A list of items. -/
def ArraySpelled (P : ι → List Char → Prop) (is : List ι) (cs : List Char) : Prop :=
  ∃ body, Listed P is body ∧ cs = '[' :: (body ++ [']'])

/-- What stands behind the key of a member. -/
def BehindKey (P : ι → List Char → Prop) (i : ι) (cs : List Char) : Prop :=
  ∃ before gap value, Gap before ∧ Gap gap ∧ P i value ∧ cs = before ++ ':' :: (gap ++ value)

/-- A member of an object. -/
def MemberSpelled (key : ι → String) (P : ι → List Char → Prop) (i : ι) (cs : List Char) : Prop :=
  ∃ name rest, StringSpelled (key i) name ∧ BehindKey P i rest ∧ cs = name ++ rest

/-- An object with a member for each item. -/
def ObjectSpelled (key : ι → String) (P : ι → List Char → Prop) (is : List ι) (cs : List Char) :
    Prop :=
  ∃ body, Listed (MemberSpelled key P) is body ∧ cs = '\x7b' :: (body ++ ['\x7d'])

/-- A text that is a value but for space around it. -/
def DocumentSpelled (P : α → List Char → Prop) (a : α) (text : List Char) : Prop :=
  ∃ before cs after, Gap before ∧ Gap after ∧ P a cs ∧ text = before ++ (cs ++ after)

theorem Following.length_le {P : ι → List Char → Prop} {is : List ι} {cs : List Char}
    (h : Following P is cs) : is.length ≤ cs.length := by
  induction h with
  | nil => simp
  | cons _ _ _ _ ih =>
    simp only [List.length_cons, List.length_append]
    omega

/-- What stands behind a value does not go on with a number. -/
theorem Following.endsNumber {P : ι → List Char → Prop} {is : List ι} {cs : List Char}
    (h : Following P is cs) {c : Char} (rest : List Char)
    (hc : c.isDigit = false ∧ c ≠ '.' ∧ c ≠ 'e' ∧ c ≠ 'E') : EndsNumber (cs ++ c :: rest) := by
  cases h with
  | nil hgap => exact endsNumber_gap hgap rest hc
  | cons hbefore _ _ _ =>
    rw [List.append_assoc]
    exact endsNumber_gap hbefore _ (by decide)

theorem gap_append {gap gap' : List Char} (h : Gap gap) (h' : Gap gap') : Gap (gap ++ gap') :=
  fun c hc => (List.mem_append.1 hc).elim (h c) (h' c)

end Grammars

/-! ## Readers of a grammar -/

section Accepts

variable {α β : Type} {r : Reader α} {P : α → List Char → Prop}

/-- Behind any space the reader passes a text of what it gives, and gives what any text is of. -/
structure Reader.Accepts (r : Reader α) (P : α → List Char → Prop) : Prop where
  sound : ∀ {c c' : Cursor} {a : α}, r.Goes c a c' →
    ∃ gap cs, Gap gap ∧ P a cs ∧ c.rest = gap ++ (cs ++ c'.rest)
  complete : ∀ {gap cs rest : List Char} {a : α}, Gap gap → P a cs → EndsNumber rest →
    r.Yields (gap ++ (cs ++ rest)) a rest

/-- Every text begins with a character, neither space nor one of `others`. -/
def Begins (others : List Char) (P : α → List Char → Prop) : Prop :=
  ∀ {a : α} {cs : List Char}, P a cs → ∃ c rest, cs = c :: rest ∧ isSpace c = false ∧ c ∉ others

theorem begins_stringSpelled {others : List Char} (h : '"' ∉ others) :
    Begins others StringSpelled := by
  rintro s cs ⟨body, -, rfl⟩
  exact ⟨'"', _, rfl, by decide, h⟩

theorem begins_unsignedSpelled {others : List Char} (h : others.any Char.isDigit = false) :
    Begins others UnsignedSpelled := by
  rintro n cs ⟨-, rfl⟩
  obtain ⟨d, ds, hds, hd⟩ := toDigits_eq_cons n
  refine ⟨d, ds, by simp [hds], isSpace_of_isDigit hd, fun hmem => ?_⟩
  exact List.any_eq_false.1 h d hmem hd

theorem begins_orNull {others : List Char} (hn : 'n' ∉ others) (h : Begins others P) :
    Begins others (OrNull P) := by
  rintro (_ | a) cs hcs
  · obtain rfl : cs = "null".toList := hcs
    exact ⟨'n', _, rfl, by decide, hn⟩
  · exact h hcs

/-- A string is accepted. -/
theorem accepts_readText (expected : String) : (readText expected).Accepts StringSpelled where
  sound {c c' s} h := by
    obtain ⟨hquote, hbody⟩ := goes_readText.1 h
    obtain ⟨gap, hgap, hrest⟩ := c.exists_gap
    obtain ⟨cs, hcs, hspelled⟩ := stringSpelled_of_goes hquote hbody
    exact ⟨gap, cs, hgap, hcs, hrest.trans (hspelled ▸ rfl)⟩
  complete {gap cs rest s} hgap hcs _ := by
    obtain ⟨body, hbody, rfl⟩ := hcs
    rw [List.cons_append, List.append_assoc]
    refine (yields_peekToken _ hgap (by decide)).bind ((yields_advance '"' _).bind ?_)
    exact yields_readStringBody_of_spelled hbody rest

theorem le_maxInteger_iff {n : Nat} : n ≤ maxInteger ↔ n < 2 ^ 64 :=
  Nat.lt_succ_iff.symm

/-- A natural number that fits is accepted, and neither a sign nor a fraction nor an exponent is. -/
theorem accepts_readUnsigned (expected : String) :
    (readUnsigned expected).Accepts UnsignedSpelled where
  sound {c c' n} h := by
    unfold readUnsigned at h
    dsimp only at h
    rw [goes_peekToken_bind] at h
    obtain ⟨gap, hgap, hrest⟩ := c.exists_gap
    split at h
    · exact absurd h not_goes_failNext
    · -- a negative number is not natural, and there is no integer zero with a sign
      obtain ⟨x, mid, hx, h⟩ := goes_bind.1 (goes_advance_bind.1 h)
      split at h
      · next k =>
        obtain ⟨m, cs, -, -, -, hm, heq⟩ := naturalSpelled_of_goes hx
        change (k : Int) = -(m : Int) at heq
        omega
      · exact absurd h not_goes_failHere
      · exact absurd h not_goes_failHere
    · split at h
      · obtain ⟨x, mid, hx, h⟩ := goes_bind.1 h
        split at h
        · obtain ⟨rfl, rfl⟩ := goes_pure.1 h
          obtain ⟨m, cs, hm, hcs, hspelled, heq⟩ := naturalSpelled_of_goes hx
          obtain rfl := Int.ofNat.inj heq
          exact ⟨gap, cs, hgap, ⟨le_maxInteger_iff.1 hm, hcs⟩, hrest.trans (hspelled ▸ rfl)⟩
        · exact absurd h not_goes_failHere
        · exact absurd h not_goes_failHere
      · exact absurd h not_goes_refuse
  complete {gap cs rest n} hgap hcs hrest := by
    obtain ⟨hn, rfl⟩ := hcs
    obtain ⟨d, ds, hds, hd⟩ := toDigits_eq_cons n
    have hread := yields_readNumber_natural hrest (le_maxInteger_iff.2 hn)
    have htext : (toString n).toList = d :: ds := by simp [hds]
    rw [hds] at hread
    rw [htext]
    unfold readUnsigned
    refine (yields_peekToken _ hgap (isSpace_of_isDigit hd)).bind ?_
    split
    · next heq => cases heq
    · next heq => exact absurd (Option.some.inj heq ▸ hd) (by decide)
    · next heq =>
      rw [← Option.some.inj heq, if_pos hd]
      exact hread.bind (yields_pure _ _)

theorem word_of_goes {word : List Char} {c c' : Cursor} (h : (readWord word).Goes c () c') :
    c.rest = word ++ c'.rest := by
  induction word generalizing c with
  | nil => exact congrArg Cursor.rest (goes_pure.1 h).2.symm
  | cons x word ih =>
    unfold readWord at h
    rw [goes_get_bind, goes_next_bind] at h
    split at h
    · exact absurd h not_goes_failHere
    · next found hhead =>
      split at h
      · next heq =>
        obtain rfl := eq_of_beq heq
        rw [Cursor.rest_of_head? hhead, ih h, List.cons_append]
      · exact absurd h not_goes_throw

/-- What is accepted may be left out by `null`. -/
theorem accepts_readOptional (h : r.Accepts P) (hbegins : Begins ['n'] P) :
    (readOptional r).Accepts (OrNull P) where
  sound {c c' a} hgo := by
    unfold readOptional at hgo
    rw [goes_peekToken_bind] at hgo
    obtain ⟨gap, hgap, hrest⟩ := c.exists_gap
    split at hgo
    · next hhead =>
      obtain ⟨rfl, hword⟩ := goes_readRest.1 hgo
      refine ⟨gap, "null".toList, hgap, rfl, ?_⟩
      rw [hrest, Cursor.rest_of_head? hhead, word_of_goes hword]
      rfl
    · obtain ⟨b, mid, hb, hgo⟩ := goes_bind.1 hgo
      obtain ⟨rfl, rfl⟩ := goes_pure.1 hgo
      obtain ⟨gap', cs, hgap', hcs, hspelled⟩ := h.sound hb
      exact ⟨gap ++ gap', cs, gap_append hgap hgap', hcs, by simp [hrest, hspelled]⟩
  complete {gap cs rest a} hgap hcs hrest := by
    unfold readOptional
    cases a with
    | none =>
      obtain rfl : cs = "null".toList := hcs
      exact (yields_peekToken _ hgap (by decide)).bind (yields_readRest "ull" none 'n' rest)
    | some a =>
      obtain ⟨c, tail, rfl, hc, hn⟩ := hbegins hcs
      refine (yields_peekToken _ hgap hc).bind ?_
      have hread : (do return some (← r) : Reader (Option α)).Yields (c :: tail ++ rest) (some a)
          rest := (h.complete gap_nil hcs hrest).bind (yields_pure _ _)
      split
      · next heq => exact absurd (Option.some.inj heq) (by simpa using hn)
      · exact hread

/-- The value of a field that was not met before is accepted behind its key. -/
theorem goes_readField_map (h : r.Accepts P) {name : String} {before : Option α}
    {g : Option α → β} {b : β} {c c' : Cursor}
    (hgo : (do return g (← readField name before r) : Reader β).Goes c b c') :
    before = none ∧ ∃ a cs, b = g (some a) ∧ BehindKey P a cs ∧ c.rest = cs ++ c'.rest := by
  obtain ⟨field, mid, hfield, hgo⟩ := goes_bind.1 hgo
  obtain ⟨rfl, rfl⟩ := goes_pure.1 hgo
  unfold readField at hfield
  split at hfield
  · obtain ⟨_, _, hfield, -⟩ := goes_bind.1 hfield
    exact absurd hfield not_goes_failBare
  · next hsome =>
    obtain ⟨⟨⟩, mid, hcolon, hfield⟩ := goes_bind.1 hfield
    obtain ⟨a, mid', ha, hfield⟩ := goes_bind.1 hfield
    obtain ⟨rfl, rfl⟩ := goes_pure.1 hfield
    obtain ⟨hhead, rfl⟩ := goes_readColon hcolon
    obtain ⟨front, hfront, hrest⟩ := Cursor.exists_gap_cons hhead
    obtain ⟨gap, value, hgap, hvalue, hspelled⟩ := h.sound ha
    refine ⟨by simpa using hsome, a, _, rfl, ⟨front, gap, value, hfront, hgap, hvalue, rfl⟩, ?_⟩
    simp [hrest, hspelled]

theorem yields_readField_map (h : r.Accepts P) (name : String) {before : Option α}
    (hnone : before = none) (g : Option α → β) {a : α} {cs rest : List Char}
    (hcs : BehindKey P a cs) (hrest : EndsNumber rest) :
    (do return g (← readField name before r) : Reader β).Yields (cs ++ rest) (g (some a)) rest := by
  obtain ⟨front, gap, value, hfront, hgap, hvalue, rfl⟩ := hcs
  obtain rfl := hnone
  have hcolon : readColon.Yields (front ++ ':' :: (gap ++ (value ++ rest))) ()
      (gap ++ (value ++ rest)) :=
    (yields_peekToken _ hfront (by decide)).bind (yields_advance _ _)
  have hread : (do return some (← r) : Reader (Option α)).Yields (gap ++ (value ++ rest)) (some a)
      rest := (h.complete hgap hvalue hrest).bind (yields_pure _ _)
  rw [List.append_assoc, List.cons_append, List.append_assoc]
  exact Yields.bind (hcolon.bind hread) (yields_pure _ _)

end Accepts

/-! ## Lists of a fixed length -/

section Elements

variable {α : Type} {r : Reader α} {P : α → List Char → Prop} {shape : String}

theorem hasItem_of_goes_readElement {index : Nat} {c c' : Cursor} {a : α}
    (h : (readElement index shape r).Goes c a c') :
    ∃ mid, (hasItem (index == 0)).Goes c true mid ∧ r.Goes mid a c' := by
  obtain ⟨more, mid, hmore, -⟩ := goes_bind.1 h
  obtain ⟨rfl, hitem⟩ := (goes_readElement index hmore).1 h
  exact ⟨mid, hmore, hitem⟩

/-- The first element is accepted. -/
theorem first_of_goes (h : r.Accepts P) {c c' : Cursor} {a : α}
    (hgo : (readElement 0 shape r).Goes c a c') :
    ∃ gap cs, Gap gap ∧ P a cs ∧ c.rest = gap ++ (cs ++ c'.rest) := by
  obtain ⟨mid, hmore, hitem⟩ := hasItem_of_goes_readElement hgo
  obtain ⟨gap, cs, hgap, hcs, hspelled⟩ := h.sound hitem
  obtain ⟨hfalse, -⟩ | ⟨-, -, -, rfl⟩ | ⟨-, hfirst, -⟩ := goes_hasItem hmore
  · cases hfalse
  · obtain ⟨front, hfront, hrest⟩ := c.exists_gap
    exact ⟨front ++ gap, cs, gap_append hfront hgap, hcs, by simp [hrest, hspelled]⟩
  · cases hfirst

/-- An element behind another one is accepted behind a comma. -/
theorem following_of_goes (h : r.Accepts P) {index : Nat} {c c' : Cursor} {a : α}
    (hgo : (readElement (index + 1) shape r).Goes c a c') :
    ∃ before gap cs, Gap before ∧ Gap gap ∧ P a cs ∧
      c.rest = before ++ ',' :: (gap ++ (cs ++ c'.rest)) := by
  obtain ⟨mid, hmore, hitem⟩ := hasItem_of_goes_readElement hgo
  obtain ⟨gap, cs, hgap, hcs, hspelled⟩ := h.sound hitem
  obtain ⟨hfalse, -⟩ | ⟨-, hfirst, -⟩ | ⟨-, -, hcomma, rfl⟩ := goes_hasItem hmore
  · cases hfalse
  · simp at hfirst
  · obtain ⟨before, hbefore, hrest⟩ := Cursor.exists_gap_cons hcomma
    obtain ⟨front, hfront, hrest'⟩ := c.behindSpace.behindNext.exists_gap
    refine ⟨before, front ++ gap, cs, hbefore, gap_append hfront hgap, hcs, ?_⟩
    rw [hrest, hrest', hspelled]
    simp

theorem yields_readElement_first (h : r.Accepts P) (hbegins : Begins [']'] P) {a : α}
    {gap cs rest : List Char} (hgap : Gap gap) (hcs : P a cs) (hrest : EndsNumber rest) :
    (readElement 0 shape r).Yields (gap ++ (cs ++ rest)) a rest := by
  have hread := h.complete gap_nil hcs hrest
  obtain ⟨c, tail, rfl, hc, hend⟩ := hbegins hcs
  exact (yields_hasItem_first _ hgap hc (by simpa using hend)).bind hread

theorem yields_readElement_next (h : r.Accepts P) (hbegins : Begins [']'] P) (index : Nat) {a : α}
    {before gap cs rest : List Char} (hbefore : Gap before) (hgap : Gap gap) (hcs : P a cs)
    (hrest : EndsNumber rest) :
    (readElement (index + 1) shape r).Yields (before ++ ',' :: (gap ++ (cs ++ rest))) a rest := by
  have hread := h.complete gap_nil hcs hrest
  obtain ⟨c, tail, rfl, hc, hend⟩ := hbegins hcs
  exact (yields_hasItem_next _ hbefore hgap hc (by simpa using hend)).bind hread

/-- The end of a list. -/
theorem end_of_goes {c c' : Cursor} (h : endList.Goes c () c') :
    ∃ gap, Gap gap ∧ c.rest = gap ++ ']' :: c'.rest := by
  obtain ⟨hhead, rfl⟩ := goes_endList h
  exact Cursor.exists_gap_cons hhead

end Elements

/-! ## Objects -/

section Members

variable {σ ι : Type} {step : σ → String → Reader σ} {key : ι → String}
  {P : ι → List Char → Prop} {take : σ → ι → Option σ}

/-- Behind a key the step passes a value of a member with that key, which takes the state on, and
goes on so with any such value. -/
structure Reader.Folds (step : σ → String → Reader σ) (key : ι → String)
    (P : ι → List Char → Prop) (take : σ → ι → Option σ) : Prop where
  sound : ∀ {s s' : σ} {name : String} {c c' : Cursor}, (step s name).Goes c s' c' →
    ∃ i cs, key i = name ∧ take s i = some s' ∧ BehindKey P i cs ∧ c.rest = cs ++ c'.rest
  complete : ∀ {s s' : σ} {i : ι} {cs rest : List Char}, take s i = some s' → BehindKey P i cs →
    EndsNumber rest → (step s (key i)).Yields (cs ++ rest) s' rest

/-- No member follows, or one is read and then the others. -/
theorem members_of_goes {n : Nat} {first : Bool} {s s' : σ} {c c' : Cursor}
    (h : (readMembers step n first s).Goes c s' c') :
    (s' = s ∧ (hasMember first).Goes c false c') ∨
    ∃ name s₁ c₁ c₂ c₃ m, n = m + 1 ∧ (hasMember first).Goes c true c₁ ∧ readKey.Goes c₁ name c₂ ∧
      (step s name).Goes c₂ s₁ c₃ ∧ (readMembers step m false s₁).Goes c₃ s' c' := by
  cases n with
  | zero => exact absurd h not_goes_failNext
  | succ n =>
    unfold readMembers at h
    obtain ⟨more, c₁, hmore, h⟩ := goes_bind.1 h
    cases more with
    | false =>
      obtain ⟨rfl, rfl⟩ := goes_pure.1 h
      exact .inl ⟨rfl, hmore⟩
    | true =>
      obtain ⟨name, c₂, hname, h⟩ := goes_bind.1 h
      obtain ⟨s₁, c₃, hs, h⟩ := goes_bind.1 h
      exact .inr ⟨name, s₁, c₁, c₂, c₃, n, rfl, hmore, hname, hs, h⟩

/-- A key and what is behind it are a member. -/
theorem member_of_goes (h : Folds step key P take) {s s' : σ} {name : String} {c c₁ c' : Cursor}
    (hquote : c.rest.head? = some '"') (hname : readKey.Goes c name c₁)
    (hs : (step s name).Goes c₁ s' c') :
    ∃ i cs, take s i = some s' ∧ MemberSpelled key P i cs ∧ c.rest = cs ++ c'.rest := by
  obtain ⟨ks, hks, hrest⟩ := stringSpelled_of_goes hquote (goes_readKey.1 hname)
  obtain ⟨i, cs, rfl, htake, hcs, hrest'⟩ := h.sound hs
  exact ⟨i, ks ++ cs, htake, ⟨ks, cs, hks, hcs, rfl⟩, by simp [hrest, hrest']⟩

/-- Where the members end there is no more space in front of the bracket. -/
theorem gap_of_hasMember {first : Bool} {c c' : Cursor} (h : (hasMember first).Goes c false c') :
    c'.behindSpace = c' ∧ ∃ gap, Gap gap ∧ c.rest = gap ++ c'.rest := by
  obtain ⟨-, -, rfl⟩ | ⟨htrue, -⟩ | ⟨htrue, -⟩ := goes_hasMember h
  · exact ⟨c.behindSpace_behindSpace, c.exists_gap⟩
  · cases htrue
  · cases htrue

/-- The members behind the first one. -/
theorem following_of_goes_readMembers (h : Folds step key P take) {n : Nat} {s s' : σ}
    {c c' : Cursor} (hgo : (readMembers step n false s).Goes c s' c') :
    c'.behindSpace = c' ∧ ∃ is cs, is.foldlM take s = some s' ∧
      Following (MemberSpelled key P) is cs ∧ c.rest = cs ++ c'.rest := by
  induction n generalizing s c with
  | zero => exact absurd hgo not_goes_failNext
  | succ n ih =>
    obtain ⟨rfl, hend⟩ | ⟨name, s₁, c₁, c₂, c₃, m, hm, hmore, hname, hs, hgo⟩ := members_of_goes hgo
    · obtain ⟨hclosed, gap, hgap, hrest⟩ := gap_of_hasMember hend
      exact ⟨hclosed, [], gap, rfl, .nil hgap, hrest⟩
    · obtain rfl := Nat.succ.inj hm
      obtain ⟨hfalse, -⟩ | ⟨-, hfirst, -⟩ | ⟨-, -, hcomma, rfl, hquote⟩ := goes_hasMember hmore
      · cases hfalse
      · cases hfirst
      · obtain ⟨i, m, htake, hmember, hrest⟩ := member_of_goes h hquote hname hs
        obtain ⟨hclosed, is, cs, hfold, hcs, hrest'⟩ := ih hgo
        obtain ⟨before, hbefore, hfront⟩ := Cursor.exists_gap_cons hcomma
        obtain ⟨gap, hgap, hfront'⟩ := c.behindSpace.behindNext.exists_gap
        refine ⟨hclosed, i :: is, _, ?_, .cons hbefore hgap hmember hcs, ?_⟩
        · rw [List.foldlM_cons, htake]
          exact hfold
        · rw [hfront, hfront', hrest, hrest']
          simp

/-- All members of an object, behind its bracket. -/
theorem listed_of_goes_readFields (h : Folds step key P take) {s s' : σ} {c c' : Cursor}
    (hgo : (readFields step s).Goes c s' c') :
    c'.behindSpace = c' ∧ ∃ is cs, is.foldlM take s = some s' ∧
      Listed (MemberSpelled key P) is cs ∧ c.rest = cs ++ c'.rest := by
  unfold readFields at hgo
  rw [goes_fuelHere_bind] at hgo
  obtain ⟨rfl, hend⟩ | ⟨name, s₁, c₁, c₂, c₃, m, -, hmore, hname, hs, hgo⟩ := members_of_goes hgo
  · obtain ⟨hclosed, gap, hgap, hrest⟩ := gap_of_hasMember hend
    exact ⟨hclosed, [], gap, rfl, .nil hgap, hrest⟩
  · obtain ⟨hfalse, -⟩ | ⟨-, -, hquote, rfl⟩ | ⟨-, hfirst, -⟩ := goes_hasMember hmore
    · cases hfalse
    · obtain ⟨i, m, htake, hmember, hrest⟩ := member_of_goes h hquote hname hs
      obtain ⟨hclosed, is, cs, hfold, hcs, hrest'⟩ := following_of_goes_readMembers h hgo
      obtain ⟨gap, hgap, hfront⟩ := c.exists_gap
      refine ⟨hclosed, i :: is, _, ?_, .cons hgap hmember hcs, ?_⟩
      · rw [List.foldlM_cons, htake]
        exact hfold
      · rw [hfront, hrest, hrest']
        simp
    · cases hfirst

/-- The members behind the first one are read up to the bracket. -/
theorem yields_readMembers_following (h : Folds step key P take) {is : List ι} {cs : List Char}
    (hcs : Following (MemberSpelled key P) is cs) (rest : List Char) :
    ∀ {s s' : σ} {fuel : Nat}, is.length < fuel → is.foldlM take s = some s' →
      (readMembers step fuel false s).Yields (cs ++ '\x7d' :: rest) s' ('\x7d' :: rest) := by
  induction hcs with
  | nil hgap =>
    intro s s' fuel hfuel hfold
    obtain ⟨fuel, rfl⟩ : ∃ k, fuel = k + 1 := ⟨fuel - 1, by omega⟩
    cases hfold
    exact yields_readMembers_end rest fuel false s hgap
  | @cons i is before gap cs more hbefore hgap hmember hmore ih =>
    intro s s' fuel hfuel hfold
    rw [List.length_cons] at hfuel
    obtain ⟨fuel, rfl⟩ : ∃ k, fuel = k + 1 := ⟨fuel - 1, by omega⟩
    rw [List.foldlM_cons] at hfold
    obtain ⟨s₁, htake, hfold⟩ := Option.bind_eq_some_iff.1 hfold
    obtain ⟨ks, value, hks, hvalue, rfl⟩ := hmember
    simp only [List.append_assoc, List.cons_append]
    exact yields_readMembers_next hks hbefore hgap
      (h.complete htake hvalue (hmore.endsNumber rest (by decide))) (ih (by omega) hfold)

/-- All members of an object are read up to the bracket. -/
theorem yields_readFields_listed (h : Folds step key P take) {is : List ι} {cs : List Char}
    (hcs : Listed (MemberSpelled key P) is cs) (rest : List Char) {s s' : σ}
    (hfold : is.foldlM take s = some s') :
    (readFields step s).Yields (cs ++ '\x7d' :: rest) s' ('\x7d' :: rest) := by
  refine (yields_fuelHere _).bind ?_
  cases hcs with
  | nil hgap =>
    cases hfold
    exact yields_readMembers_end rest _ true s hgap
  | @cons i is gap cs more hgap hmember hmore =>
    rw [List.foldlM_cons] at hfold
    obtain ⟨s₁, htake, hfold⟩ := Option.bind_eq_some_iff.1 hfold
    obtain ⟨ks, value, hks, hvalue, rfl⟩ := hmember
    have hfuel : is.length < (gap ++ (ks ++ value ++ more) ++ '\x7d' :: rest).length := by
      have := hmore.length_le
      simp only [List.length_append, List.length_cons]
      omega
    have hothers := yields_readMembers_following h hmore rest hfuel hfold
    simp only [List.append_assoc] at hothers ⊢
    exact yields_readMembers_first hks hgap
      (h.complete htake hvalue (hmore.endsNumber rest (by decide))) hothers

end Members

/-! ## Whole texts -/

section Documents

variable {α : Type} {r : Reader α} {P : α → List Char → Prop}

theorem endsNumber_of_gap {gap : List Char} (h : Gap gap) : EndsNumber gap := by
  cases gap with
  | nil => exact endsNumber_nil
  | cons c gap => exact endsNumber_space gap (h c List.mem_cons_self)

/-- A document is read where the text is one of the grammar, but for space around it. -/
theorem readDocument_eq_ok_iff_spelled (h : r.Accepts P) {text : String} {a : α} :
    readDocument r text = .ok a ↔ DocumentSpelled P a text.toList := by
  constructor
  · intro hread
    obtain ⟨mid, c', hgo, hend⟩ := readDocument_eq_ok_iff.1 hread
    obtain ⟨before, cs, hbefore, hcs, hrest⟩ := h.sound hgo
    refine ⟨before, cs, mid.rest, hbefore, ?_, hcs, hrest⟩
    obtain ⟨gap, hgap, hmid⟩ := mid.exists_gap
    unfold endDocument at hend
    rw [goes_peekToken_bind] at hend
    split at hend
    · exact absurd hend not_goes_failNext
    · next hnone =>
      rw [hmid, List.head?_eq_none_iff.1 hnone, List.append_nil]
      exact hgap
  · rintro ⟨before, cs, after, hbefore, hafter, hcs, htext⟩
    have hread := h.complete hbefore hcs (endsNumber_of_gap hafter)
    rw [← htext] at hread
    exact readDocument_of_yields hread hafter

end Documents

end EmbeddedSolidity.Json
