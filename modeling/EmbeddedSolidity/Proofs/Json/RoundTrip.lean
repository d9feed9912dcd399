import EmbeddedSolidity.Proofs.Json.Readable

/-!
# Printed values read back

A readable value without floating point numbers reads back from each of its texts, with the same
number of levels (`yields_readValue`). The texts differ only in the space between tokens, which is
all that is assumed of a layout (`Layout.Spaced`).
-/

namespace EmbeddedSolidity.Json

open Reader

/-! ## Layouts -/

/-- Apart from commas and colons a layout has space only. -/
structure Layout.Spaced (layout : Layout) : Prop where
  opening (n : Nat) : Gap (layout.opening n)
  closing (n : Nat) : Gap (layout.closing n)
  between (n : Nat) : ∃ gap, Gap gap ∧ layout.between n = ',' :: gap
  colon : ∃ gap, Gap gap ∧ layout.colon = ':' :: gap

theorem gap_newline (n : Nat) : Gap (newline n) := by
  intro c hc
  rcases List.mem_cons.1 hc with rfl | hc
  · rfl
  · rw [List.eq_of_mem_replicate hc]
    rfl

theorem spaced_compact : Layout.compact.Spaced where
  opening _ := gap_nil
  closing _ := gap_nil
  between _ := ⟨[], gap_nil, rfl⟩
  colon := ⟨[], gap_nil, rfl⟩

theorem spaced_pretty : Layout.pretty.Spaced where
  opening n := gap_newline (n + 1)
  closing n := gap_newline n
  between n := ⟨newline (n + 1), gap_newline (n + 1), rfl⟩
  colon := ⟨[' '], by simp [Gap, isSpace], rfl⟩

theorem endsNumber_nil : EndsNumber [] :=
  fun _ h => nomatch h

theorem endsNumber_cons {c : Char} (rest : List Char)
    (hc : c.isDigit = false ∧ c ≠ '.' ∧ c ≠ 'e' ∧ c ≠ 'E') : EndsNumber (c :: rest) := by
  intro y hy
  obtain rfl : c = y := Option.some.inj hy
  exact hc

/-- Space does not go on with a number. -/
theorem endsNumber_space {c : Char} (rest : List Char) (hc : isSpace c = true) :
    EndsNumber (c :: rest) := by
  simp only [isSpace, Bool.or_eq_true, beq_iff_eq] at hc
  refine endsNumber_cons _ ?_
  obtain ((rfl | rfl) | rfl) | rfl := hc <;> decide

theorem endsNumber_gap {gap : List Char} (hgap : Gap gap) {c : Char} (rest : List Char)
    (hc : c.isDigit = false ∧ c ≠ '.' ∧ c ≠ 'e' ∧ c ≠ 'E') : EndsNumber (gap ++ c :: rest) := by
  cases gap with
  | nil => exact endsNumber_cons rest hc
  | cons x gap => exact endsNumber_space _ (hgap x List.mem_cons_self)

/-! ## Lists -/

section Items

variable {before gap : List Char}

theorem yields_hasItem_end (rest : List Char) (first : Bool) (hgap : Gap gap) :
    (hasItem first).Yields (gap ++ ']' :: rest) false (']' :: rest) :=
  (yields_peekToken rest hgap (by decide)).bind (yields_pure _ _)

theorem yields_hasItem_first {c : Char} (cs : List Char) (hgap : Gap gap) (hc : isSpace c = false) (hend : c ≠ ']') :
    (hasItem true).Yields (gap ++ c :: cs) true (c :: cs) := by
  unfold hasItem
  refine (yields_peekToken cs hgap hc).bind ?_
  split
  · next h => cases h
  · next h => exact absurd (Option.some.inj h) hend
  · exact yields_pure _ _

theorem yields_hasItem_next {c : Char} (cs : List Char) (hbefore : Gap before) (hgap : Gap gap)
    (hc : isSpace c = false) (hend : c ≠ ']') :
    (hasItem false).Yields (before ++ ',' :: (gap ++ c :: cs)) true (c :: cs) := by
  unfold hasItem
  refine (yields_peekToken _ hbefore (by decide)).bind ?_
  refine (yields_advance ',' (gap ++ c :: cs)).bind ((yields_peekToken cs hgap hc).bind ?_)
  split
  · next h => exact absurd (Option.some.inj h) hend
  · exact yields_pure _ _
  · next h => cases h

theorem yields_endList (rest : List Char) : endList.Yields (']' :: rest) () rest :=
  (yields_peekToken_cons rest (by decide)).bind (yields_advance _ _)

end Items

/-! ## Objects -/

section Members

variable {σ : Type} {step : σ → String → Reader σ} {fuel : Nat} {before gap cs mid rest : List Char}

theorem yields_readMembers_end (rest : List Char) (fuel : Nat) (first : Bool) (state : σ) (hgap : Gap gap) :
    (readMembers step (fuel + 1) first state).Yields (gap ++ '\x7d' :: rest) state ('\x7d' :: rest) := by
  have none : (hasMember first).Yields (gap ++ '\x7d' :: rest) false ('\x7d' :: rest) :=
    (yields_peekToken rest hgap (by decide)).bind (yields_pure _ _)
  exact none.bind (yields_pure _ _)

theorem stringChars_append (s : String) (rest : List Char) :
    stringChars s ++ rest = '"' :: (s.toList.flatMap escapeChar ++ '"' :: rest) := by
  simp [stringChars]

/-- A key is read from each of its spellings, at its quote. -/
theorem yields_readKey {key : String} {ks : List Char} (hkey : StringSpelled key ks)
    (rest : List Char) : readKey.Yields (ks ++ rest) key rest := by
  obtain ⟨body, hbody, rfl⟩ := hkey
  rw [List.cons_append, List.append_assoc]
  exact (yields_advance '"' _).bind (yields_readStringBody_of_spelled hbody rest)

theorem yields_hasMember_first {key : String} {ks : List Char} (hkey : StringSpelled key ks)
    (hgap : Gap gap) : (hasMember true).Yields (gap ++ (ks ++ cs)) true (ks ++ cs) := by
  obtain ⟨body, -, rfl⟩ := hkey
  exact (yields_peekToken _ hgap (by decide)).bind (yields_pure _ _)

theorem yields_hasMember_next {key : String} {ks : List Char} (hkey : StringSpelled key ks)
    (hbefore : Gap before) (hgap : Gap gap) :
    (hasMember false).Yields (before ++ ',' :: (gap ++ (ks ++ cs))) true (ks ++ cs) := by
  obtain ⟨body, -, rfl⟩ := hkey
  refine (yields_peekToken _ hbefore (by decide)).bind ((yields_advance ',' _).bind ?_)
  exact (yields_peekToken _ hgap (by decide)).bind (yields_pure _ _)

theorem yields_readMembers_first {key : String} {ks : List Char} {state state' last : σ}
    (hkey : StringSpelled key ks) (hgap : Gap gap) (hstep : (step state key).Yields cs state' mid)
    (h : (readMembers step fuel false state').Yields mid last rest) :
    (readMembers step (fuel + 1) true state).Yields (gap ++ (ks ++ cs)) last rest :=
  (yields_hasMember_first hkey hgap).bind ((yields_readKey hkey cs).bind (hstep.bind h))

theorem yields_readMembers_next {key : String} {ks : List Char} {state state' last : σ}
    (hkey : StringSpelled key ks) (hbefore : Gap before) (hgap : Gap gap)
    (hstep : (step state key).Yields cs state' mid)
    (h : (readMembers step fuel false state').Yields mid last rest) :
    (readMembers step (fuel + 1) false state).Yields (before ++ ',' :: (gap ++ (ks ++ cs))) last
      rest :=
  (yields_hasMember_next hkey hbefore hgap).bind ((yields_readKey hkey cs).bind (hstep.bind h))

theorem yields_endObject (rest : List Char) : endObject.Yields ('\x7d' :: rest) () rest :=
  (yields_peekToken_cons rest (by decide)).bind (yields_advance _ _)

theorem yields_readColon (cs : List Char) : readColon.Yields (':' :: cs) () cs :=
  (yields_peekToken_cons cs (by decide)).bind (yields_advance _ _)

end Members

/-! ## Values -/

/-- The digits of a number start with a digit. -/
theorem toDigits_eq_cons (n : Nat) : ∃ c cs, Nat.toDigits 10 n = c :: cs ∧ c.isDigit = true := by
  cases h : Nat.toDigits 10 n with
  | nil => exact absurd h Nat.toDigits_ne_nil
  | cons c cs =>
    have hc : c ∈ Nat.toDigits 10 n := by rw [h]; exact List.mem_cons_self
    exact ⟨c, cs, rfl, Nat.isDigit_of_mem_toDigits (by decide) (by decide) hc⟩

theorem isSpace_of_isDigit {c : Char} (h : c.isDigit = true) : isSpace c = false := by
  rw [Bool.eq_false_iff]
  intro hspace
  simp only [isSpace, Bool.or_eq_true, beq_iff_eq] at hspace
  obtain ((rfl | rfl) | rfl) | rfl := hspace <;> exact absurd h (by decide)

theorem toList_text_ofNat (n : Nat) :
    (Number.integer (Int.ofNat n)).text.toList = Nat.toDigits 10 n := by
  show (toString n).toList = _
  simp

theorem toList_text_negSucc (n : Nat) :
    (Number.integer (Int.negSucc n)).text.toList = '-' :: Nat.toDigits 10 (n + 1) := by
  show ("-" ++ toString (n + 1)).toList = _
  simp

/-- The text of a value starts with a character that is neither space nor a closing bracket. -/
theorem chars_eq_cons (layout : Layout) (n : Nat) {v : Value} (h : v.Integral) :
    ∃ c cs, v.chars layout n = c :: cs ∧ isSpace c = false ∧ c ≠ ']' := by
  cases h with
  | null => exact ⟨'n', _, rfl, by decide, by decide⟩
  | boolean b => cases b <;> exact ⟨_, _, rfl, by decide, by decide⟩
  | integer i =>
    cases i with
    | ofNat n =>
      obtain ⟨c, cs, hcs, hc⟩ := toDigits_eq_cons n
      refine ⟨c, cs, (toList_text_ofNat n).trans hcs, isSpace_of_isDigit hc, ?_⟩
      rintro rfl
      exact absurd hc (by decide)
    | negSucc n => exact ⟨'-', _, toList_text_negSucc n, by decide, by decide⟩
  | string s => exact ⟨'"', _, rfl, by decide, by decide⟩
  | @array items _ =>
    cases items with
    | nil => exact ⟨'[', _, rfl, by decide, by decide⟩
    | cons item items => exact ⟨'[', _, by rw [Value.chars, List.append_assoc]; rfl, by decide, by decide⟩
  | @object members _ =>
    cases members with
    | nil => exact ⟨'\x7b', _, rfl, by decide, by decide⟩
    | cons m members =>
      obtain ⟨key, value⟩ := m
      exact ⟨'\x7b', _, by rw [Value.chars, List.append_assoc]; rfl, by decide, by decide⟩

section Values

variable {d fuel : Nat} {gap cs rest : List Char}

theorem yields_readRest {α : Type} (letters : String) (a : α) (c : Char) (rest : List Char) :
    (readRest letters a).Yields (c :: letters.toList ++ rest) a rest := by
  have word : ∀ cs : List Char, (readWord cs).Yields (cs ++ rest) () rest := by
    intro cs
    induction cs with
    | nil => exact yields_pure _ _
    | cons x cs ih =>
      unfold readWord
      refine yields_get fun p => (yields_next x (cs ++ rest)).bind ?_
      dsimp only
      rw [if_pos (beq_self_eq_true x)]
      exact ih
  exact (yields_advance c _).bind ((word _).bind (yields_pure _ _))

theorem yields_readValue_digit {c : Char} {m : Number} (hgap : Gap gap) (hc : c.isDigit = true)
    (h : (readNumber true).Yields (c :: cs) m rest) :
    (readValue (d + 1)).Yields (gap ++ c :: cs) (.number m) rest := by
  unfold readValue
  refine (yields_peekToken cs hgap (isSpace_of_isDigit hc)).bind ?_
  split
  case h_9 x hx =>
    obtain rfl := Option.some.inj hx
    rw [if_pos hc]
    exact h.bind (yields_pure _ _)
  · next hx => cases hx
  all_goals next hx => exact absurd (Option.some.inj hx ▸ hc) (by decide)

/-- An integer that fits reads back. -/
theorem yields_readValue_integer (hgap : Gap gap) (hrest : EndsNumber rest) {i : Int}
    (hlow : -2 ^ 63 ≤ i) (hhigh : i ≤ maxInteger) :
    (readValue (d + 1)).Yields (gap ++ ((Number.integer i).text.toList ++ rest))
      (.number (.integer i)) rest := by
  cases i with
  | ofNat n =>
    obtain ⟨c, cs, hcs, hc⟩ := toDigits_eq_cons n
    have h := yields_readNumber_natural (n := n) hrest (Int.ofNat_le.1 hhigh)
    rw [toList_text_ofNat]
    rw [hcs] at h ⊢
    exact yields_readValue_digit hgap hc h
  | negSucc n =>
    have h := yields_readNumber_negative (n := n + 1) hrest (Nat.succ_pos n) (by omega)
    rw [toList_text_negSucc]
    refine (yields_peekToken _ hgap (by decide)).bind ((yields_advance '-' _).bind ?_)
    exact h.bind (yields_pure _ _)

end Values

/-! ## Containers of values -/

/-- On the text of the value the reader gives `a`, whatever space stands in front. -/
def ReadsBack {α : Type} (layout : Layout) (n : Nat) (r : Reader α) (v : Value) (a : α) : Prop :=
  ∀ gap rest, Gap gap → EndsNumber rest → r.Yields (gap ++ (v.chars layout n ++ rest)) a rest

section Containers

variable {layout : Layout} {n : Nat} {r : Reader Value} {gap : List Char}

theorem length_le_length_itemsChars (hl : layout.Spaced) (items : List Value) :
    items.length ≤ (itemsChars layout n items).length := by
  induction items with
  | nil => exact Nat.zero_le _
  | cons item items ih =>
    obtain ⟨gap, -, hbetween⟩ := hl.between n
    simp only [itemsChars, hbetween, List.length_append, List.length_cons]
    omega

theorem length_le_length_membersChars (hl : layout.Spaced) (members : List (String × Value)) :
    members.length ≤ (membersChars layout n members).length := by
  induction members with
  | nil => exact Nat.zero_le _
  | cons m members ih =>
    obtain ⟨gap, -, hbetween⟩ := hl.between n
    obtain ⟨key, value⟩ := m
    simp only [membersChars, hbetween, List.length_append, List.length_cons]
    omega

/-- What stands behind an item does not go on with a number. -/
theorem endsNumber_itemsChars (rest : List Char) (hl : layout.Spaced) (hgap : Gap gap) :
    ∀ items : List Value, EndsNumber (itemsChars layout n items ++ (gap ++ ']' :: rest))
  | [] => endsNumber_gap hgap rest (by decide)
  | item :: items => by
    obtain ⟨between, -, hbetween⟩ := hl.between n
    simp only [itemsChars, hbetween, List.append_assoc]
    exact endsNumber_cons _ (by decide)

theorem endsNumber_membersChars (rest : List Char) (hl : layout.Spaced) (hgap : Gap gap) :
    ∀ members : List (String × Value),
      EndsNumber (membersChars layout n members ++ (gap ++ '\x7d' :: rest))
  | [] => endsNumber_gap hgap rest (by decide)
  | (key, value) :: members => by
    obtain ⟨between, -, hbetween⟩ := hl.between n
    simp only [membersChars, hbetween, List.append_assoc]
    exact endsNumber_cons _ (by decide)

/-- The items behind the first one. -/
theorem yields_readItems (rest : List Char) (hl : layout.Spaced) (hgap : Gap gap) :
    ∀ (items before : List Value) (fuel : Nat), items.length < fuel →
      (∀ v ∈ items, v.Integral ∧ ReadsBack layout (n + 1) r v v) →
      (readItems r fuel false before).Yields (itemsChars layout n items ++ (gap ++ ']' :: rest))
        (before.reverse ++ items) (']' :: rest)
  | _, _, 0, hfuel, _ => absurd hfuel (Nat.not_lt_zero _)
  | [], before, fuel + 1, _, _ => by
    rw [List.append_nil]
    exact (yields_hasItem_end rest false hgap).bind (yields_pure _ _)
  | item :: items, before, fuel + 1, hfuel, h => by
    obtain ⟨hitem, hread⟩ := h item List.mem_cons_self
    obtain ⟨between, hbetween, heq⟩ := hl.between n
    obtain ⟨c, cs, hcs, hc, hend⟩ := chars_eq_cons layout (n + 1) hitem
    have first := hread [] (itemsChars layout n items ++ (gap ++ ']' :: rest)) gap_nil
      (endsNumber_itemsChars rest hl hgap items)
    have ih := yields_readItems rest hl hgap items (item :: before) fuel (Nat.lt_of_succ_lt_succ hfuel)
      fun v hv => h v (List.mem_cons_of_mem item hv)
    rw [List.reverse_cons, List.append_assoc, List.singleton_append] at ih
    have more := yields_hasItem_next
      (cs ++ (itemsChars layout n items ++ (gap ++ ']' :: rest))) gap_nil hbetween hc hend
    rw [List.nil_append, ← List.cons_append, ← List.cons_append, ← hcs, ← heq] at more
    simp only [itemsChars, List.append_assoc]
    exact more.bind (first.bind ih)

theorem yields_putMember (key : String) (before : List (String × Value)) (hl : layout.Spaced)
    {v : Value} (hv : ReadsBack layout n r v v) (hkey : ∀ m ∈ before, m.1 < key)
    (hrest : EndsNumber rest) :
    (do readColon; return putMember key (← r) before : Reader (List (String × Value))).Yields
      (layout.colon ++ (v.chars layout n ++ rest)) (before ++ [(key, v)]) rest := by
  obtain ⟨space, hspace, hcolon⟩ := hl.colon
  rw [hcolon, List.cons_append, ← putMember_append hkey]
  exact (yields_readColon _).bind ((hv space rest hspace hrest).bind (yields_pure _ _))

/-- The members behind the first one. -/
theorem yields_readMembers (rest : List Char) (hl : layout.Spaced) (hgap : Gap gap) :
    ∀ (members before : List (String × Value)) (fuel : Nat), members.length < fuel →
      Ordered (before ++ members) → (∀ m ∈ members, ReadsBack layout (n + 1) r m.2 m.2) →
      (readMembers (fun members key => do readColon; return putMember key (← r) members)
        fuel false before).Yields (membersChars layout n members ++ (gap ++ '\x7d' :: rest))
        (before ++ members) ('\x7d' :: rest)
  | _, _, 0, hfuel, _, _ => absurd hfuel (Nat.not_lt_zero _)
  | [], before, fuel + 1, _, _, _ => by
    rw [List.append_nil]
    exact yields_readMembers_end rest fuel false before hgap
  | (key, v) :: members, before, fuel + 1, hfuel, hordered, h => by
    obtain ⟨between, hbetween, heq⟩ := hl.between n
    have hkey : ∀ m ∈ before, m.1 < key := fun m hm =>
      (List.pairwise_append.1 hordered).2.2 m hm (key, v) List.mem_cons_self
    have hstep := yields_putMember key before hl (h (key, v) List.mem_cons_self) hkey
      (endsNumber_membersChars (n := n) rest hl hgap members)
    rw [List.append_cons] at hordered
    have ih := yields_readMembers rest hl hgap members (before ++ [(key, v)]) fuel
      (Nat.lt_of_succ_lt_succ hfuel) hordered fun m hm => h m (List.mem_cons_of_mem _ hm)
    rw [← List.append_cons] at ih
    simp only [membersChars, heq, List.append_assoc]
    exact yields_readMembers_next (stringSpelled_stringChars key) gap_nil hbetween hstep ih

/-- What stands behind the opening bracket of a list. -/
def listBody (layout : Layout) (n : Nat) : List Value → List Char
  | [] => [']']
  | item :: items =>
    layout.opening n ++ (item.chars layout (n + 1) ++ (itemsChars layout n items ++
      (layout.closing n ++ [']'])))

theorem chars_array (layout : Layout) (n : Nat) (items : List Value) :
    (Value.array items).chars layout n = '[' :: listBody layout n items := by
  cases items with
  | nil => rfl
  | cons item items => simp [Value.chars, listBody]

/-- What stands behind the opening bracket of an object. -/
def objectBody (layout : Layout) (n : Nat) : List (String × Value) → List Char
  | [] => ['\x7d']
  | (key, value) :: members =>
    layout.opening n ++ (stringChars key ++ (layout.colon ++ (value.chars layout (n + 1) ++
      (membersChars layout n members ++ (layout.closing n ++ ['\x7d'])))))

theorem chars_object (layout : Layout) (n : Nat) (members : List (String × Value)) :
    (Value.object members).chars layout n = '\x7b' :: objectBody layout n members := by
  cases members with
  | nil => rfl
  | cons m members =>
    obtain ⟨key, value⟩ := m
    simp [Value.chars, objectBody]

theorem length_lt_length_listBody (rest : List Char) (hl : layout.Spaced) (items : List Value) :
    items.length < (listBody layout n items ++ rest).length + 1 := by
  cases items with
  | nil => exact Nat.succ_pos _
  | cons item items =>
    have := length_le_length_itemsChars (n := n) hl items
    simp only [listBody, List.length_append, List.length_cons]
    omega

theorem length_lt_length_objectBody (rest : List Char) (hl : layout.Spaced) (members : List (String × Value)) :
    members.length < (objectBody layout n members ++ rest).length + 1 := by
  cases members with
  | nil => exact Nat.succ_pos _
  | cons m members =>
    have := length_le_length_membersChars (n := n) hl members
    obtain ⟨key, value⟩ := m
    simp only [objectBody, List.length_append, List.length_cons]
    omega

/-- A list reads back, behind its bracket. -/
theorem yields_listBody (rest : List Char) (hl : layout.Spaced) {items : List Value} {fuel : Nat}
    (hfuel : items.length < fuel) (h : ∀ v ∈ items, v.Integral ∧ ReadsBack layout (n + 1) r v v) :
    (within (readItems r fuel true []) endList).Yields (listBody layout n items ++ rest) items
      rest := by
  obtain ⟨fuel, rfl⟩ : ∃ k, fuel = k + 1 := ⟨fuel - 1, by omega⟩
  refine yields_within ?_ (yields_endList rest)
  cases items with
  | nil => exact (yields_hasItem_end rest true gap_nil).bind (yields_pure _ _)
  | cons item items =>
    obtain ⟨hitem, hread⟩ := h item List.mem_cons_self
    obtain ⟨c, cs, hcs, hc, hend⟩ := chars_eq_cons layout (n + 1) hitem
    have hclosing := hl.closing n
    have first := hread [] (itemsChars layout n items ++ (layout.closing n ++ ']' :: rest)) gap_nil
      (endsNumber_itemsChars rest hl hclosing items)
    have others := yields_readItems rest hl hclosing items [item] fuel
      (Nat.lt_of_succ_lt_succ hfuel) fun v hv => h v (List.mem_cons_of_mem item hv)
    have more := yields_hasItem_first
      (cs ++ (itemsChars layout n items ++ (layout.closing n ++ ']' :: rest))) (hl.opening n) hc hend
    rw [← List.cons_append, ← hcs] at more
    simp only [listBody, List.append_assoc, List.singleton_append]
    exact more.bind (first.bind others)

/-- An object reads back, behind its bracket. -/
theorem yields_objectBody (rest : List Char) (hl : layout.Spaced) {members : List (String × Value)} {fuel : Nat}
    (hfuel : members.length < fuel) (hordered : Ordered members)
    (h : ∀ m ∈ members, ReadsBack layout (n + 1) r m.2 m.2) :
    (within (readMembers (fun members key => do readColon; return putMember key (← r) members)
      fuel true []) endObject).Yields (objectBody layout n members ++ rest) members rest := by
  obtain ⟨fuel, rfl⟩ : ∃ k, fuel = k + 1 := ⟨fuel - 1, by omega⟩
  refine yields_within ?_ (yields_endObject rest)
  cases members with
  | nil => exact yields_readMembers_end rest fuel true [] gap_nil
  | cons m members =>
    obtain ⟨key, v⟩ := m
    have hclosing := hl.closing n
    have hstep := yields_putMember (r := r) key [] hl (h (key, v) List.mem_cons_self)
      (by simp) (endsNumber_membersChars (n := n) rest hl hclosing members)
    have others := yields_readMembers rest hl hclosing members [(key, v)] fuel
      (Nat.lt_of_succ_lt_succ hfuel) hordered fun m hm => h m (List.mem_cons_of_mem _ hm)
    simp only [objectBody, List.append_assoc, List.singleton_append]
    exact yields_readMembers_first (stringSpelled_stringChars key) (hl.opening n) hstep others

end Containers

/-- A readable value without floating point numbers reads back from its text. -/
theorem readsBack_readValue {layout : Layout} (hl : layout.Spaced) {d : Nat} {v : Value}
    (h : v.Readable d) : ∀ n, v.Integral → ReadsBack layout n (readValue d) v v := by
  induction h with
  | null d =>
    intro n _ gap rest hgap _
    exact (yields_peekToken _ hgap (by decide)).bind (yields_readRest "ull" _ 'n' rest)
  | boolean d b =>
    intro n _ gap rest hgap _
    cases b with
    | true => exact (yields_peekToken _ hgap (by decide)).bind (yields_readRest "rue" _ 't' rest)
    | false => exact (yields_peekToken _ hgap (by decide)).bind (yields_readRest "alse" _ 'f' rest)
  | integer d hlow hhigh =>
    intro n _ gap rest hgap hrest
    exact yields_readValue_integer hgap hrest hlow hhigh
  | real d x => exact fun n hi => nomatch hi
  | string d s =>
    intro n _ gap rest hgap _
    rw [Value.chars, stringChars_append]
    refine (yields_peekToken _ hgap (by decide)).bind ((yields_advance '"' _).bind ?_)
    exact (yields_readStringBody s rest).bind (yields_pure _ _)
  | @array d items _ ih =>
    intro n hi gap rest hgap _
    have hall : ∀ v ∈ items, v.Integral := by cases hi; assumption
    rw [chars_array, List.cons_append]
    refine (yields_peekToken _ hgap (by decide)).bind ?_
    refine (yields_enter (by omega) '[' _).bind ((yields_fuelHere _).bind ?_)
    refine (yields_listBody _ hl (length_lt_length_listBody _ hl items) fun v hv => ?_).bind
      (yields_pure _ _)
    exact ⟨hall v hv, ih v hv (n + 1) (hall v hv)⟩
  | @object d members hordered _ ih =>
    intro n hi gap rest hgap _
    have hall : ∀ m ∈ members, m.2.Integral := by cases hi; assumption
    rw [chars_object, List.cons_append]
    refine (yields_peekToken _ hgap (by decide)).bind ?_
    refine (yields_enter (by omega) '\x7b' _).bind ((yields_fuelHere _).bind ?_)
    refine (yields_objectBody _ hl (length_lt_length_objectBody _ hl members) hordered
      fun m hm => ?_).bind (yields_pure _ _)
    exact ih m hm (n + 1) (hall m hm)

end EmbeddedSolidity.Json
