import EmbeddedSolidity.Artifact.Basic
import EmbeddedSolidity.Proofs.Json.Shapes

/-!
# Reading an artifact alongside a document

An artifact that is read straight from a text is compared with the document of the text. Where the
text has a document, a reader of a shape gives what the shape makes of the document and comes to the
same cursor; if the shape makes nothing of the document, then the reader fails.

* `Follows` : a reader reads what can be made of the document;
* `Document.artifact?` : the artifact that a document is, if no field is repeated;
* `follows_reader` : the reader of artifacts follows it.
-/

namespace EmbeddedSolidity.Artifact

open Json Reader

variable {α β σ : Type}

/-! ## What documents are -/

/-- The text that a document is. -/
def textOf? : Document → Option String
  | .string s => some s
  | _ => none

/-- The values of the items of a document. -/
def itemsOf? : Document → Option (List Value)
  | .array items => some (items.map Document.value)
  | _ => none

/-- A field that must not have been there before. -/
def onceField? (f : Document → Option α) (before : Option α) (doc : Document) :
    Option (Option α) :=
  if before.isSome then none else (f doc).map some

/-- One more member of a record with two fields. Members with other keys make no difference. -/
def onceMore? (first second : String) (f : Document → Option α) (g : Document → Option β)
    (state : Option α × Option β) (member : String × Document) : Option (Option α × Option β) :=
  if member.1 == first then (onceField? f state.1 member.2).map fun a => (a, state.2)
  else if member.1 == second then (onceField? g state.2 member.2).map fun b => (state.1, b)
  else some state

/-- The fields of a record that a document is: an object that has each of them once, or their list. -/
def pairOf? (first second : String) (f : Document → Option α) (g : Document → Option β) :
    Document → Option (α × β)
  | .object members => do
    let (a, b) ← members.foldlM (onceMore? first second f g) (none, none)
    return (← a, ← b)
  | .array [x, y] => do return (← f x, ← g y)
  | _ => none

/-- The bytecode that a document is. -/
def bytecodeOf? (doc : Document) : Option Bytecode :=
  (pairOf? "object" "sourceMap" textOf? textOf? doc).map fun (object, sourceMap) =>
    ⟨object, sourceMap⟩

/-- The artifact that a document is. -/
def artifactOf? (doc : Document) : Option Artifact :=
  (pairOf? "abi" "bytecode" itemsOf? bytecodeOf? doc).map fun (abi, bytecode) => ⟨abi, bytecode⟩

/-! ## Readers that follow -/

/-- Where `raw` reads a document, the reader gives what `f` makes of it and comes to the same cursor,
and fails if `f` makes nothing of it. -/
def Follows (raw : Reader Document) (f : Document → Option α) (r : Reader α) : Prop :=
  ∀ ⦃c doc c'⦄, raw.Goes c doc c' → ∀ a c'', r.Goes c a c'' ↔ f doc = some a ∧ c'' = c'

theorem Follows.map {raw : Reader Document} {f : Document → Option α} {r : Reader α}
    (h : Follows raw f r) (g : α → β) :
    Follows raw (fun doc => (f doc).map g) (do return g (← r)) := by
  intro c doc c' hraw b c''
  rw [goes_bind]
  constructor
  · rintro ⟨a, mid, ha, hb⟩
    obtain ⟨rfl, rfl⟩ := goes_pure.1 hb
    obtain ⟨hf, rfl⟩ := (h hraw _ _).1 ha
    exact ⟨congrArg (Option.map g) hf, rfl⟩
  · rintro ⟨hb, rfl⟩
    obtain ⟨a, ha, rfl⟩ := Option.map_eq_some_iff.1 hb
    exact ⟨a, c'', (h hraw _ _).2 ⟨ha, rfl⟩, goes_pure.2 ⟨rfl, rfl⟩⟩

/-- A scalar, a string, a list or an object. -/
theorem shape_of_goes {depth : Nat} {c c' : Cursor} {doc : Document}
    (h : (Document.reader (depth + 1)).Goes c doc c') :
    (∃ s, doc = .string s ∧ c.behindSpace.rest.head? = some '"' ∧
      readStringBody.Goes c.behindSpace.behindNext s c') ∨
    (∃ items mid, doc = .array items ∧ 0 < depth ∧ c.behindSpace.rest.head? = some '[' ∧
      (readItems (Document.reader depth) (c.behindSpace.behindNext.rest.length + 1) true []).Goes
        c.behindSpace.behindNext items mid ∧ endList.Goes mid () c') ∨
    (∃ members mid, doc = .object members ∧ 0 < depth ∧ c.behindSpace.rest.head? = some '\x7b' ∧
      (readMembers (addMember (Document.reader depth)) (c.behindSpace.behindNext.rest.length + 1)
        true []).Goes c.behindSpace.behindNext members mid ∧ endObject.Goes mid () c') ∨
    ((∀ s, doc ≠ .string s) ∧ (∀ items, doc ≠ .array items) ∧ (∀ members, doc ≠ .object members) ∧
      ∃ ch, c.behindSpace.rest.head? = some ch ∧ ch ≠ '"' ∧ ch ≠ '[' ∧ ch ≠ '\x7b') := by
  cases Document.spelled h with
  | word hword hhead =>
    simp only [List.mem_cons, Prod.mk.injEq, List.not_mem_nil, or_false] at hword
    obtain ⟨rfl, -, rfl⟩ | ⟨rfl, -, rfl⟩ | ⟨rfl, -, rfl⟩ := hword <;>
      exact .inr (.inr (.inr ⟨nofun, nofun, nofun, _, hhead, by decide⟩))
  | negative hhead => exact .inr (.inr (.inr ⟨nofun, nofun, nofun, _, hhead, by decide⟩))
  | positive hhead hdigit =>
    refine .inr (.inr (.inr ⟨nofun, nofun, nofun, _, hhead, ?_⟩))
    refine ⟨?_, ?_, ?_⟩ <;>
    · rintro rfl
      exact absurd hdigit (by decide)
  | string hhead hs => exact .inl ⟨_, rfl, hhead, hs⟩
  | array hdepth hhead hitems hend =>
    exact .inr (.inl ⟨_, _, rfl, hdepth, hhead, hitems, hend⟩)
  | object hdepth hhead hmembers hend =>
    exact .inr (.inr (.inl ⟨_, _, rfl, hdepth, hhead, hmembers, hend⟩))

theorem follows_readText (depth : Nat) (expected : String) :
    Follows (Document.reader depth) textOf? (readText expected) := by
  intro c doc c' h s c''
  cases depth with
  | zero => exact absurd h not_goes_failNext
  | succ depth =>
    rw [goes_readText]
    obtain ⟨s', rfl, hhead, hs⟩ | ⟨items, mid, rfl, -, hhead, -⟩ | ⟨members, mid, rfl, -, hhead, -⟩ |
      ⟨hstring, -, -, ch, hhead, hquote, -⟩ := shape_of_goes h
    · rw [goes_iff_of hs]
      simp [hhead, textOf?, eq_comm]
    · simp [hhead, textOf?]
    · simp [hhead, textOf?]
    · rw [hhead]
      have hnone : textOf? doc = none := by
        cases doc with
        | string s => exact absurd rfl (hstring s)
        | _ => rfl
      simp [hnone, hquote]

theorem follows_readElements (depth : Nat) (expected : String) :
    Follows (Document.reader (depth + 1)) itemsOf?
      (readElements (depth + 1) expected (readValue depth)) := by
  intro c doc c' h as c''
  rw [goes_readElements]
  obtain ⟨s', rfl, hhead, hs⟩ | ⟨items, mid, rfl, hdepth, hhead, hitems, hend⟩ |
    ⟨members, mid, rfl, -, hhead, -⟩ | ⟨-, harray, -, ch, hhead, -, hbracket, -⟩ := shape_of_goes h
  · simp [hhead, itemsOf?]
  · have hvalues : (readItems (readValue depth) (c.behindSpace.behindNext.rest.length + 1) true
        []).Goes c.behindSpace.behindNext (items.map Document.value) mid := by
      have hmap := readItems_map Document.value (Document.reader depth)
        (c.behindSpace.behindNext.rest.length + 1) true []
      rw [List.map_nil] at hmap
      rw [readValue_eq, hmap]
      unfold Goes
      rw [runFrom_map, hitems]
      rfl
    constructor
    · rintro ⟨-, -, mid', hitems', hend'⟩
      obtain ⟨rfl, rfl⟩ := hvalues.unique hitems'
      exact ⟨rfl, (hend.unique hend').2⟩
    · rintro ⟨heq, rfl⟩
      obtain rfl := Option.some.inj heq
      exact ⟨hhead, by omega, mid, hvalues, hend⟩
  · simp [hhead, itemsOf?]
  · have hnone : itemsOf? doc = none := by
      cases doc with
      | array items => exact absurd rfl (harray items)
      | _ => rfl
    simp [hhead, hnone, hbracket]

/-! ## Records -/

theorem goes_readField {raw : Reader Document} {f : Document → Option α} {r : Reader α}
    (hf : Follows raw f r) {c mid c' : Cursor} {doc : Document} (hcolon : readColon.Goes c () mid)
    (hdoc : raw.Goes mid doc c') (name : String) (before : Option α) (a : Option α) (c'' : Cursor) :
    (readField name before r).Goes c a c'' ↔ onceField? f before doc = some a ∧ c'' = c' := by
  unfold readField onceField?
  split
  · constructor
    · intro h
      obtain ⟨_, _, h, -⟩ := goes_bind.1 h
      exact absurd h not_goes_failBare
    · exact fun h => nomatch h.1
  · rw [goes_bind_of hcolon]
    exact hf.map some hdoc a c''

/-- A member is read as a field of the record, or passed over. -/
theorem goes_stepPair {depth : Nat} (first second : String) {f : Document → Option α}
    {g : Document → Option β} {rf : Reader α} {rg : Reader β}
    (hf : Follows (Document.reader depth) f rf) (hg : Follows (Document.reader depth) g rg)
    {c mid c' : Cursor} {doc : Document} (hcolon : readColon.Goes c () mid)
    (hdoc : (Document.reader depth).Goes mid doc c') (key : String) (state s : Option α × Option β)
    (c'' : Cursor) :
    (stepPair first second rf rg state key).Goes c s c'' ↔
      onceMore? first second f g state (key, doc) = some s ∧ c'' = c' := by
  unfold stepPair onceMore?
  dsimp only
  split
  · rw [goes_bind]
    simp only [goes_readField hf hcolon hdoc, goes_pure, Option.map_eq_some_iff]
    constructor
    · rintro ⟨a, mid', ⟨ha, rfl⟩, rfl, rfl⟩
      exact ⟨⟨a, ha, rfl⟩, rfl⟩
    · rintro ⟨⟨a, ha, rfl⟩, rfl⟩
      exact ⟨a, _, ⟨ha, rfl⟩, rfl, rfl⟩
  · split
    · rw [goes_bind]
      simp only [goes_readField hg hcolon hdoc, goes_pure, Option.map_eq_some_iff]
      constructor
      · rintro ⟨b, mid', ⟨hb, rfl⟩, rfl, rfl⟩
        exact ⟨⟨b, hb, rfl⟩, rfl⟩
      · rintro ⟨⟨b, hb, rfl⟩, rfl⟩
        exact ⟨b, _, ⟨hb, rfl⟩, rfl, rfl⟩
    · rw [goes_bind_of hcolon, goes_bind_of (goes_skipAny hdoc), goes_pure]
      simp [eq_comm]

/-- Members that are folded in step with the members of a document: the fold follows the fold over
the members that are read. -/
theorem goes_readMembers {raw : Reader Document} {step : σ → String → Reader σ}
    {once : σ → String × Document → Option σ}
    (hstep : ∀ {c mid c' doc}, readColon.Goes c () mid → raw.Goes mid doc c' →
      ∀ key state s c'', (step state key).Goes c s c'' ↔ once state (key, doc) = some s ∧ c'' = c')
    {n : Nat} {first : Bool} {before all : List (String × Document)} {c c' : Cursor}
    (h : (readMembers (addMember raw) n first before).Goes c all c') :
    ∃ members, all = before ++ members ∧ ∀ state s c'',
      (readMembers step n first state).Goes c s c'' ↔
        members.foldlM once state = some s ∧ c'' = c' := by
  induction n generalizing first before c with
  | zero => exact absurd h not_goes_failNext
  | succ n ih =>
    unfold readMembers at h ⊢
    obtain ⟨more, c₁, hmore, h⟩ := goes_bind.1 h
    simp only [goes_bind_of hmore]
    cases more with
    | false =>
      obtain ⟨rfl, rfl⟩ := goes_pure.1 h
      refine ⟨[], (List.append_nil _).symm, fun state s c'' => ?_⟩
      simp [eq_comm]
    | true =>
      obtain ⟨key, c₂, hkey, h⟩ := goes_bind.1 h
      obtain ⟨_, c₃, hmember, h⟩ := goes_bind.1 h
      obtain ⟨doc, mid, hcolon, hdoc, rfl⟩ := goes_addMember hmember
      obtain ⟨members, rfl, hfold⟩ := ih h
      refine ⟨(key, doc) :: members, by simp, fun state s c'' => ?_⟩
      simp only [if_true, goes_bind_of hkey, goes_bind, hstep hcolon hdoc, List.foldlM_cons,
        Option.bind_eq_bind, Option.bind_eq_some_iff]
      constructor
      · rintro ⟨state', _, ⟨hstate, rfl⟩, hs⟩
        obtain ⟨hs, rfl⟩ := (hfold state' s c'').1 hs
        exact ⟨⟨state', hstate, hs⟩, rfl⟩
      · rintro ⟨⟨state', hstate, hs⟩, rfl⟩
        exact ⟨state', _, ⟨hstate, rfl⟩, (hfold state' s c'').2 ⟨hs, rfl⟩⟩

theorem goes_pair {ra : Reader α} {rb : Reader β} {c c' : Cursor} {p : α × β} :
    (do
      let a ← ra
      let b ← rb
      return (a, b) : Reader (α × β)).Goes c p c' ↔
      ∃ mid, ra.Goes c p.1 mid ∧ rb.Goes mid p.2 c' := by
  rw [goes_bind]
  constructor
  · rintro ⟨a, mid, ha, h⟩
    obtain ⟨b, mid', hb, h⟩ := goes_bind.1 h
    obtain ⟨rfl, rfl⟩ := goes_pure.1 h
    exact ⟨mid, ha, hb⟩
  · rintro ⟨mid, ha, hb⟩
    exact ⟨p.1, mid, ha, goes_bind.2 ⟨p.2, c', hb, goes_pure.2 ⟨rfl, rfl⟩⟩⟩

/-- No item follows, or one is read and then the others. -/
theorem items_of_goes {item : Reader α} {n : Nat} {first : Bool} {before items : List α}
    {c c' : Cursor} (h : (readItems item n first before).Goes c items c') :
    (items = before.reverse ∧ (hasItem first).Goes c false c') ∨
    (∃ a c₁ c₂ m, (hasItem first).Goes c true c₁ ∧ item.Goes c₁ a c₂ ∧
      (readItems item m false (a :: before)).Goes c₂ items c') := by
  cases n with
  | zero => exact absurd h not_goes_failNext
  | succ n =>
    unfold readItems at h
    obtain ⟨more, c₁, hmore, h⟩ := goes_bind.1 h
    cases more with
    | false =>
      obtain ⟨rfl, rfl⟩ := goes_pure.1 h
      exact .inl ⟨rfl, hmore⟩
    | true =>
      obtain ⟨a, c₂, ha, h⟩ := goes_bind.1 h
      exact .inr ⟨a, c₁, c₂, n, hmore, ha, h⟩

/-- Items are added to the ones that were there. -/
theorem exists_of_goes_readItems {item : Reader α} {n : Nat} {first : Bool} {before items : List α}
    {c c' : Cursor} (h : (readItems item n first before).Goes c items c') :
    ∃ more, items = before.reverse ++ more := by
  induction n generalizing first before c with
  | zero => exact absurd h not_goes_failNext
  | succ n ih =>
    unfold readItems at h
    obtain ⟨more, c₁, -, h⟩ := goes_bind.1 h
    cases more with
    | false => exact ⟨[], by rw [(goes_pure.1 h).1, List.append_nil]⟩
    | true =>
      obtain ⟨a, c₂, -, h⟩ := goes_bind.1 h
      obtain ⟨items', rfl⟩ := ih h
      exact ⟨a :: items', by simp⟩

/-- The two fields of a list, when all its items are read. -/
theorem goes_items {raw : Reader Document} {f : Document → Option α} {g : Document → Option β}
    {rf : Reader α} {rg : Reader β} (hf : Follows raw f rf) (hg : Follows raw g rg) (shape : String)
    {n : Nat} {first second : String} {items : List Document} {c mid c' : Cursor}
    (h : (readItems raw n true []).Goes c items mid) (hend : endList.Goes mid () c') (p : α × β)
    (c'' : Cursor) :
    (∃ mid, (∃ mid', (readElement 0 shape rf).Goes c p.1 mid' ∧
        (readElement 1 shape rg).Goes mid' p.2 mid) ∧ endList.Goes mid () c'') ↔
      pairOf? first second f g (.array items) = some p ∧ c'' = c' := by
  obtain ⟨rfl, hmore⟩ | ⟨x, c₁, c₂, n, hmore, hx, h⟩ := items_of_goes h
  · have hfirst : ∀ a m, ¬ (readElement 0 shape rf).Goes c a m := fun a m ha =>
      Bool.false_ne_true ((goes_readElement 0 hmore).1 ha).1
    simp [hfirst, pairOf?]
  have hfirst : ∀ a m, (readElement 0 shape rf).Goes c a m ↔ f x = some a ∧ m = c₂ := fun a m => by
    rw [goes_readElement 0 hmore, hf hx a m, and_iff_right rfl]
  obtain ⟨rfl, hmore⟩ | ⟨y, c₃, c₄, n, hmore, hy, h⟩ := items_of_goes h
  · have hsecond : ∀ b m, ¬ (readElement 1 shape rg).Goes c₂ b m := fun b m hb =>
      Bool.false_ne_true ((goes_readElement 1 hmore).1 hb).1
    simp [hfirst, hsecond, pairOf?]
  have hsecond : ∀ b m, (readElement 1 shape rg).Goes c₂ b m ↔ g y = some b ∧ m = c₄ := fun b m => by
    rw [goes_readElement 1 hmore, hg hy b m, and_iff_right rfl]
  obtain ⟨rfl, hmore⟩ | ⟨z, c₅, c₆, n, hmore, hz, h⟩ := items_of_goes h
  · have hclose : ∀ m, endList.Goes c₄ () m ↔ m = c' := fun m => by
      rw [endList_of_hasItem hmore, goes_iff_of hend, and_iff_right rfl, and_iff_right rfl]
    obtain ⟨a, b⟩ := p
    constructor
    · rintro ⟨_, ⟨_, ha, hb⟩, hm⟩
      obtain ⟨ha, rfl⟩ := (hfirst _ _).1 ha
      obtain ⟨hb, rfl⟩ := (hsecond _ _).1 hb
      exact ⟨by simp [pairOf?, ha, hb], (hclose _).1 hm⟩
    · rintro ⟨hp, rfl⟩
      obtain ⟨ha, hb⟩ : f x = some a ∧ g y = some b := by
        simpa [pairOf?, Option.bind_eq_some_iff] using hp
      exact ⟨c₄, ⟨c₂, (hfirst _ _).2 ⟨ha, rfl⟩, (hsecond _ _).2 ⟨hb, rfl⟩⟩, (hclose _).2 rfl⟩
  · -- a third item, where the end must be
    have hopen : ∀ m, ¬ endList.Goes c₄ () m := fun m hm =>
      Bool.false_ne_true ((endList_of_hasItem hmore).1 hm).1.symm
    obtain ⟨more, rfl⟩ := exists_of_goes_readItems h
    constructor
    · rintro ⟨_, ⟨_, ha, hb⟩, hm⟩
      obtain ⟨-, rfl⟩ := (hfirst _ _).1 ha
      obtain ⟨-, rfl⟩ := (hsecond _ _).1 hb
      exact absurd hm (hopen _)
    · exact fun hp => nomatch hp.1

theorem pairOf?_object {first second : String} {f : Document → Option α} {g : Document → Option β}
    {members : List (String × Document)} {p : α × β} :
    pairOf? first second f g (.object members) = some p ↔
      members.foldlM (onceMore? first second f g) (none, none) = some (some p.1, some p.2) := by
  rw [pairOf?]
  generalize members.foldlM (onceMore? first second f g) (none, none) = folded
  cases folded with
  | none => simp
  | some state =>
    obtain ⟨a, b⟩ := state
    cases a <;> cases b <;> simp [Prod.ext_iff]

/-- A record follows the document if its fields do. -/
theorem follows_readPair {depth : Nat} {name first second : String} {f : Document → Option α}
    {g : Document → Option β} {rf : Reader α} {rg : Reader β}
    (hf : Follows (Document.reader depth) f rf) (hg : Follows (Document.reader depth) g rg) :
    Follows (Document.reader (depth + 1)) (pairOf? first second f g)
      (readPair (depth + 1) name first second rf rg) := by
  intro c doc c' h p c''
  unfold readPair
  rw [goes_readRecord]
  obtain ⟨s', rfl, hhead, hs⟩ | ⟨items, mid, rfl, hdepth, hhead, hitems, hend⟩ |
    ⟨members, mid, rfl, hdepth, hhead, hmembers, hend⟩ |
    ⟨-, harray, hobject, ch, hhead, -, hbracket, hbrace⟩ := shape_of_goes h
  · simp [hhead, pairOf?]
  · -- a list
    rw [← goes_items hf hg (name ++ " with 2 elements") hitems hend p c'']
    simp only [goes_pair]
    constructor
    · rintro (⟨-, -, h⟩ | ⟨heq, -⟩)
      · exact h
      · rw [hhead] at heq
        cases heq
    · exact fun h => .inl ⟨hhead, by omega, h⟩
  · -- an object
    obtain ⟨_, rfl, hfold⟩ := goes_readMembers (goes_stepPair first second hf hg) hmembers
    rw [pairOf?_object]
    constructor
    · rintro (⟨heq, -⟩ | ⟨-, -, last, hbody, hclose⟩)
      · rw [hhead] at heq
        cases heq
      · obtain ⟨state, _, hfields, hrequired⟩ := goes_bind.1 hbody
        obtain ⟨hstate, rfl⟩ := (hfold _ _ _).1 (goes_fuelHere_bind.1 hfields)
        obtain ⟨_, hfirst, hsecond⟩ := goes_pair.1 hrequired
        obtain ⟨ha, rfl⟩ := goes_required.1 hfirst
        obtain ⟨hb, rfl⟩ := goes_required.1 hsecond
        exact ⟨by rw [hstate, ← ha, ← hb], (hend.unique hclose).2⟩
    · rintro ⟨hstate, rfl⟩
      refine .inr ⟨hhead, by omega, mid, goes_bind.2 ⟨(some p.1, some p.2), mid, ?_, ?_⟩, hend⟩
      · exact goes_fuelHere_bind.2 ((hfold _ _ _).2 ⟨hstate, rfl⟩)
      · exact goes_pair.2 ⟨mid, goes_required.2 ⟨rfl, rfl⟩, goes_required.2 ⟨rfl, rfl⟩⟩
  · have hnone : pairOf? first second f g doc = none := by
      cases doc with
      | array items => exact absurd rfl (harray items)
      | object members => exact absurd rfl (hobject members)
      | _ => rfl
    simp [hhead, hnone, hbracket, hbrace]

/-- The reader of bytecode follows the document. -/
theorem follows_bytecodeReader (depth : Nat) :
    Follows (Document.reader (depth + 1)) bytecodeOf? (bytecodeReader (depth + 1)) :=
  (follows_readPair (follows_readText depth _) (follows_readText depth _)).map
    fun fields => (⟨fields.1, fields.2⟩ : Bytecode)

/-- The reader of artifacts follows the document. -/
theorem follows_reader (depth : Nat) :
    Follows (Document.reader (depth + 3)) artifactOf? (reader (depth + 3)) :=
  (follows_readPair (follows_readElements (depth + 1) _) (follows_bytecodeReader (depth + 1))).map
    fun fields => (⟨fields.1, fields.2⟩ : Artifact)

/-- A text that has a document is read as the artifact that the document is, and not at all if it is
none. -/
theorem readDirect_eq_ok_iff {text : String} {doc : Document} (h : Document.read text = .ok doc)
    (a : Artifact) : readDirect text = .ok a ↔ artifactOf? doc = some a := by
  obtain ⟨mid, c', hdoc, hend⟩ := readDocument_eq_ok_iff.1 h
  have hfollows := follows_reader 125 hdoc
  unfold readDirect
  rw [readDocument_eq_ok_iff]
  constructor
  · rintro ⟨mid', -, ha, -⟩
    exact ((hfollows _ _).1 ha).1
  · exact fun ha => ⟨mid, c', (hfollows _ _).2 ⟨ha, rfl⟩, hend⟩

end EmbeddedSolidity.Artifact
