import EmbeddedSolidity.Options.Basic
import EmbeddedSolidity.Proofs.Json.Grammar

/-!
# The texts of options

Options are read from the texts of a grammar and from no others : an object with a member for each
option that is chosen, in any order and none twice, or the list of all four values. What is written
is one of these texts, so that it reads back.

* `Options.Spelled` : the grammar;
* `Options.folds_step`, `Options.accepts_reader` : the reader accepts it;
* `Options.spelled_write` : what is written belongs to it;
* `Options.read_iff_spelled` : the texts that are read, and what they give.
-/

namespace EmbeddedSolidity.Json

open Reader

/-! ## Printed objects -/

section Printed

variable {ι : Type} {layout : Layout} {P : ι → List Char → Prop} {value : ι → Value} {n : Nat}

theorem memberSpelled_chars (key : ι → String) (hl : layout.Spaced) {i : ι}
    (h : P i ((value i).chars layout (n + 1))) :
    MemberSpelled key P i
      (stringChars (key i) ++ (layout.colon ++ (value i).chars layout (n + 1))) := by
  obtain ⟨gap, hgap, hcolon⟩ := hl.colon
  rw [hcolon]
  exact ⟨_, _, stringSpelled_stringChars (key i), ⟨[], gap, _, gap_nil, hgap, h, rfl⟩, rfl⟩

theorem following_membersChars (key : ι → String) (hl : layout.Spaced) {gap : List Char}
    (hgap : Gap gap) :
    ∀ {is : List ι}, (∀ i ∈ is, P i ((value i).chars layout (n + 1))) →
      Following (MemberSpelled key P) is
        (membersChars layout n (is.map fun i => (key i, value i)) ++ gap)
  | [], _ => .nil hgap
  | i :: is, h => by
    obtain ⟨between, hbetween, heq⟩ := hl.between n
    have hmember := memberSpelled_chars key hl (h i List.mem_cons_self)
    have ih := following_membersChars key hl hgap fun j hj => h j (List.mem_cons_of_mem i hj)
    have hcons := Following.cons gap_nil hbetween hmember ih
    simpa only [List.map_cons, membersChars, heq, List.nil_append, List.append_assoc,
      List.cons_append] using hcons

/-- A printed object is an object of the grammar. -/
theorem objectSpelled_chars (key : ι → String) (hl : layout.Spaced) {is : List ι}
    (h : ∀ i ∈ is, P i ((value i).chars layout (n + 1))) :
    ObjectSpelled key P is
      ((Value.object (is.map fun i => (key i, value i))).chars layout n) := by
  rw [chars_object]
  cases is with
  | nil => exact ⟨[], .nil gap_nil, rfl⟩
  | cons i is =>
    have hmember := memberSpelled_chars key hl (h i List.mem_cons_self)
    have hothers := following_membersChars key hl (hl.closing n)
      fun j hj => h j (List.mem_cons_of_mem i hj)
    exact ⟨_, .cons (hl.opening n) hmember hothers, by simp [objectBody]⟩

end Printed

end EmbeddedSolidity.Json

namespace EmbeddedSolidity.Options

open Json Reader

/-! ## The grammar -/

/-- One of the options with its value; `none` leaves it open. -/
inductive Choice where
  | solc (version : Option String)
  | executable (name : Option String)
  | workspace (root : Option String)
  | timeout (seconds : Option Nat)

namespace Choice

/-- The key of the option. -/
def key : Choice → String
  | solc _ => "solc"
  | executable _ => "forgeExecutable"
  | workspace _ => "workspaceDir"
  | timeout _ => "buildTimeoutSecs"

/-- A string or `null`; of the time a natural number or `null`. -/
def Spelled : Choice → List Char → Prop
  | solc s | executable s | workspace s => OrNull StringSpelled s
  | timeout n => OrNull UnsignedSpelled n

end Choice

/-- The options with one of them chosen. -/
def choose (o : Options) : Choice → Options
  | .solc v => { o with solc := v }
  | .executable v => { o with executable := v }
  | .workspace v => { o with workspace := v }
  | .timeout v => { o with timeout := v }

/-- All choices, in the order of the fields. -/
def choices (o : Options) : List Choice :=
  [.solc o.solc, .executable o.executable, .workspace o.workspace, .timeout o.timeout]

/-- The texts of options : an object without a key twice, whose members choose them, or the list of
all four values. -/
inductive Spelled (o : Options) (cs : List Char) : Prop where
  | object {chosen : List Choice} :
      (chosen.map Choice.key).Nodup → chosen.foldl choose {} = o →
      ObjectSpelled Choice.key Choice.Spelled chosen cs → Spelled o cs
  | array : ArraySpelled Choice.Spelled o.choices cs → Spelled o cs

/-! ## Fields -/

namespace Fields

/-- The option was met. -/
def has (f : Fields) : Choice → Bool
  | .solc _ => f.solc.isSome
  | .executable _ => f.executable.isSome
  | .workspace _ => f.workspace.isSome
  | .timeout _ => f.timeout.isSome

/-- The fields with one more option. -/
def put (f : Fields) : Choice → Fields
  | .solc v => { f with solc := some v }
  | .executable v => { f with executable := some v }
  | .workspace v => { f with workspace := some v }
  | .timeout v => { f with timeout := some v }

/-- The fields with one more option, unless it was met. -/
def take (f : Fields) (i : Choice) : Option Fields :=
  if f.has i then none else some (f.put i)

theorem take_eq_some_iff {f f' : Fields} {i : Choice} :
    f.take i = some f' ↔ f.has i = false ∧ f' = f.put i := by
  unfold take
  cases f.has i <;> simp [eq_comm]

theorem has_put (f : Fields) (i j : Choice) :
    (f.put i).has j = (decide (i.key = j.key) || f.has j) := by
  cases i <;> cases j <;> rfl

theorem options_foldl_put (chosen : List Choice) (f : Fields) :
    (chosen.foldl put f).options = chosen.foldl choose f.options := by
  induction chosen generalizing f with
  | nil => rfl
  | cons i chosen ih =>
    have hput : (f.put i).options = f.options.choose i := by cases i <;> rfl
    rw [List.foldl_cons, List.foldl_cons, ih, hput]

/-- Options are taken one after the other if none of them is met twice. -/
theorem foldlM_take_eq_some_iff {chosen : List Choice} {f g : Fields} :
    chosen.foldlM take f = some g ↔
      (chosen.map Choice.key).Nodup ∧ (∀ i ∈ chosen, f.has i = false) ∧ chosen.foldl put f = g := by
  induction chosen generalizing f with
  | nil => simp
  | cons i chosen ih =>
    have htake : (i :: chosen).foldlM take f = some g ↔
        f.has i = false ∧ chosen.foldlM take (f.put i) = some g := by
      simp [Option.bind_eq_some_iff, take_eq_some_iff, and_assoc]
    rw [htake, ih]
    simp only [has_put, Bool.or_eq_false_iff, decide_eq_false_iff_not, List.map_cons,
      List.nodup_cons, List.mem_map, List.forall_mem_cons, List.foldl_cons, not_exists, not_and]
    constructor
    · rintro ⟨hi, hnodup, hall, hg⟩
      exact ⟨⟨fun j hj heq => (hall j hj).1 heq.symm, hnodup⟩, ⟨hi, fun j hj => (hall j hj).2⟩, hg⟩
    · rintro ⟨⟨hnew, hnodup⟩, ⟨hi, hall⟩, hg⟩
      exact ⟨hi, hnodup, fun j hj => ⟨fun heq => hnew j hj heq.symm, hall j hj⟩, hg⟩

end Fields

/-! ## The reader -/

theorem accepts_optionalText (expected : String) :
    (readOptional (readText expected)).Accepts (OrNull StringSpelled) :=
  accepts_readOptional (accepts_readText expected) (begins_stringSpelled (by decide))

theorem accepts_optionalUnsigned (expected : String) :
    (readOptional (readUnsigned expected)).Accepts (OrNull UnsignedSpelled) :=
  accepts_readOptional (accepts_readUnsigned expected) (begins_unsignedSpelled (by decide))

theorem begins_optionalText : Begins [']'] (OrNull StringSpelled) :=
  begins_orNull (by decide) (begins_stringSpelled (by decide))

theorem begins_optionalUnsigned : Begins [']'] (OrNull UnsignedSpelled) :=
  begins_orNull (by decide) (begins_unsignedSpelled (by decide))

/-- Each member is read as one of the options. -/
theorem folds_step : Folds Fields.step Choice.key Choice.Spelled Fields.take where
  sound {f f' name c c'} h := by
    unfold Fields.step at h
    simp only [Fields.take_eq_some_iff]
    split at h
    · obtain ⟨hnone, v, cs, rfl, hcs, hrest⟩ := goes_readField_map (accepts_optionalText _) h
      exact ⟨.solc v, cs, rfl, ⟨by simp [Fields.has, hnone], rfl⟩, hcs, hrest⟩
    · obtain ⟨hnone, v, cs, rfl, hcs, hrest⟩ := goes_readField_map (accepts_optionalText _) h
      exact ⟨.executable v, cs, rfl, ⟨by simp [Fields.has, hnone], rfl⟩, hcs, hrest⟩
    · obtain ⟨hnone, v, cs, rfl, hcs, hrest⟩ := goes_readField_map (accepts_optionalText _) h
      exact ⟨.workspace v, cs, rfl, ⟨by simp [Fields.has, hnone], rfl⟩, hcs, hrest⟩
    · obtain ⟨hnone, v, cs, rfl, hcs, hrest⟩ := goes_readField_map (accepts_optionalUnsigned _) h
      exact ⟨.timeout v, cs, rfl, ⟨by simp [Fields.has, hnone], rfl⟩, hcs, hrest⟩
    · exact absurd h not_goes_failBare
  complete {f f' i cs rest} htake hcs hrest := by
    obtain ⟨hnew, rfl⟩ := Fields.take_eq_some_iff.1 htake
    cases i with
    | solc v =>
      exact yields_readField_map (accepts_optionalText _) _ (by simpa [Fields.has] using hnew)
        (fun a => { f with solc := a }) hcs hrest
    | executable v =>
      exact yields_readField_map (accepts_optionalText _) _ (by simpa [Fields.has] using hnew)
        (fun a => { f with executable := a }) hcs hrest
    | workspace v =>
      exact yields_readField_map (accepts_optionalText _) _ (by simpa [Fields.has] using hnew)
        (fun a => { f with workspace := a }) hcs hrest
    | timeout v =>
      exact yields_readField_map (accepts_optionalUnsigned _) _ (by simpa [Fields.has] using hnew)
        (fun a => { f with timeout := a }) hcs hrest

/-- The list of all four values, behind its bracket. -/
theorem listed_of_goes_readItems {c mid c' : Cursor} {o : Options} (h : readItems.Goes c o mid)
    (hend : endList.Goes mid () c') :
    ∃ body, Listed Choice.Spelled o.choices body ∧ c.rest = body ++ ']' :: c'.rest := by
  unfold readItems at h
  dsimp only at h
  obtain ⟨solc, c₁, h₁, h⟩ := goes_bind.1 h
  obtain ⟨executable, c₂, h₂, h⟩ := goes_bind.1 h
  obtain ⟨workspace, c₃, h₃, h⟩ := goes_bind.1 h
  obtain ⟨timeout, c₄, h₄, h⟩ := goes_bind.1 h
  obtain ⟨rfl, rfl⟩ := goes_pure.1 h
  obtain ⟨g₁, t₁, hg₁, ht₁, hr₁⟩ := first_of_goes (accepts_optionalText _) h₁
  obtain ⟨b₂, g₂, t₂, hb₂, hg₂, ht₂, hr₂⟩ := following_of_goes (accepts_optionalText _) h₂
  obtain ⟨b₃, g₃, t₃, hb₃, hg₃, ht₃, hr₃⟩ := following_of_goes (accepts_optionalText _) h₃
  obtain ⟨b₄, g₄, t₄, hb₄, hg₄, ht₄, hr₄⟩ := following_of_goes (accepts_optionalUnsigned _) h₄
  obtain ⟨gap, hgap, hr⟩ := end_of_goes hend
  have hlisted : Listed Choice.Spelled (choices ⟨solc, executable, workspace, timeout⟩) _ :=
    .cons hg₁ ht₁ (.cons hb₂ hg₂ ht₂ (.cons hb₃ hg₃ ht₃ (.cons hb₄ hg₄ ht₄ (.nil hgap))))
  refine ⟨_, hlisted, ?_⟩
  rw [hr₁, hr₂, hr₃, hr₄, hr]
  simp

theorem yields_readItems_listed {o : Options} {body : List Char} (rest : List Char)
    (h : Listed Choice.Spelled o.choices body) :
    (within readItems endList).Yields (body ++ ']' :: rest) o rest := by
  obtain _ | ⟨hg₁, ht₁, h₂⟩ := h
  obtain _ | ⟨hb₂, hg₂, ht₂, h₃⟩ := id h₂
  obtain _ | ⟨hb₃, hg₃, ht₃, h₄⟩ := id h₃
  obtain _ | ⟨hb₄, hg₄, ht₄, h₅⟩ := id h₄
  obtain ⟨hgap⟩ | _ := id h₅
  have hlist : endList.Yields (_ ++ ']' :: rest) () rest :=
    (yields_peekToken rest hgap (by decide)).bind (yields_advance _ _)
  refine yields_within ?_ hlist
  have ends : ∀ {is : List Choice} {cs : List Char}, Following Choice.Spelled is cs →
      EndsNumber (cs ++ ']' :: rest) := fun h => h.endsNumber rest (by decide)
  have e₂ := ends h₂
  have e₃ := ends h₃
  have e₄ := ends h₄
  have e₅ := ends h₅
  simp only [List.append_assoc, List.cons_append] at e₂ e₃ e₄ e₅ ⊢
  unfold readItems
  refine (yields_readElement_first (accepts_optionalText _) begins_optionalText hg₁ ht₁ e₂).bind ?_
  refine (yields_readElement_next (accepts_optionalText _) begins_optionalText 0 hb₂ hg₂ ht₂
    e₃).bind ?_
  refine (yields_readElement_next (accepts_optionalText _) begins_optionalText 1 hb₃ hg₃ ht₃
    e₄).bind ?_
  refine (yields_readElement_next (accepts_optionalUnsigned _) begins_optionalUnsigned 2 hb₄ hg₄ ht₄
    e₅).bind ?_
  exact yields_pure _ _

/-- The reader accepts the texts of options. -/
theorem accepts_reader : reader.Accepts Spelled where
  sound {c c' o} h := by
    obtain ⟨hbracket, -, mid, hitems, hend⟩ | ⟨hbrace, -, mid, hmembers, hend⟩ := goes_readRecord.1 h
    · obtain ⟨gap, hgap, hrest⟩ := Cursor.exists_gap_cons hbracket
      obtain ⟨body, hbody, hspelled⟩ := listed_of_goes_readItems hitems hend
      exact ⟨gap, _, hgap, .array ⟨body, hbody, rfl⟩, by rw [hrest, hspelled]; simp⟩
    · obtain ⟨gap, hgap, hrest⟩ := Cursor.exists_gap_cons hbrace
      obtain ⟨f, mid', hfields, h⟩ := goes_bind.1 hmembers
      obtain ⟨rfl, rfl⟩ := goes_pure.1 h
      obtain ⟨hclosed, chosen, body, hfold, hbody, hspelled⟩ := listed_of_goes_readFields folds_step
        hfields
      obtain ⟨hhead, rfl⟩ := goes_endObject hend
      obtain ⟨hnodup, -, rfl⟩ := Fields.foldlM_take_eq_some_iff.1 hfold
      refine ⟨gap, _, hgap, .object hnodup (Fields.options_foldl_put chosen {}).symm
        ⟨body, hbody, rfl⟩, ?_⟩
      rw [hclosed] at hhead ⊢
      rw [hrest, hspelled, Cursor.rest_of_head? hhead]
      simp
  complete {gap cs rest o} hgap hcs _ := by
    unfold reader readRecord
    cases hcs with
    | array harray =>
      obtain ⟨body, hbody, rfl⟩ := harray
      rw [List.cons_append, List.append_assoc]
      refine (yields_peekToken _ hgap (by decide)).bind ((yields_enter (by decide) '[' _).bind ?_)
      exact yields_readItems_listed rest hbody
    | @object chosen hnodup hchosen hobject =>
      obtain ⟨body, hbody, rfl⟩ := hobject
      have hfold : chosen.foldlM Fields.take {} = some (chosen.foldl Fields.put {}) :=
        Fields.foldlM_take_eq_some_iff.2 ⟨hnodup, fun i _ => by cases i <;> rfl, rfl⟩
      have hoptions : (chosen.foldl Fields.put {}).options = o :=
        (Fields.options_foldl_put chosen {}).trans hchosen
      rw [List.cons_append, List.append_assoc]
      refine (yields_peekToken _ hgap (by decide)).bind ((yields_enter (by decide) '\x7b' _).bind ?_)
      refine yields_within ?_ (yields_endObject rest)
      rw [← hoptions]
      exact (yields_readFields_listed folds_step hbody rest hfold).bind (yields_pure _ _)

/-! ## What is written -/

/-- The value of an option in JSON. -/
def Choice.value : Choice → Value
  | .solc s | .executable s | .workspace s => optionalText s
  | .timeout (some n) => .number (.integer n)
  | .timeout none => .null

theorem write_eq (o : Options) :
    o.write = (Value.object (o.choices.map fun i => (i.key, i.value))).compact := by
  obtain ⟨solc, executable, workspace, _ | seconds⟩ := o <;> rfl

theorem spelled_optionalText (s : Option String) (layout : Layout) (n : Nat) :
    OrNull StringSpelled s ((optionalText s).chars layout n) := by
  cases s with
  | none => rfl
  | some s => exact stringSpelled_stringChars s

theorem Choice.spelled_value {layout : Layout} {n : Nat} :
    ∀ {i : Choice}, (∀ seconds, i = .timeout (some seconds) → seconds < 2 ^ 64) →
      i.Spelled (i.value.chars layout n)
  | .solc s, _ | .executable s, _ | .workspace s, _ => spelled_optionalText s layout n
  | .timeout none, _ => rfl
  | .timeout (some seconds), h =>
    ⟨h seconds rfl, (toList_text_ofNat seconds).trans (by simp)⟩

/-- What is written is a text of the options. -/
theorem spelled_write {o : Options} (h : ∀ seconds ∈ o.timeout, seconds < 2 ^ 64) :
    Spelled o o.write.toList := by
  have hkeys : (o.choices.map Choice.key).Nodup := by simp [choices, Choice.key]
  refine .object hkeys rfl ?_
  rw [write_eq, Value.compact, String.toList_ofList]
  refine objectSpelled_chars Choice.key spaced_compact fun i hi => Choice.spelled_value ?_
  rintro seconds rfl
  exact h seconds (by simpa [choices, eq_comm] using hi)

/-- Options are read from their texts and from no others, any other text is refused as a fault of
the options, and what is written reads back. -/
theorem read_iff_spelled :
    (∀ (text : String) (o : Options), read text = .ok o ↔ DocumentSpelled Spelled o text.toList) ∧
    (∀ text : String, (∃ message, read text = .error (.options message)) ↔
      ∀ o, ¬ DocumentSpelled Spelled o text.toList) ∧
    ∀ o : Options, (∀ seconds ∈ o.timeout, seconds < 2 ^ 64) → read o.write = .ok o := by
  have hread : ∀ (text : String) (o : Options),
      read text = .ok o ↔ DocumentSpelled Spelled o text.toList := by
    intro text o
    rw [← readDocument_eq_ok_iff_spelled accepts_reader]
    unfold read
    cases readDocument reader text <;> simp
  refine ⟨hread, fun text => ?_, fun o h => ?_⟩
  · simp only [← hread]
    unfold read
    cases readDocument reader text <;> simp
  · exact (hread _ o).2 ⟨[], _, [], gap_nil, gap_nil, spelled_write h, by simp⟩

/-- A quote, a line break and the largest time are read back. -/
theorem read_write_extremes :
    (∀ seconds ∈ (⟨some "0.8.17", none, some "a\"\nb", some (2 ^ 64 - 1)⟩ : Options).timeout,
      seconds < 2 ^ 64) ∧
    read (write ⟨some "0.8.17", none, some "a\"\nb", some (2 ^ 64 - 1)⟩) =
      .ok ⟨some "0.8.17", none, some "a\"\nb", some (2 ^ 64 - 1)⟩ :=
  have hfits : ∀ seconds ∈ (⟨some "0.8.17", none, some "a\"\nb", some (2 ^ 64 - 1)⟩ : Options).timeout,
      seconds < 2 ^ 64 := by simp
  ⟨hfits, read_iff_spelled.2.2 _ hfits⟩

end EmbeddedSolidity.Options
