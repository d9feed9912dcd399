import EmbeddedSolidity.Proofs.Artifact.Repeats

/-!
# The shape of an artifact

The values that are artifacts, said without the reader : a record is an object that has both of its
fields, or the list of the two. A text is read as an artifact if and only if it is one document whose
value has this shape, and the artifact is made of what stands in the fields. The two ways in which a
text can fail are told apart by the words of the error.

* `Value.HasFields` : a record with two fields;
* `Value.IsArtifact` : the values that are artifacts;
* `Artifact.parse_by_shape` : what a text is read as.
-/

namespace EmbeddedSolidity

open Json

namespace Json.Value

/-- The value is a record with these fields : an object that has both, among any others, or the list of
the two. -/
inductive HasFields (first second : String) (x y : Value) : Value → Prop where
  | object {members : List (String × Value)} :
    member? first members = some x → member? second members = some y →
    HasFields first second x y (.object members)
  | array : HasFields first second x y (.array [x, y])

/-- The value is the bytecode : its fields are texts. -/
def IsBytecode (v : Value) (b : Bytecode) : Prop :=
  HasFields "object" "sourceMap" (.string b.object) (.string b.sourceMap) v

/-- The value is the artifact : its fields are the list of entries and a bytecode. -/
def IsArtifact (v : Value) (a : Artifact) : Prop :=
  ∃ w, HasFields "abi" "bytecode" (.array a.abi) w v ∧ w.IsBytecode a.bytecode

end Json.Value

namespace Artifact

variable {α β : Type}

/-! ## Fields -/

theorem textOfValue_eq_ok_iff {v : Value} {s : String} : textOfValue v = .ok s ↔ v = .string s := by
  cases v with
  | string s' => simp [textOfValue]
  | _ => simp [textOfValue, wrongShape]

theorem itemsOfValue_eq_ok_iff {v : Value} {items : List Value} :
    itemsOfValue v = .ok items ↔ v = .array items := by
  cases v with
  | array items' => simp [itemsOfValue]
  | _ => simp [itemsOfValue, wrongShape]

theorem pairOfMembers_eq_ok_iff {first second : String} {f : Value → Except Json.Error α}
    {g : Value → Except Json.Error β} {members : List (String × Value)} {p : α × β} :
    pairOfMembers first second f g members = .ok p ↔
      (∃ v, member? first members = some v ∧ f v = .ok p.1) ∧
        ∃ w, member? second members = some w ∧ g w = .ok p.2 := by
  refine ⟨pairOfMembers_eq_ok, ?_⟩
  rintro ⟨⟨v, hv, ha⟩, w, hw, hb⟩
  unfold pairOfMembers
  rw [hv, hw, Option.mapM_some, Option.mapM_some, ha, hb]
  rfl

theorem pairOfItems_eq_ok_iff {shape : String} {f : Value → Except Json.Error α}
    {g : Value → Except Json.Error β} {items : List Value} {p : α × β} :
    pairOfItems shape f g items = .ok p ↔
      ∃ v w, items = [v, w] ∧ f v = .ok p.1 ∧ g w = .ok p.2 := by
  refine ⟨pairOfItems_eq_ok, ?_⟩
  rintro ⟨v, w, rfl, ha, hb⟩
  unfold pairOfItems
  dsimp only
  rw [ha, hb]
  rfl

/-- A record with two fields is read if its fields are. -/
theorem pairOfValue_eq_ok_iff {name first second : String} {f : Value → Except Json.Error α}
    {g : Value → Except Json.Error β} {v : Value} {p : α × β} :
    pairOfValue name first second f g v = .ok p ↔
      ∃ x y, Value.HasFields first second x y v ∧ f x = .ok p.1 ∧ g y = .ok p.2 := by
  cases v with
  | object members =>
    refine pairOfMembers_eq_ok_iff.trans ⟨?_, ?_⟩
    · rintro ⟨⟨x, hx, ha⟩, y, hy, hb⟩
      exact ⟨x, y, .object hx hy, ha, hb⟩
    · rintro ⟨x, y, ⟨hx, hy⟩ | -, ha, hb⟩
      exact ⟨⟨x, hx, ha⟩, y, hy, hb⟩
  | array items =>
    refine pairOfItems_eq_ok_iff.trans ⟨?_, ?_⟩
    · rintro ⟨x, y, rfl, ha, hb⟩
      exact ⟨x, y, .array, ha, hb⟩
    · rintro ⟨x, y, hfields, ha, hb⟩
      cases hfields
      exact ⟨x, y, rfl, ha, hb⟩
  | _ => exact ⟨nofun, fun ⟨_, _, hfields, _⟩ => nomatch hfields⟩

theorem map_eq_ok_iff {ε : Type} {x : Except ε α} {f : α → β} {b : β} :
    x.map f = .ok b ↔ ∃ a, x = .ok a ∧ f a = b := by
  cases x with
  | error e => exact ⟨nofun, fun ⟨_, h, _⟩ => nomatch h⟩
  | ok a => simp [Except.map]

/-! ## Values -/

theorem bytecodeOfValue_eq_ok_iff {v : Value} {b : Bytecode} :
    bytecodeOfValue v = .ok b ↔ v.IsBytecode b := by
  rw [bytecodeOfValue_eq, map_eq_ok_iff]
  simp only [pairOfValue_eq_ok_iff, textOfValue_eq_ok_iff]
  constructor
  · rintro ⟨fields, ⟨x, y, hfields, rfl, rfl⟩, rfl⟩
    exact hfields
  · exact fun h => ⟨(b.object, b.sourceMap), ⟨_, _, h, rfl, rfl⟩, rfl⟩

/-- The values that are converted to an artifact. -/
theorem ofValue_eq_ok_iff {v : Value} {a : Artifact} : ofValue v = .ok a ↔ v.IsArtifact a := by
  rw [ofValue_eq, map_eq_ok_iff]
  simp only [pairOfValue_eq_ok_iff, itemsOfValue_eq_ok_iff, bytecodeOfValue_eq_ok_iff]
  constructor
  · rintro ⟨fields, ⟨x, y, hfields, rfl, hbytecode⟩, rfl⟩
    exact ⟨y, hfields, hbytecode⟩
  · rintro ⟨w, hfields, hbytecode⟩
    exact ⟨(a.abi, a.bytecode), ⟨_, w, hfields, rfl, hbytecode⟩, rfl⟩

/-! ## Texts -/

section Parse

variable {id : Snippet.Id} {path text : String} {v : Value}

theorem parse_of_read_error {e : Json.Error} (h : Value.read text = .error e) :
    parse id path text = .error (.artifact id path ("invalid JSON: " ++ e.message)) := by
  unfold parse
  rw [h]

theorem parse_eq_ok_iff (h : Value.read text = .ok v) {a : Artifact} :
    parse id path text = .ok a ↔ v.IsArtifact a := by
  rw [← ofValue_eq_ok_iff]
  unfold parse
  rw [h]
  dsimp only
  cases ofValue v <;> simp

theorem parse_of_not_artifact (h : Value.read text = .ok v) (hv : ∀ a, ¬ v.IsArtifact a) :
    ∃ e : Json.Error, parse id path text =
      .error (.artifact id path ("unexpected artifact shape: " ++ e.message)) := by
  cases hvalue : ofValue v with
  | ok a => exact absurd (ofValue_eq_ok_iff.1 hvalue) (hv a)
  | error e =>
    refine ⟨e, ?_⟩
    unfold parse
    rw [h]
    dsimp only
    rw [hvalue]

end Parse

/-- What a text is read as. A text that is no document is an error with the words for that. A document
is the artifact that its value is, where of members with one key the value has the last one, and an
error with other words if its value is none; members that are no fields make no difference. -/
theorem parse_by_shape (id : Snippet.Id) (path text : String) :
    (∀ e, Value.read text = .error e →
      parse id path text = .error (.artifact id path ("invalid JSON: " ++ e.message))) ∧
    ∀ v, Value.read text = .ok v →
      (∀ a, parse id path text = .ok a ↔ v.IsArtifact a) ∧
      ((∀ a, ¬ v.IsArtifact a) → ∃ message, parse id path text =
        .error (.artifact id path ("unexpected artifact shape: " ++ message))) ∧
      ∃ doc, Document.read text = .ok doc ∧ doc.value = v ∧
        (∀ members key, doc = .object members →
          v.get? key = (under key members).getLast?.map Document.value) ∧
        ∀ text' doc', Document.read text' = .ok doc' → known doc' = known doc →
          ∀ a, parse id path text' = .ok a ↔ parse id path text = .ok a := by
  refine ⟨fun e => parse_of_read_error, fun v h => ⟨fun a => parse_eq_ok_iff h, fun hv => ?_, ?_⟩⟩
  · obtain ⟨e, he⟩ := @parse_of_not_artifact id path text v h hv
    exact ⟨_, he⟩
  · obtain ⟨doc, hdoc, rfl⟩ := map_eq_ok_iff.1 ((Value.read_eq text).symm.trans h)
    refine ⟨doc, hdoc, rfl, ?_, fun text' doc' hdoc' hknown a => ?_⟩
    · rintro members key rfl
      exact (member?_putAll key [] members).trans (Option.or_none)
    · have h' : Value.read text' = .ok doc'.value := by
        rw [Value.read_eq, hdoc']
        rfl
      rw [parse_eq_ok_iff h, parse_eq_ok_iff h', ← ofValue_eq_ok_iff, ← ofValue_eq_ok_iff,
        ← ofValue_known doc', hknown, ofValue_known doc]

/-- A text with a field that stands twice, first with a value of another shape, and with a key that is
no field. -/
def replacedField : String :=
  "\x7b\"abi\":0,\"bytecode\":[\"0x00\",\"\"],\"id\":1,\"abi\":[null]\x7d"

/-- A list with one item more than an artifact has fields. -/
def threeItems : String :=
  "[[],[\"0x00\",\"\"],0]"

set_option maxRecDepth 2000 in
theorem parse_by_shape_replacedField :
    parse ⟨"Snippet"⟩ "in.json" replacedField = .ok ⟨[.null], "0x00", ""⟩ ∧
      (∃ message, parse ⟨"Snippet"⟩ "in.json" threeItems =
        .error (.artifact ⟨"Snippet"⟩ "in.json" ("unexpected artifact shape: " ++ message))) ∧
      ∃ message, parse ⟨"Snippet"⟩ "in.json" "\x7b" =
        .error (.artifact ⟨"Snippet"⟩ "in.json" ("invalid JSON: " ++ message)) := by
  have hreplaced : Value.read replacedField = .ok (.object [("abi", .array [.null]),
      ("bytecode", .array [.string "0x00", .string ""]), ("id", .number (.integer 1))]) := by
    cbv
  have hthree : Value.read threeItems = .ok (.array [.array [],
      .array [.string "0x00", .string ""], .number (.integer 0)]) := by
    cbv
  have hopen : Value.read "\x7b" = .error ⟨.endInObject, some ⟨1, 1⟩⟩ := by
    cbv
  refine ⟨(((parse_by_shape _ _ _).2 _ hreplaced).1 _).2 ?_,
    ((parse_by_shape _ _ _).2 _ hthree).2.1 fun a ha => ?_, _, (parse_by_shape _ _ _).1 _ hopen⟩
  · exact ⟨_, .object rfl rfl, .array⟩
  · obtain ⟨abi, bytecode⟩ := a
    obtain ⟨w, hfields, -⟩ := ha
    cases hfields

end Artifact

end EmbeddedSolidity
