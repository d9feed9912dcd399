import EmbeddedSolidity.Json.Reader

/-!
# Documents with all their members

A value keeps the last one of the members of an object that have the same key. A document keeps them
all, in the order in which they stand in the text. What is read as a value is the value of the
document that is read, and the errors are the same.

* `Document.value` : the value of a document;
* `Document.read` : the document of a text;
* `Value.read_eq` : reading a value is reading a document.
-/

namespace EmbeddedSolidity.Json

open Reader

/-- A JSON text as it stands, but for space and the spelling of scalars. -/
inductive Document where
  | null
  | boolean (b : Bool)
  | number (n : Number)
  | string (s : String)
  | array (items : List Document)
  | object (members : List (String × Document))

namespace Document

mutual

/-- The value of a document. -/
def value : Document → Value
  | null => .null
  | boolean b => .boolean b
  | number n => .number n
  | string s => .string s
  | array items => .array (valuesOf items)
  | object members => .object (putAll [] members)

/-- The values of items. -/
def valuesOf : List Document → List Value
  | [] => []
  | item :: items => item.value :: valuesOf items

/-- Put the values of members among others, in order. -/
def putAll (before : List (String × Value)) : List (String × Document) → List (String × Value)
  | [] => before
  | (key, item) :: members => putAll (putMember key item.value before) members

end

theorem valuesOf_eq (items : List Document) : valuesOf items = items.map value := by
  induction items with
  | nil => rfl
  | cons item items ih => rw [valuesOf, ih, List.map_cons]

theorem putAll_append_singleton (before : List (String × Value)) (members : List (String × Document))
    (key : String) (item : Document) :
    putAll before (members ++ [(key, item)]) = putMember key item.value (putAll before members) := by
  induction members generalizing before with
  | nil => rfl
  | cons member members ih =>
    obtain ⟨key', item'⟩ := member
    exact ih _

/-- A document, at most `depth` containers deep. -/
def reader : Nat → Reader Document
  | 0 => failNext .tooDeep
  | depth + 1 => do
    match ← peekToken with
    | none => failNext .endInValue
    | some 'n' => readRest "ull" .null
    | some 't' => readRest "rue" (.boolean true)
    | some 'f' => readRest "alse" (.boolean false)
    | some '-' => advance; return .number (← readNumber false)
    | some '"' => advance; return .string (← readStringBody)
    | some '[' =>
      enter (depth + 1)
      let fuel ← fuelHere
      return .array (← within (readItems (reader depth) fuel true []) endList)
    | some '\x7b' =>
      enter (depth + 1)
      let fuel ← fuelHere
      let add members key := do
        readColon
        return members ++ [(key, ← reader depth)]
      return .object (← within (readMembers add fuel true []) endObject)
    | some c =>
      if c.isDigit then return .number (← readNumber true) else failNext .expectedValue

/-- The document of a text. -/
def read (text : String) : Except Error Document :=
  readDocument (reader depthLimit) text

end Document

/-! ## Results that are mapped -/

section Map

variable {α β σ τ : Type}

theorem map_readRest (letters : String) (f : α → β) (a : α) :
    f <$> readRest letters a = readRest letters (f a) := by
  unfold readRest
  simp only [map_bind, map_pure]

theorem map_failNext (f : α → β) (cause : Cause) :
    f <$> (failNext cause : Reader α) = failNext cause :=
  rfl

theorem runFrom_map (f : α → β) (r : Reader α) (c : Cursor) :
    (f <$> r).runFrom c = ((r.runFrom c).1.map f, (r.runFrom c).2) := by
  unfold runFrom
  rw [ExceptT.run_map]
  rfl

theorem attempt_map (f : α → β) (r : Reader α) :
    attempt (f <$> r) = Except.map f <$> attempt r := by
  funext c
  change (Except.ok ((f <$> r).runFrom c).1, ((f <$> r).runFrom c).2) = _
  rw [runFrom_map]
  rfl

theorem map_located (f : α → β) (e : Error) :
    f <$> (located (.error e) : Reader α) = located (.error e) := by
  obtain ⟨cause, place⟩ := e
  cases place <;> rfl

theorem map_within (f : α → β) (body : Reader α) (close : Reader Unit) :
    f <$> within body close = within (f <$> body) close := by
  unfold within
  simp only [attempt_map, map_bind, bind_map_left]
  congr 1
  funext result
  congr 1
  funext ending
  cases result with
  | error e => exact map_located f e
  | ok a =>
    cases ending with
    | error e => rfl
    | ok => simp [Except.map]

/-- A list of mapped items is mapped. -/
theorem readItems_map (f : α → β) (item : Reader α) (fuel : Nat) (first : Bool) (before : List α) :
    readItems (f <$> item) fuel first (before.map f) =
      List.map f <$> readItems item fuel first before := by
  induction fuel generalizing first before with
  | zero => exact (map_failNext _ _).symm
  | succ fuel ih =>
    unfold readItems
    simp only [map_bind, bind_map_left]
    congr 1
    funext more
    cases more
    · simp
    · simp [← ih]

/-- Members that are folded in two ways, of which one follows the other. -/
theorem readMembers_map (f : σ → τ) {step : σ → String → Reader σ} {step' : τ → String → Reader τ}
    (hstep : ∀ state key, step' (f state) key = f <$> step state key) (fuel : Nat) (first : Bool)
    (state : σ) :
    readMembers step' fuel first (f state) = f <$> readMembers step fuel first state := by
  induction fuel generalizing first state with
  | zero => exact (map_failNext _ _).symm
  | succ fuel ih =>
    unfold readMembers
    simp only [map_bind]
    congr 1
    funext more
    cases more
    · simp
    · simp [hstep, ih]

end Map

/-- What is read as a value is the value of what is read as a document. -/
theorem readValue_eq (depth : Nat) : readValue depth = Document.value <$> Document.reader depth := by
  induction depth with
  | zero => exact (map_failNext _ _).symm
  | succ depth ih =>
    unfold readValue Document.reader
    rw [map_bind]
    congr 1
    funext next
    split
    · rfl
    · exact (map_readRest "ull" Document.value .null).symm
    · exact (map_readRest "rue" Document.value (.boolean true)).symm
    · exact (map_readRest "alse" Document.value (.boolean false)).symm
    · simp only [map_bind, map_pure, Document.value]
    · simp only [map_bind, map_pure, Document.value]
    · have hitems : ∀ fuel, within (readItems (readValue depth) fuel true []) endList =
          List.map Document.value <$>
            within (readItems (Document.reader depth) fuel true []) endList := fun fuel => by
        rw [map_within, ← readItems_map, ih]
        rfl
      simp only [hitems, map_bind, bind_map_left, map_pure, Document.value, Document.valuesOf_eq]
    · have hmembers : ∀ fuel, within (readMembers (fun members key => do
            readColon
            return putMember key (← readValue depth) members) fuel true []) endObject =
          Document.putAll [] <$> within (readMembers (fun members key => do
            readColon
            return members ++ [(key, ← Document.reader depth)]) fuel true []) endObject := fun fuel => by
        rw [map_within, ← readMembers_map (Document.putAll []) (fun members key => ?_)]
        · rfl
        · rw [ih]
          simp only [map_bind, bind_map_left, map_pure, Document.putAll_append_singleton]
      simp only [hmembers, map_bind, bind_map_left, map_pure, Document.value]
    · split <;> simp_all [Document.value, map_failNext]

theorem readDocument_map {α β : Type} (f : α → β) (r : Reader α) (text : String) :
    readDocument (f <$> r) text = (readDocument r text).map f := by
  have hmap : (do let b ← f <$> r; endDocument; return b : Reader β) =
      f <$> (do let a ← r; endDocument; return a : Reader α) := by
    simp only [map_bind, bind_map_left, map_pure]
  unfold readDocument
  rw [hmap, runFrom_map]

/-- The value of a text is the value of its document, and the errors are the same. -/
theorem Value.read_eq (text : String) :
    Value.read text = (Document.read text).map Document.value := by
  unfold Value.read Document.read
  rw [readValue_eq, readDocument_map]

end EmbeddedSolidity.Json
