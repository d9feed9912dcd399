import EmbeddedSolidity.Proofs.Artifact.Following
import EmbeddedSolidity.Proofs.Artifact.RoundTrip

/-!
# Where the two readers agree

A text that is read as an artifact through a value is read as the same artifact straight from the
text, unless its document repeats a field: of fields with one key the value has the last one, and the
other reader fails at the second one. Members with other keys make no difference.

* `Document.Repeats` : an object repeats one of some keys;
* `Artifact.RepeatsField` : a document repeats a field of the artifact or of its bytecode;
* `Artifact.artifact_of_parse` : the two readers on one text.
-/

namespace EmbeddedSolidity

open Json

namespace Json

/-! ## Members under a key -/

/-- The documents under a key, in order. -/
def under (key : String) (members : List (String × Document)) : List Document :=
  (members.filter (·.1 == key)).map (·.2)

theorem under_cons (key name : String) (doc : Document) (members : List (String × Document)) :
    under name ((key, doc) :: members) =
      if key = name then doc :: under name members else under name members := by
  unfold under
  by_cases h : key = name <;> simp [h]

/-- The value of an object has the last of the members with a key. -/
theorem member?_putAll (name : String) (before : List (String × Value))
    (members : List (String × Document)) :
    member? name (Document.putAll before members) =
      ((under name members).getLast?.map Document.value).or (member? name before) := by
  induction members generalizing before with
  | nil => rfl
  | cons member members ih =>
    obtain ⟨key, doc⟩ := member
    rw [Document.putAll, ih, member?_putMember, under_cons]
    by_cases h : key = name
    · rw [if_pos h, if_pos h]
      cases hrest : under name members with
      | nil => rfl
      | cons x docs =>
        rw [List.getLast?_cons_cons, List.getLast?_cons]
        rfl
    · rw [if_neg h, if_neg h]

namespace Document

/-- The document has some of the keys more than once. -/
def Repeats (keys : List String) : Document → Prop
  | .object members => ∃ key ∈ keys, 1 < (under key members).length
  | _ => False

/-- What a field of a record is read from: the last member with the key, or the item in its place. -/
def field? (key : String) (index : Nat) : Document → Option Document
  | .object members => (under key members).getLast?
  | .array items => items[index]?
  | _ => none

/-- The document without the members that have other keys. -/
def only (keys : List String) : Document → Document
  | .object members => .object (members.filter fun m => keys.contains m.1)
  | doc => doc

end Document

end Json

namespace Artifact

variable {α β : Type}

/-! ## Records -/

/-- Both fields of a record are folded apart. -/
theorem foldlM_onceMore? {first second : String} (hne : first ≠ second) (f : Document → Option α)
    (g : Document → Option β) (members : List (String × Document)) (a : Option α) (b : Option β) :
    members.foldlM (onceMore? first second f g) (a, b) =
      ((under first members).foldlM (onceField? f) a).bind fun a =>
        ((under second members).foldlM (onceField? g) b).map fun b => (a, b) := by
  induction members generalizing a b with
  | nil => rfl
  | cons member members ih =>
    obtain ⟨key, doc⟩ := member
    rw [under_cons, under_cons, List.foldlM_cons]
    by_cases hfirst : key = first
    · subst hfirst
      rw [if_pos rfl, if_neg hne, List.foldlM_cons]
      cases h : onceField? f a doc with
      | none => simp [onceMore?, h]
      | some a' => simp [onceMore?, h, ih]
    · rw [if_neg hfirst]
      by_cases hsecond : key = second
      · subst hsecond
        rw [if_pos rfl, List.foldlM_cons]
        cases h : onceField? g b doc with
        | none => simp [onceMore?, h, hfirst]
        | some b' => simp [onceMore?, h, hfirst, ih]
      · rw [if_neg hsecond]
        simp [onceMore?, hfirst, hsecond, ih]

/-- A field that is there once. -/
theorem foldlM_onceField? {f : Document → Option α} {docs : List Document} {a : α} :
    docs.foldlM (onceField? f) none = some (some a) ↔ ∃ x, docs = [x] ∧ f x = some a := by
  have repeated : ∀ (x y : Document) (docs : List Document),
      (x :: y :: docs).foldlM (onceField? f) none = none := by
    intro x y docs
    cases h : f x <;> simp [onceField?, h]
  match docs with
  | [] => simp
  | [x] => simp [onceField?]
  | x :: y :: docs => simp [repeated]

theorem pairOf?_object_iff {first second : String} (hne : first ≠ second) {f : Document → Option α}
    {g : Document → Option β} {members : List (String × Document)} {p : α × β} :
    pairOf? first second f g (.object members) = some p ↔
      (∃ x, under first members = [x] ∧ f x = some p.1) ∧
        ∃ y, under second members = [y] ∧ g y = some p.2 := by
  rw [pairOf?_object, foldlM_onceMore? hne, ← foldlM_onceField?, ← foldlM_onceField?]
  cases (under first members).foldlM (onceField? f) none <;>
    cases (under second members).foldlM (onceField? g) none <;> simp

theorem ok_some_of_mapM {f : Value → Except Json.Error α} {field : Option Value} {a : α}
    (h : field.mapM f = .ok (some a)) : ∃ v, field = some v ∧ f v = .ok a := by
  cases field with
  | none => cases h
  | some v =>
    rw [Option.mapM_some] at h
    cases hf : f v with
    | error e =>
      rw [hf] at h
      cases h
    | ok b =>
      rw [hf] at h
      cases h
      exact ⟨v, rfl, hf⟩

theorem pairOfMembers_eq_ok {first second : String} {f : Value → Except Json.Error α}
    {g : Value → Except Json.Error β} {members : List (String × Value)} {p : α × β}
    (h : pairOfMembers first second f g members = .ok p) :
    (∃ v, member? first members = some v ∧ f v = .ok p.1) ∧
      ∃ w, member? second members = some w ∧ g w = .ok p.2 := by
  obtain ⟨a, ha, h⟩ := ok_of_bind h
  obtain ⟨b, hb, h⟩ := ok_of_bind h
  cases a with
  | none => cases b <;> cases h
  | some a =>
    cases b with
    | none => cases h
    | some b =>
      cases h
      exact ⟨ok_some_of_mapM ha, ok_some_of_mapM hb⟩

theorem pairOfItems_eq_ok {shape : String} {f : Value → Except Json.Error α}
    {g : Value → Except Json.Error β} {items : List Value} {p : α × β}
    (h : pairOfItems shape f g items = .ok p) :
    ∃ v w, items = [v, w] ∧ f v = .ok p.1 ∧ g w = .ok p.2 := by
  unfold pairOfItems at h
  split at h
  · cases h
  · obtain ⟨_, _, h⟩ := ok_of_bind h
    cases h
  · next v w rest =>
    obtain ⟨a, ha, h⟩ := ok_of_bind h
    obtain ⟨b, hb, h⟩ := ok_of_bind h
    split at h
    · next hrest =>
      cases h
      obtain rfl := List.isEmpty_iff.1 hrest
      exact ⟨v, w, rfl, ha, hb⟩
    · cases h

/-- Of a document whose value is converted, the reader makes the same, unless the document has the
property `R`, and then nothing. -/
def Agrees (f : Value → Except Json.Error α) (f? : Document → Option α) (R : Document → Prop) :
    Prop :=
  ∀ ⦃doc a⦄, f doc.value = .ok a → ∀ a', f? doc = some a' ↔ a' = a ∧ ¬ R doc

theorem agrees_textOfValue : Agrees textOfValue textOf? fun _ => False := by
  intro doc a h a'
  cases doc with
  | string s =>
    cases h
    simp [textOf?, eq_comm]
  | _ => cases h

theorem agrees_itemsOfValue : Agrees itemsOfValue itemsOf? fun _ => False := by
  intro doc a h a'
  cases doc with
  | array items =>
    cases h
    simp [itemsOf?, Document.valuesOf_eq, eq_comm]
  | _ => cases h

/-- The value of a document as a record with two fields. -/
def pairOfValue (name first second : String) (f : Value → Except Json.Error α)
    (g : Value → Except Json.Error β) : Value → Except Json.Error (α × β)
  | .object members => pairOfMembers first second f g members
  | .array items => pairOfItems (name ++ " with 2 elements") f g items
  | v => wrongShape v name

theorem exists_of_member?_putAll {key : String} {members : List (String × Document)} {v : Value}
    (h : member? key (Document.putAll [] members) = some v) :
    ∃ x, (under key members).getLast? = some x ∧ x.value = v := by
  rw [member?_putAll] at h
  exact Option.map_eq_some_iff.1 (by simpa [member?] using h)

/-- A document that is the only one is the last one. -/
theorem single_iff {docs : List Document} {x : Document} (hx : docs.getLast? = some x)
    {P : Document → Prop} : (∃ y, docs = [y] ∧ P y) ↔ ¬ 1 < docs.length ∧ P x := by
  match docs with
  | [] => cases hx
  | [y] =>
    obtain rfl : y = x := by simpa using hx
    simp
  | y :: z :: docs => simp

/-- The readers of a record agree, unless the document repeats one of its fields or a field does not
agree. -/
theorem agrees_pair (name : String) {first second : String} (hne : first ≠ second)
    {f : Value → Except Json.Error α} {g : Value → Except Json.Error β} {f? : Document → Option α}
    {g? : Document → Option β} {R S : Document → Prop} (hf : Agrees f f? R) (hg : Agrees g g? S) :
    Agrees (pairOfValue name first second f g) (pairOf? first second f? g?) fun doc =>
      doc.Repeats [first, second] ∨ (∃ x, doc.field? first 0 = some x ∧ R x) ∨
        ∃ y, doc.field? second 1 = some y ∧ S y := by
  intro doc p h p'
  cases doc with
  | object members =>
    obtain ⟨⟨v, hv, ha⟩, w, hw, hb⟩ := pairOfMembers_eq_ok h
    obtain ⟨x, hx, rfl⟩ := exists_of_member?_putAll hv
    obtain ⟨y, hy, rfl⟩ := exists_of_member?_putAll hw
    rw [pairOf?_object_iff hne, single_iff hx, single_iff hy, hf ha, hg hb, Prod.ext_iff]
    simp only [Document.Repeats, Document.field?, hx, hy, List.mem_cons, List.not_mem_nil, or_false,
      exists_eq_or_imp, exists_eq_left, Option.some.injEq, exists_eq_left']
    tauto
  | array items =>
    obtain ⟨v, w, hitems, ha, hb⟩ := pairOfItems_eq_ok h
    rw [Document.valuesOf_eq] at hitems
    obtain ⟨x, rest, rfl, rfl, hrest⟩ := List.map_eq_cons_iff.1 hitems
    obtain ⟨y, rfl, rfl⟩ : ∃ y, rest = [y] ∧ y.value = w := by simpa using hrest
    obtain ⟨a, b⟩ := p
    obtain ⟨a', b'⟩ := p'
    simp only [pairOf?, Document.Repeats, Document.field?, Option.bind_eq_bind,
      Option.bind_eq_some_iff, hf ha, hg hb, Prod.mk.injEq]
    simp
    tauto
  | _ => cases h

/-- A document repeats a field of the artifact, or the bytecode in it repeats one of its own. -/
def RepeatsField (doc : Document) : Prop :=
  doc.Repeats ["abi", "bytecode"] ∨
    ∃ bytecode, doc.field? "bytecode" 1 = some bytecode ∧ bytecode.Repeats ["object", "sourceMap"]

theorem Agrees.map {f : Value → Except Json.Error α} {f? : Document → Option α}
    {R : Document → Prop} (h : Agrees f f? R) (g : α → β) :
    Agrees (fun v => (f v).map g) (fun doc => (f? doc).map g) R := by
  intro doc b hb b'
  obtain ⟨a, ha, rfl⟩ : ∃ a, f doc.value = .ok a ∧ g a = b := by
    revert hb
    dsimp only
    cases f doc.value with
    | error e => exact nofun
    | ok a => exact fun hb => ⟨a, rfl, Except.ok.inj hb⟩
  dsimp only
  rw [Option.map_eq_some_iff]
  constructor
  · rintro ⟨a', ha', rfl⟩
    obtain ⟨rfl, hR⟩ := (h ha a').1 ha'
    exact ⟨rfl, hR⟩
  · rintro ⟨rfl, hR⟩
    exact ⟨a, (h ha a).2 ⟨rfl, hR⟩, rfl⟩

theorem bytecodeOfValue_eq (v : Value) :
    bytecodeOfValue v = (pairOfValue "struct Bytecode" "object" "sourceMap" textOfValue textOfValue
      v).map fun fields => ⟨fields.1, fields.2⟩ := by
  have mapped : ∀ x : Except Json.Error (String × String),
      x >>= (fun fields => .ok ⟨fields.1, fields.2⟩) =
        x.map fun fields => (⟨fields.1, fields.2⟩ : Bytecode) := by
    rintro (e | x) <;> rfl
  cases v <;> exact mapped _

theorem ofValue_eq (v : Value) :
    ofValue v = (pairOfValue "struct Artifact" "abi" "bytecode" itemsOfValue bytecodeOfValue v).map
      fun fields => ⟨fields.1, fields.2⟩ := by
  have mapped : ∀ x : Except Json.Error (List Value × Bytecode),
      x >>= (fun fields => .ok ⟨fields.1, fields.2⟩) =
        x.map fun fields => (⟨fields.1, fields.2⟩ : Artifact) := by
    rintro (e | x) <;> rfl
  cases v <;> exact mapped _

theorem agrees_bytecodeOfValue :
    Agrees bytecodeOfValue bytecodeOf? fun doc => doc.Repeats ["object", "sourceMap"] := by
  have h := (agrees_pair "struct Bytecode" (show "object" ≠ "sourceMap" by decide) agrees_textOfValue
    agrees_textOfValue).map
    fun fields => (⟨fields.1, fields.2⟩ : Bytecode)
  intro doc b hb b'
  rw [bytecodeOfValue_eq] at hb
  refine Iff.trans (h hb b') ?_
  simp

theorem agrees_ofValue : Agrees ofValue artifactOf? RepeatsField := by
  have h := (agrees_pair "struct Artifact" (show "abi" ≠ "bytecode" by decide) agrees_itemsOfValue
    agrees_bytecodeOfValue).map
    fun fields => (⟨fields.1, fields.2⟩ : Artifact)
  intro doc a ha a'
  rw [ofValue_eq] at ha
  refine Iff.trans (h ha a') ?_
  simp [RepeatsField]

/-! ## Members with other keys -/

/-- The document without the members that are no fields. -/
def known (doc : Document) : Document :=
  match doc.only ["abi", "bytecode"] with
  | .object members => .object (members.map fun m =>
      if m.1 == "bytecode" then (m.1, m.2.only ["object", "sourceMap"]) else m)
  | .array (abi :: bytecode :: rest) => .array (abi :: bytecode.only ["object", "sourceMap"] :: rest)
  | doc => doc

theorem under_filter {keys : List String} {key : String} (h : key ∈ keys)
    (members : List (String × Document)) :
    under key (members.filter fun m => keys.contains m.1) = under key members := by
  unfold under
  rw [List.filter_filter]
  congr 1
  refine List.filter_congr fun m _ => ?_
  by_cases hm : m.1 = key
  · simp [hm, h]
  · simp [hm]

theorem under_map (f : Document → Document) (name key : String)
    (members : List (String × Document)) :
    under key (members.map fun m => if m.1 == name then (m.1, f m.2) else m) =
      if name = key then (under key members).map f else under key members := by
  induction members with
  | nil => simp [under]
  | cons member members ih =>
    obtain ⟨k, doc⟩ := member
    rw [List.map_cons]
    by_cases hk : k = name
    · subst hk
      rw [if_pos (beq_self_eq_true _), under_cons, under_cons, ih]
      split <;> simp_all
    · rw [if_neg (by simpa using hk), under_cons, under_cons, ih]
      by_cases hkey : k = key
      · subst hkey
        simp [Ne.symm hk]
      · rw [if_neg hkey, if_neg hkey]

theorem pairOfMembers_congr {first second : String} {f : Value → Except Json.Error α}
    {g : Value → Except Json.Error β} {members members' : List (String × Value)}
    (hfirst : (member? first members').mapM f = (member? first members).mapM f)
    (hsecond : (member? second members').mapM g = (member? second members).mapM g) :
    pairOfMembers first second f g members' = pairOfMembers first second f g members := by
  unfold pairOfMembers
  rw [hfirst, hsecond]

theorem pairOfValue_only (name first second : String) (f : Value → Except Json.Error α)
    (g : Value → Except Json.Error β) (doc : Document) :
    pairOfValue name first second f g (doc.only [first, second]).value =
      pairOfValue name first second f g doc.value := by
  cases doc with
  | object members =>
    refine pairOfMembers_congr ?_ ?_
    · rw [member?_putAll, member?_putAll, under_filter (by simp)]
    · rw [member?_putAll, member?_putAll, under_filter (by simp)]
  | _ => rfl

theorem bytecodeOfValue_only (doc : Document) :
    bytecodeOfValue (doc.only ["object", "sourceMap"]).value = bytecodeOfValue doc.value := by
  rw [bytecodeOfValue_eq, bytecodeOfValue_eq, pairOfValue_only]

theorem repeats_only (first second : String) (doc : Document) :
    (doc.only [first, second]).Repeats [first, second] ↔ doc.Repeats [first, second] := by
  cases doc with
  | object members =>
    refine exists_congr fun key => and_congr_right fun hkey => ?_
    rw [under_filter hkey]
  | _ => rfl

/-- Members that are no fields make no difference to the artifact. -/
theorem ofValue_known (doc : Document) : ofValue (known doc).value = ofValue doc.value := by
  rw [ofValue_eq, ofValue_eq, ← pairOfValue_only _ _ _ _ _ doc]
  unfold known
  split
  · next members hmembers =>
    rw [hmembers]
    refine congrArg _ (pairOfMembers_congr ?_ ?_)
    · rw [member?_putAll, member?_putAll, under_map, if_neg (by decide)]
    · rw [member?_putAll, member?_putAll, under_map, if_pos rfl, List.getLast?_map]
      cases (under "bytecode" members).getLast? with
      | none => rfl
      | some bytecode =>
        simp [Option.mapM_some, bytecodeOfValue_only]
  · next abi bytecode rest hitems =>
    rw [hitems]
    simp only [Document.value, Document.valuesOf_eq, List.map_cons, pairOfValue, pairOfItems,
      bytecodeOfValue_only]
  · rfl

/-- Members that are no fields do not count as repeated. -/
theorem repeatsField_known (doc : Document) : RepeatsField (known doc) ↔ RepeatsField doc := by
  unfold RepeatsField
  cases doc with
  | object members =>
    refine or_congr ?_ ?_
    · refine Iff.trans ?_ (repeats_only "abi" "bytecode" (.object members))
      refine exists_congr fun key => and_congr_right fun hkey => ?_
      rw [under_map]
      split
      · rw [List.length_map]
      · rfl
    · change (∃ bytecode, (under "bytecode" _).getLast? = some bytecode ∧ _) ↔ _
      rw [under_map, if_pos rfl, under_filter (by simp), List.getLast?_map]
      cases hlast : (under "bytecode" members).getLast? with
      | none => simp [Document.field?, hlast]
      | some bytecode => simp [Document.field?, hlast, repeats_only]
  | array items =>
    match items with
    | [] => rfl
    | [_] => rfl
    | _ :: bytecode :: _ =>
      simpa [known, Document.only, Document.Repeats, Document.field?] using
        repeats_only "object" "sourceMap" bytecode
  | _ => rfl

/-- What the two readers make of one document. -/
theorem parse_and_readDirect {id : Snippet.Id} {path text : String} {a : Artifact}
    (h : parse id path text = .ok a) :
    ∃ doc, Document.read text = .ok doc ∧ ofValue doc.value = .ok a ∧
      ∀ b, readDirect text = .ok b ↔ b = a ∧ ¬ RepeatsField doc := by
  unfold parse at h
  rw [Value.read_eq] at h
  cases hdoc : Document.read text with
  | error e =>
    rw [hdoc] at h
    cases h
  | ok doc =>
    rw [hdoc] at h
    refine ⟨doc, rfl, ?_⟩
    dsimp only [Except.map] at h
    split at h
    · cases h
    · next hvalue =>
      cases h
      exact ⟨hvalue, fun b => (readDirect_eq_ok_iff hdoc b).trans (agrees_ofValue hvalue b)⟩

theorem parse_of_read {id : Snippet.Id} {path text : String} {doc : Document} {a : Artifact}
    (hdoc : Document.read text = .ok doc) (h : ofValue doc.value = .ok a) :
    parse id path text = .ok a := by
  unfold parse
  rw [Value.read_eq, hdoc]
  dsimp only [Except.map]
  rw [h]

/-- A text that is read as an artifact through a value is read as the same artifact straight from the
text, unless its document repeats a field, and then not at all. Members that are no fields make no
difference to either reader. -/
theorem artifact_of_parse {id : Snippet.Id} {path text : String} {a : Artifact}
    (h : parse id path text = .ok a) (name : String) :
    ∃ doc, Document.read text = .ok doc ∧
      (¬ RepeatsField doc →
        (EmbeddedArtifact.mk name text).artifact = .ok a ∧
        (EmbeddedArtifact.mk name text).bytecodeObject = .ok a.bytecode.object) ∧
      (RepeatsField doc →
        (∃ e, (EmbeddedArtifact.mk name text).artifact = .error e) ∧
        ∃ e, (EmbeddedArtifact.mk name text).bytecodeObject = .error e) ∧
      ∀ text' doc', Document.read text' = .ok doc' → known doc' = known doc →
        parse id path text' = .ok a ∧
        ∀ b, (EmbeddedArtifact.mk name text').artifact = .ok b ↔
          (EmbeddedArtifact.mk name text).artifact = .ok b := by
  obtain ⟨doc, hdoc, hvalue, hdirect⟩ := parse_and_readDirect h
  refine ⟨doc, hdoc, fun hrepeats => ?_, fun hrepeats => ?_, fun text' doc' hdoc' hknown => ?_⟩
  · have hartifact : readDirect text = .ok a := (hdirect a).2 ⟨rfl, hrepeats⟩
    refine ⟨hartifact, ?_⟩
    unfold EmbeddedArtifact.bytecodeObject EmbeddedArtifact.artifact
    rw [hartifact]
    rfl
  · obtain ⟨e, he⟩ : ∃ e, readDirect text = .error e := by
      cases hresult : readDirect text with
      | error e => exact ⟨e, rfl⟩
      | ok b => exact absurd hrepeats ((hdirect b).1 hresult).2
    refine ⟨⟨e, he⟩, e, ?_⟩
    unfold EmbeddedArtifact.bytecodeObject EmbeddedArtifact.artifact
    rw [he]
    rfl
  · have hvalue' : ofValue doc'.value = .ok a := by
      rw [← ofValue_known, hknown, ofValue_known, hvalue]
    refine ⟨parse_of_read hdoc' hvalue', fun b => ?_⟩
    have hrepeats : RepeatsField doc' ↔ RepeatsField doc := by
      rw [← repeatsField_known, hknown, repeatsField_known]
    exact (readDirect_eq_ok_iff hdoc' b).trans ((agrees_ofValue hvalue' b).trans
      ((and_congr_right fun _ => not_congr hrepeats).trans (hdirect b).symm))

/-- A text with a key that is no field twice. -/
def otherTwice : String :=
  "\x7b\"id\":[],\"id\":\"\",\"abi\":[],\"bytecode\":[\"\",\"\"]\x7d"

/-- A text with a field twice. -/
def fieldTwice : String :=
  "[[],\x7b\"object\":\"0x01\",\"object\":\"0x00\",\"sourceMap\":\"\"\x7d]"

set_option maxRecDepth 2000 in
theorem artifact_of_parse_twice :
    (parse ⟨"Snippet"⟩ "in.json" otherTwice = .ok ⟨[], "", ""⟩ ∧
      (EmbeddedArtifact.mk "Snippet" otherTwice).artifact = .ok ⟨[], "", ""⟩) ∧
    parse ⟨"Snippet"⟩ "in.json" fieldTwice = .ok ⟨[], "0x00", ""⟩ ∧
      ∃ e, (EmbeddedArtifact.mk "Snippet" fieldTwice).artifact = .error e := by
  have hother : parse ⟨"Snippet"⟩ "in.json" otherTwice = .ok ⟨[], "", ""⟩ := by cbv
  have hfield : parse ⟨"Snippet"⟩ "in.json" fieldTwice = .ok ⟨[], "0x00", ""⟩ := by cbv
  obtain ⟨doc, hdoc, hagree, -⟩ := artifact_of_parse hother "Snippet"
  obtain ⟨doc', hdoc', -, hfails, -⟩ := artifact_of_parse hfield "Snippet"
  have hread : Document.read otherTwice = .ok (.object [("id", .array []), ("id", .string ""),
      ("abi", .array []), ("bytecode", .array [.string "", .string ""])]) := by
    cbv
  have hread' : Document.read fieldTwice = .ok (.array [.array [], .object [("object", .string "0x01"),
      ("object", .string "0x00"), ("sourceMap", .string "")]]) := by
    cbv
  obtain rfl := Except.ok.inj (hdoc.symm.trans hread)
  obtain rfl := Except.ok.inj (hdoc'.symm.trans hread')
  refine ⟨⟨hother, (hagree ?_).1⟩, hfield, (hfails ?_).1⟩
  · simp [RepeatsField, Document.Repeats, Document.field?, under]
  · simp [RepeatsField, Document.Repeats, Document.field?, under]

end Artifact

end EmbeddedSolidity
