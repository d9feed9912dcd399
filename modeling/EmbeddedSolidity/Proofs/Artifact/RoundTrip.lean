import EmbeddedSolidity.Artifact.Embedded
import EmbeddedSolidity.Proofs.Json.RoundTrip
import Mathlib

/-!
# Artifacts round trip

An artifact that was read from a file of the compiler reads back from each of its two texts, by
either reader : through a value (`Artifact.parse`), or straight from the text
(`Artifact.readDirect`). The level limit is no obstacle, since the printed artifact nests no
deeper than the text it was read from (`readable_value`).

* `Artifact.parse_ok_roundTrip` : both readers on both texts.
-/

namespace EmbeddedSolidity

open Json Json.Reader

namespace Artifact

/-! ## What is known of an artifact that was read -/

theorem ok_of_bind {ε α β : Type} {x : Except ε α} {f : α → Except ε β} {b : β}
    (h : x >>= f = .ok b) : ∃ a, x = .ok a ∧ f a = .ok b := by
  cases x with
  | error e => cases h
  | ok a => exact ⟨a, rfl, h⟩

theorem mem_of_member? {α : Type} {key : String} {members : List (String × α)} {v : α}
    (h : member? key members = some v) : ∃ m ∈ members, m.2 = v := by
  obtain ⟨m, hm, rfl⟩ := Option.map_eq_some_iff.1 h
  exact ⟨m, List.mem_of_find?_eq_some hm, rfl⟩

/-- The first field of a record is read from one of its members. -/
theorem of_pairOfMembers {α β : Type} {first second : String} {f : Value → Except Json.Error α}
    {g : Value → Except Json.Error β} {members : List (String × Value)} {x : α × β}
    (h : pairOfMembers first second f g members = .ok x) : ∃ m ∈ members, f m.2 = .ok x.1 := by
  obtain ⟨a, b⟩ := x
  unfold pairOfMembers at h
  obtain ⟨a', ha, h⟩ := ok_of_bind h
  obtain ⟨b', hb, h⟩ := ok_of_bind h
  cases hfirst : member? first members with
  | none =>
    rw [hfirst] at ha
    cases ha
    cases b' <;> cases h
  | some v =>
    obtain ⟨m, hm, rfl⟩ := mem_of_member? hfirst
    rw [hfirst, Option.mapM_some] at ha
    cases hf : f m.2 with
    | error e =>
      rw [hf] at ha
      cases ha
    | ok c =>
      rw [hf] at ha
      cases ha
      cases b' <;> cases h
      exact ⟨m, hm, hf⟩

/-- The first field of a record is read from one of its items. -/
theorem of_pairOfItems {α β : Type} {shape : String} {f : Value → Except Json.Error α}
    {g : Value → Except Json.Error β} {items : List Value} {x : α × β}
    (h : pairOfItems shape f g items = .ok x) : ∃ v ∈ items, f v = .ok x.1 := by
  unfold pairOfItems at h
  split at h
  · cases h
  · obtain ⟨_, _, h⟩ := ok_of_bind h
    cases h
  · next v w rest =>
    obtain ⟨a, ha, h⟩ := ok_of_bind h
    obtain ⟨b, hb, h⟩ := ok_of_bind h
    split at h
    · cases h
      exact ⟨v, List.mem_cons_self, ha⟩
    · cases h

theorem readable_of_itemsOfValue {d : Nat} {v : Value} {items : List Value}
    (h : v.Readable (d + 1)) (hi : itemsOfValue v = .ok items) : ∀ w ∈ items, w.Readable d := by
  cases h with
  | array h => cases hi; exact h
  | _ => cases hi

/-- The entries of an interface that was read from a value nest two levels less. -/
theorem readable_of_ofValue {d : Nat} {v : Value} {a : Artifact} (h : v.Readable (d + 2))
    (ha : ofValue v = .ok a) : ∀ w ∈ a.abi, w.Readable d := by
  cases h with
  | object _ h =>
    obtain ⟨x, hx, ha⟩ := ok_of_bind ha
    obtain ⟨m, hm, hitems⟩ := of_pairOfMembers hx
    cases ha
    exact readable_of_itemsOfValue (h m hm) hitems
  | array h =>
    obtain ⟨x, hx, ha⟩ := ok_of_bind ha
    obtain ⟨v, hv, hitems⟩ := of_pairOfItems hx
    cases ha
    exact readable_of_itemsOfValue (h v hv) hitems
  | _ => cases ha

/-! ## The printed artifact -/

theorem readable_pair {d : Nat} {first second : String} {v w : Value} (hkeys : first < second)
    (hv : v.Readable (d + 1)) (hw : w.Readable (d + 1)) :
    (Value.object [(first, v), (second, w)]).Readable (d + 2) := by
  refine .object (List.pairwise_pair.2 hkeys) fun m hm => ?_
  rcases List.mem_cons.1 hm with rfl | hm
  · exact hv
  · obtain rfl := List.mem_singleton.1 hm
    exact hw

theorem integral_pair {first second : String} {v w : Value} (hv : v.Integral) (hw : w.Integral) :
    (Value.object [(first, v), (second, w)]).Integral := by
  refine .object fun m hm => ?_
  rcases List.mem_cons.1 hm with rfl | hm
  · exact hv
  · obtain rfl := List.mem_singleton.1 hm
    exact hw

theorem ofValue_value (a : Artifact) : ofValue a.value = .ok a :=
  rfl

/-- An artifact whose interface was read nests no deeper than the text it was read from. -/
theorem readable_value {d : Nat} {a : Artifact} (h : ∀ w ∈ a.abi, w.Readable (d + 1)) :
    a.value.Readable (d + 3) :=
  readable_pair (by decide) (.array h) (readable_pair (by decide) (.string _ _) (.string _ _))

theorem integral_value {a : Artifact} (h : ∀ w ∈ a.abi, w.Integral) : a.value.Integral :=
  integral_pair (.array h) (integral_pair (.string _) (.string _))

/-! ## The two readers on a printed artifact -/

section Readers

variable {layout : Layout} {a : Artifact}

/-- Through a value. -/
theorem read_value (hl : layout.Spaced) (h : ∀ w ∈ a.abi, w.Readable (depthLimit - 2))
    (hi : ∀ w ∈ a.abi, w.Integral) :
    Value.read (String.ofList (a.value.chars layout 0)) = .ok a.value := by
  refine readDocument_of_yields ?_ gap_nil
  have hvalue : a.value.Readable depthLimit := readable_value h
  have hreads := readsBack_readValue hl hvalue 0 (integral_value hi) [] [] gap_nil endsNumber_nil
  rwa [List.nil_append, List.append_nil, ← String.toList_ofList (l := a.value.chars layout 0)] at hreads

/-- A field that was not read before. -/
theorem yields_readField {α : Type} (hl : layout.Spaced) {n : Nat} {f : Reader α} {v : Value} {x : α}
    {rest : List Char} (name : String) (hf : ReadsBack layout n f v x) (hrest : EndsNumber rest) :
    (readField name none f).Yields (layout.colon ++ (v.chars layout n ++ rest)) (some x) rest := by
  obtain ⟨space, hspace, hcolon⟩ := hl.colon
  rw [hcolon, List.cons_append]
  exact (yields_readColon _).bind ((hf space rest hspace hrest).bind (yields_pure _ _))

/-- The members of a record of two fields, behind the opening bracket. -/
theorem yields_readFields {α β : Type} (hl : layout.Spaced) {n : Nat} {first second : String}
    (hkeys : first < second) {f : Reader α} {g : Reader β} {v w : Value} {x : α} {y : β}
    (hf : ReadsBack layout (n + 1) f v x) (hg : ReadsBack layout (n + 1) g w y) (rest : List Char) :
    (readFields (stepPair first second f g) (none, none)).Yields
      (objectBody layout n [(first, v), (second, w)] ++ rest) (some x, some y) ('\x7d' :: rest) := by
  have hclosing := hl.closing n
  obtain ⟨between, hbetween, heq⟩ := hl.between n
  have hend : EndsNumber (layout.closing n ++ '\x7d' :: rest) :=
    endsNumber_gap hclosing rest (by decide)
  have hne : (second == first) = false :=
    beq_false_of_ne fun e => String.lt_irrefl first (e ▸ hkeys)
  have hfirst : (stepPair first second f g (none, none) first).Yields
      (layout.colon ++ (v.chars layout (n + 1) ++
        (membersChars layout n [(second, w)] ++ (layout.closing n ++ '\x7d' :: rest))))
      (some x, none) (membersChars layout n [(second, w)] ++ (layout.closing n ++ '\x7d' :: rest)) := by
    unfold stepPair
    rw [if_pos (beq_self_eq_true first)]
    exact (yields_readField hl first hf (endsNumber_membersChars _ hl hclosing _)).bind (yields_pure _ _)
  have hsecond : (stepPair first second f g (some x, none) second).Yields
      (layout.colon ++ (w.chars layout (n + 1) ++ (layout.closing n ++ '\x7d' :: rest)))
      (some x, some y) (layout.closing n ++ '\x7d' :: rest) := by
    unfold stepPair
    rw [if_neg (by simp [hne]), if_pos (beq_self_eq_true second)]
    exact (yields_readField hl second hg hend).bind (yields_pure _ _)
  unfold readFields
  refine (yields_fuelHere _).bind ?_
  -- three rounds : a member, another member, the end
  obtain ⟨fuel, hfuel⟩ : ∃ k,
      (objectBody layout n [(first, v), (second, w)] ++ rest).length + 1 = k + 3 := by
    refine ⟨_, congrArg (· + 1) (Nat.sub_add_cancel (m := 2) ?_).symm⟩
    have := length_lt_length_objectBody (n := n) rest hl [(first, v), (second, w)]
    exact Nat.le_of_lt_succ this
  rw [hfuel]
  simp only [objectBody, List.append_assoc, List.singleton_append]
  refine yields_readMembers_first (stringSpelled_stringChars first) (hl.opening n) hfirst ?_
  simp only [membersChars, heq, List.append_assoc, List.nil_append]
  exact yields_readMembers_next (stringSpelled_stringChars second) gap_nil hbetween hsecond
    (yields_readMembers_end rest fuel false _ hclosing)

theorem readsBack_readPair {α β : Type} (hl : layout.Spaced) {n depth : Nat} (hdepth : 1 < depth)
    (name : String) {first second : String} (hkeys : first < second) {f : Reader α} {g : Reader β}
    {v w : Value} {x : α} {y : β} (hf : ReadsBack layout (n + 1) f v x)
    (hg : ReadsBack layout (n + 1) g w y) :
    ReadsBack layout n (readPair depth name first second f g)
      (.object [(first, v), (second, w)]) (x, y) := by
  intro gap rest hgap _
  rw [chars_object, List.cons_append]
  unfold readPair readRecord
  refine (yields_peekToken _ hgap (by decide)).bind ((yields_enter hdepth '\x7b' _).bind ?_)
  refine yields_within ?_ (yields_endObject rest)
  exact (yields_readFields hl hkeys hf hg rest).bind (yields_pure _ _)

theorem readsBack_readText (n : Nat) (expected s : String) :
    ReadsBack layout n (readText expected) (.string s) s := by
  intro gap rest hgap _
  rw [Value.chars, stringChars_append]
  refine (yields_peekToken _ hgap (by decide)).bind ((yields_advance '"' _).bind ?_)
  exact yields_readStringBody s rest

theorem readsBack_readElements (hl : layout.Spaced) {n depth : Nat} (hdepth : 1 < depth)
    (expected : String) {r : Reader Value} {items : List Value}
    (h : ∀ v ∈ items, v.Integral ∧ ReadsBack layout (n + 1) r v v) :
    ReadsBack layout n (readElements depth expected r) (.array items) items := by
  intro gap rest hgap _
  rw [chars_array, List.cons_append]
  refine (yields_peekToken _ hgap (by decide)).bind ((yields_enter hdepth '[' _).bind ?_)
  refine (yields_fuelHere _).bind ?_
  exact yields_listBody _ hl (length_lt_length_listBody _ hl items) h

/-- Straight from the text. -/
theorem readDirect_value (hl : layout.Spaced) (h : ∀ w ∈ a.abi, w.Readable (depthLimit - 2))
    (hi : ∀ w ∈ a.abi, w.Integral) :
    readDirect (String.ofList (a.value.chars layout 0)) = .ok a := by
  refine readDocument_of_yields ?_ gap_nil
  have habi : ReadsBack layout 1 (readElements (depthLimit - 1) "a sequence" (readValue (depthLimit - 2)))
      (.array a.abi) a.abi :=
    readsBack_readElements hl (by decide) _ fun v hv =>
      ⟨hi v hv, readsBack_readValue hl (h v hv) 2 (hi v hv)⟩
  have hbytecode : ReadsBack layout 1 (bytecodeReader (depthLimit - 1)) a.bytecode.value a.bytecode :=
    fun gap rest hgap hrest => (readsBack_readPair hl (by decide) _ (by decide)
      (readsBack_readText 2 _ a.bytecode.object) (readsBack_readText 2 _ a.bytecode.sourceMap)
      gap rest hgap hrest).bind (yields_pure _ _)
  have hpair : ReadsBack layout 0 (readPair depthLimit "struct Artifact" "abi" "bytecode"
      (readElements (depthLimit - 1) "a sequence" (readValue (depthLimit - 2)))
      (bytecodeReader (depthLimit - 1))) a.value (a.abi, a.bytecode) :=
    readsBack_readPair hl (by decide) _ (by decide) habi hbytecode
  have hreads : (reader depthLimit).Yields ([] ++ (a.value.chars layout 0 ++ [])) a [] :=
    (hpair [] [] gap_nil endsNumber_nil).bind (yields_pure _ _)
  rw [List.nil_append, List.append_nil] at hreads
  rw [String.toList_ofList]
  exact hreads

end Readers

/-- The interface of an artifact that was read nests less deeply than its text may. -/
theorem readable_of_parse {id : Snippet.Id} {path text : String} {a : Artifact}
    (h : parse id path text = .ok a) : ∀ w ∈ a.abi, w.Readable (depthLimit - 2) := by
  unfold parse at h
  split at h
  · cases h
  · next v hv =>
    split at h
    · cases h
    · next b hb =>
      cases h
      exact readable_of_ofValue (ensures_of_readDocument (readable_of_readValue depthLimit) hv) hb

/-- The pretty text of an artifact that was read embeds the artifact. -/
theorem embedded_pretty {id : Snippet.Id} {path text : String} {a : Artifact}
    (h : parse id path text = .ok a) (hintegral : ∀ v ∈ a.abi, v.Integral) (name : String) :
    (EmbeddedArtifact.mk name a.value.pretty).artifact = .ok a :=
  readDirect_value spaced_pretty (readable_of_parse h) hintegral

/-- An artifact whose numbers are integers, once read, reads back from its compact and from its
pretty text, by either reader. -/
theorem parse_ok_roundTrip {id : Snippet.Id} {path text : String} {a : Artifact}
    (h : parse id path text = .ok a) (hi : ∀ v ∈ a.abi, v.Integral) (id' : Snippet.Id)
    (path' name : String) :
    ∀ written ∈ [a.value.compact, a.value.pretty],
      parse id' path' written = .ok a ∧
      (EmbeddedArtifact.mk name written).artifact = .ok a ∧
      (EmbeddedArtifact.mk name written).bytecodeObject = .ok a.bytecode.object := by
  have hreadable : ∀ w ∈ a.abi, w.Readable (depthLimit - 2) := by
    unfold parse at h
    split at h
    · cases h
    · next v hv =>
      split at h
      · cases h
      · next b hb =>
        cases h
        exact readable_of_ofValue (ensures_of_readDocument (readable_of_readValue depthLimit) hv) hb
  have layouts : ∀ layout : Layout, layout.Spaced →
      parse id' path' (String.ofList (a.value.chars layout 0)) = .ok a ∧
      readDirect (String.ofList (a.value.chars layout 0)) = .ok a := by
    intro layout hl
    refine ⟨?_, readDirect_value hl hreadable hi⟩
    unfold parse
    rw [read_value hl hreadable hi]
    dsimp only
    rw [ofValue_value]
  intro written hwritten
  obtain ⟨hparse, hdirect⟩ : parse id' path' written = .ok a ∧ readDirect written = .ok a := by
    rcases List.mem_cons.1 hwritten with rfl | hwritten
    · exact layouts .compact spaced_compact
    · obtain rfl := List.mem_singleton.1 hwritten
      exact layouts .pretty spaced_pretty
  refine ⟨hparse, hdirect, ?_⟩
  unfold EmbeddedArtifact.bytecodeObject EmbeddedArtifact.artifact
  rw [hdirect]
  rfl

/-- Both ends of the integers, an empty list and a line break. -/
def extremes : Artifact :=
  ⟨[.array [], .array [.number (.integer (-2 ^ 63)), .number (.integer (2 ^ 64 - 1))], .string "\n"],
    ⟨"0x00", ""⟩⟩

theorem parse_ok_roundTrip_extremes :
    parse ⟨"Snippet"⟩ "in.json" ("\x7b\"bytecode\":\x7b\"sourceMap\":\"\",\"object\":\"0x00\"\x7d," ++
      "\"abi\":[[],[-9223372036854775808,18446744073709551615],\"\\u000a\"]\x7d") = .ok extremes ∧
    (∀ v ∈ extremes.abi, v.Integral) ∧
    ∀ written ∈ [extremes.value.compact, extremes.value.pretty],
      parse ⟨"Snippet"⟩ "out.json" written = .ok extremes ∧
      (EmbeddedArtifact.mk "Snippet" written).artifact = .ok extremes ∧
      (EmbeddedArtifact.mk "Snippet" written).bytecodeObject = .ok "0x00" := by
  have hparse : parse ⟨"Snippet"⟩ "in.json"
      ("\x7b\"bytecode\":\x7b\"sourceMap\":\"\",\"object\":\"0x00\"\x7d," ++
        "\"abi\":[[],[-9223372036854775808,18446744073709551615],\"\\u000a\"]\x7d") = .ok extremes := by
    cbv
  have hi : ∀ v ∈ extremes.abi, v.Integral := by
    intro v hv
    simp only [extremes, List.mem_cons, List.not_mem_nil, or_false] at hv
    obtain rfl | rfl | rfl := hv
    · exact .array (by simp)
    · refine .array fun v hv => ?_
      simp only [List.mem_cons, List.not_mem_nil, or_false] at hv
      obtain rfl | rfl := hv <;> exact .integer _
    · exact .string _
  exact ⟨hparse, hi, parse_ok_roundTrip hparse hi ⟨"Snippet"⟩ "out.json" "Snippet"⟩

end Artifact

end EmbeddedSolidity
