import EmbeddedSolidity.Proofs.Json.Skipping

/-!
# Readers of shapes, by what is next

A shape that is read straight from a text is told by the character that is next: another shape is
refused (`not_goes_refuse`), and where the right one is met the reader goes on behind its bracket or
its quote.

* `goes_readText`, `goes_readElements`, `goes_readRecord` : strings, lists and records;
* `goes_readElement`, `endList_of_hasItem` : the items of a list of a fixed length;
* `readDocument_eq_ok_iff` : a document is what is read, with nothing but space behind.
-/

namespace EmbeddedSolidity.Json

open Reader

variable {α β : Type}

/-- What is next is not what is expected. -/
theorem not_goes_refuse {expected : String} {c c' : Cursor} {a : α} :
    ¬ (refuse expected : Reader α).Goes c a c' := by
  unfold refuse
  rw [goes_peek_bind]
  intro h
  split at h
  · obtain ⟨_, _, -, h⟩ := goes_bind.1 h
    exact not_goes_failHere h
  · obtain ⟨_, _, -, h⟩ := goes_bind.1 h
    exact not_goes_failHere h
  · obtain ⟨_, _, -, h⟩ := goes_bind.1 h
    exact not_goes_failHere h
  · obtain ⟨_, _, -, h⟩ := goes_bind.1 (goes_advance_bind.1 h)
    exact not_goes_failHere h
  · obtain ⟨_, _, -, h⟩ := goes_bind.1 (goes_advance_bind.1 h)
    exact not_goes_failHere h
  · exact not_goes_failHere h
  · exact not_goes_failHere h
  · split at h
    · obtain ⟨_, _, -, h⟩ := goes_bind.1 h
      exact not_goes_failHere h
    · exact not_goes_failNext h
  · exact not_goes_failNext h

/-- The reader of strings, by what is next. -/
theorem goes_readText {expected : String} {c c' : Cursor} {s : String} :
    (readText expected).Goes c s c' ↔
      c.behindSpace.rest.head? = some '"' ∧ readStringBody.Goes c.behindSpace.behindNext s c' := by
  unfold readText
  rw [goes_peekToken_bind]
  split
  · next hhead => simp [hhead]
  · next hhead => simp [hhead]
  · next hne hhead =>
    refine ⟨fun h => absurd h not_goes_refuse, fun h => absurd h.1 ?_⟩
    rw [hhead]
    exact fun heq => hne (Option.some.inj heq)

/-- The reader of lists, by what is next. -/
theorem goes_readElements {depth : Nat} {expected : String} {item : Reader α} {c c' : Cursor}
    {as : List α} :
    (readElements depth expected item).Goes c as c' ↔
      c.behindSpace.rest.head? = some '[' ∧ 1 < depth ∧
        ∃ mid, (readItems item (c.behindSpace.behindNext.rest.length + 1) true []).Goes
          c.behindSpace.behindNext as mid ∧ endList.Goes mid () c' := by
  unfold readElements
  rw [goes_peekToken_bind]
  split
  · next hhead => simp [hhead]
  · next hhead => rw [goes_enter_bind, goes_fuelHere_bind, goes_within]; simp [hhead]
  · next hne hhead =>
    refine ⟨fun h => absurd h not_goes_refuse, fun h => absurd h.1 ?_⟩
    rw [hhead]
    exact fun heq => hne (Option.some.inj heq)

theorem goes_readElement (index : Nat) {expected : String} {item : Reader α} {c mid c' : Cursor}
    {more : Bool} {a : α} (h : (hasItem (index == 0)).Goes c more mid) :
    (readElement index expected item).Goes c a c' ↔ more = true ∧ item.Goes mid a c' := by
  unfold readElement
  rw [goes_bind_of h]
  cases more with
  | false => simp
  | true => simp

theorem goes_required {name : String} {field : Option α} {c c' : Cursor} {a : α} :
    (required name field).Goes c a c' ↔ field = some a ∧ c' = c := by
  unfold required
  cases field with
  | none => simp
  | some b => simp [eq_comm]

/-- The list that ends where no item follows. -/
theorem endList_of_hasItem {more : Bool} {c c₁ c' : Cursor} (h : (hasItem false).Goes c more c₁) :
    endList.Goes c () c' ↔ more = false ∧ endList.Goes c₁ () c' := by
  obtain ⟨rfl, hhead, rfl⟩ | ⟨-, hfirst, -⟩ | ⟨rfl, -, hcomma, rfl⟩ := goes_hasItem h
  · unfold endList
    rw [goes_peekToken_bind, goes_peekToken_bind, Cursor.behindSpace_behindSpace]
    exact (and_iff_right rfl).symm
  · cases hfirst
  · refine ⟨fun hend => ?_, fun hend => nomatch hend.1⟩
    have hclose := (goes_endList hend).1
    rw [hcomma] at hclose
    cases hclose

/-- The reader of records, by what is next. -/
theorem goes_readRecord {depth : Nat} {expected : String} {ofMembers ofItems : Reader α}
    {c c' : Cursor} {a : α} :
    (readRecord depth expected ofMembers ofItems).Goes c a c' ↔
      (c.behindSpace.rest.head? = some '[' ∧ 1 < depth ∧
        ∃ mid, ofItems.Goes c.behindSpace.behindNext a mid ∧ endList.Goes mid () c') ∨
      (c.behindSpace.rest.head? = some '\x7b' ∧ 1 < depth ∧
        ∃ mid, ofMembers.Goes c.behindSpace.behindNext a mid ∧ endObject.Goes mid () c') := by
  unfold readRecord
  rw [goes_peekToken_bind]
  split
  · next hhead => simp [hhead]
  · next hhead => rw [goes_enter_bind, goes_within]; simp [hhead]
  · next hhead => rw [goes_enter_bind, goes_within]; simp [hhead]
  · next hbracket hbrace hhead =>
    refine ⟨fun h => absurd h not_goes_refuse, fun h => ?_⟩
    rw [hhead] at h
    obtain ⟨heq, -⟩ | ⟨heq, -⟩ := h
    · exact absurd (Option.some.inj heq) hbracket
    · exact absurd (Option.some.inj heq) hbrace

theorem readDocument_eq_ok_iff {r : Reader α} {text : String} {a : α} :
    readDocument r text = .ok a ↔
      ∃ mid c', r.Goes (Cursor.start text) a mid ∧ endDocument.Goes mid () c' := by
  have hgoes : readDocument r text = .ok a ↔
      ∃ c', (do let a ← r; endDocument; return a : Reader α).Goes (Cursor.start text) a c' :=
    ⟨fun h => ⟨_, Prod.ext h rfl⟩, fun ⟨_, h⟩ => congrArg Prod.fst h⟩
  rw [hgoes]
  constructor
  · rintro ⟨c', h⟩
    obtain ⟨b, mid, hb, h⟩ := goes_bind.1 h
    obtain ⟨⟨⟩, mid', hend, h⟩ := goes_bind.1 h
    obtain ⟨rfl, -⟩ := goes_pure.1 h
    exact ⟨mid, mid', hb, hend⟩
  · rintro ⟨mid, c', ha, hend⟩
    exact ⟨c', goes_bind.2 ⟨a, mid, ha, goes_bind.2 ⟨(), c', hend, goes_pure.2 ⟨rfl, rfl⟩⟩⟩⟩

end EmbeddedSolidity.Json
