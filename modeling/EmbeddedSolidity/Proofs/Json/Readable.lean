import EmbeddedSolidity.Proofs.Json.Token
import Mathlib.Algebra.Group.Int.Defs

/-!
# Values that can be read

`Value.Readable d v` says that a reader of `d` levels can give `v` : containers nest below `d`,
integers fit, and the members of objects stand in the order of their keys, each key once.

* `readable_of_readValue` : every value that is read is readable;
* `putMember_append` : members that come in order are put behind one another.
-/

namespace EmbeddedSolidity.Json

open Reader

/-! ## Values that can be read -/

/-- The members stand in the order of their keys, each key once. -/
def Ordered {α : Type} (members : List (String × α)) : Prop :=
  members.Pairwise fun a b => a.1 < b.1

/-- A reader of so many levels can give the value. -/
inductive Value.Readable : Nat → Value → Prop where
  | null (d : Nat) : Readable (d + 1) .null
  | boolean (d : Nat) (b : Bool) : Readable (d + 1) (.boolean b)
  | integer (d : Nat) {i : Int} : -2 ^ 63 ≤ i → i ≤ maxInteger → Readable (d + 1) (.number (.integer i))
  | real (d : Nat) (x : Binary64) : Readable (d + 1) (.number (.real x))
  | string (d : Nat) (s : String) : Readable (d + 1) (.string s)
  | array {d : Nat} {items : List Value} :
    (∀ v ∈ items, Readable (d + 1) v) → Readable (d + 2) (.array items)
  | object {d : Nat} {members : List (String × Value)} :
    Ordered members → (∀ m ∈ members, Readable (d + 1) m.2) → Readable (d + 2) (.object members)

/-- All numbers of the value are integers. -/
inductive Value.Integral : Value → Prop where
  | null : Integral .null
  | boolean (b : Bool) : Integral (.boolean b)
  | integer (i : Int) : Integral (.number (.integer i))
  | string (s : String) : Integral (.string s)
  | array {items : List Value} : (∀ v ∈ items, Integral v) → Integral (.array items)
  | object {members : List (String × Value)} :
    (∀ m ∈ members, Integral m.2) → Integral (.object members)

section Members

variable {α : Type}

theorem mem_putMember {key : String} {value : α} {m : String × α} :
    ∀ {members : List (String × α)}, m ∈ putMember key value members →
      m = (key, value) ∨ m ∈ members
  | [], h => Or.inl (by simpa [putMember] using h)
  | (k, v) :: rest, h => by
    unfold putMember at h
    split_ifs at h
    · rcases List.mem_cons.1 h with h | h
      · exact Or.inl h
      · exact Or.inr (List.mem_cons_of_mem _ h)
    · exact List.mem_cons.1 h
    · rcases List.mem_cons.1 h with rfl | h
      · exact Or.inr List.mem_cons_self
      · exact (mem_putMember h).imp_right (List.mem_cons_of_mem _)

/-- Putting a member keeps the order. -/
theorem ordered_putMember (key : String) (value : α) :
    ∀ {members : List (String × α)}, Ordered members → Ordered (putMember key value members)
  | [], _ => List.pairwise_singleton _ _
  | (k, v) :: rest, h => by
    obtain ⟨hk, hrest⟩ := List.pairwise_cons.1 h
    unfold putMember
    split_ifs with heq hlt
    · obtain rfl := eq_of_beq heq
      exact List.pairwise_cons.2 ⟨hk, hrest⟩
    · refine List.pairwise_cons.2 ⟨fun m hm => ?_, h⟩
      rcases List.mem_cons.1 hm with rfl | hm
      · exact hlt
      · exact String.lt_trans hlt (hk m hm)
    · refine List.pairwise_cons.2 ⟨fun m hm => ?_, ordered_putMember key value hrest⟩
      rcases mem_putMember hm with rfl | hm
      · refine String.not_le.1 fun hle => heq ?_
        exact beq_iff_eq.2 (String.le_antisymm hle (String.not_lt.1 hlt))
      · exact hk m hm

/-- A member behind all others is put at the end. -/
theorem putMember_append {key : String} {value : α} :
    ∀ {members : List (String × α)}, (∀ m ∈ members, m.1 < key) →
      putMember key value members = members ++ [(key, value)]
  | [], _ => rfl
  | (k, v) :: rest, h => by
    have hk : k < key := h (k, v) List.mem_cons_self
    have hne : (key == k) = false := beq_false_of_ne fun e => String.lt_irrefl k (e ▸ hk)
    unfold putMember
    rw [if_neg (by simp [hne]), if_neg (String.lt_asymm hk),
      putMember_append fun m hm => h m (List.mem_cons_of_mem _ hm), List.cons_append]

theorem member?_cons (name key : String) (value : α) (rest : List (String × α)) :
    member? name ((key, value) :: rest) = if key = name then some value else member? name rest := by
  unfold member?
  by_cases h : key = name <;> simp [h]

/-- What is put is found under its key, and the other members as before. -/
theorem member?_putMember (key name : String) (value : α) :
    ∀ members : List (String × α),
      member? name (putMember key value members) =
        if key = name then some value else member? name members
  | [] => member?_cons name key value []
  | (k, v) :: rest => by
    have ih := member?_putMember key name value rest
    unfold putMember
    by_cases heq : (key == k) = true
    · obtain rfl := eq_of_beq heq
      rw [if_pos heq, member?_cons, member?_cons]
      split <;> rfl
    · rw [if_neg heq]
      split
      · rw [member?_cons]
      · rw [member?_cons, member?_cons, ih]
        by_cases hname : key = name
        · have hk : k ≠ name := fun hk => heq (beq_iff_eq.2 (hname.trans hk.symm))
          rw [if_pos hname, if_neg hk, if_pos hname]
        · rw [if_neg hname, if_neg hname]

end Members

/-! ## What is read is readable -/

theorem accumulate_le {limit : Nat} :
    ∀ (cs : List Char) (n count : Nat), n ≤ limit → (accumulate limit cs n count).1 ≤ limit
  | [], _, _, h => h
  | c :: cs, n, count, h => by
    unfold accumulate
    dsimp only
    split_ifs with hd hx
    · exact h
    · exact accumulate_le cs _ _ (by omega)
    · exact h

/-- A step that is made only at times, and what follows it. -/
theorem ensures_unless {β : Type} {P : β → Prop} {c : Prop} [Decidable c] {r : Reader Unit}
    {f : Unit → Reader β} (h : ∀ u, (f u).Ensures P) : (if c then r >>= f else f ()).Ensures P := by
  split
  · exact ensures_bind h
  · exact h ()

/-! ### Floating point numbers -/

section Real

variable {P : Number → Prop} (hreal : ∀ x, P (.real x))

include hreal

theorem ensures_readParts (positive : Bool) (n : Nat) (e : Int) :
    (readParts positive n e).Ensures P := by
  unfold readParts
  split
  · exact ensures_pure (hreal _)
  · exact ensures_failHere _

theorem ensures_readExponent (positive : Bool) (n : Nat) (start : Int) :
    (readExponent positive n start).Ensures P := by
  unfold readExponent
  refine ensures_bind fun _ => ensures_bind fun sign => ensures_unless fun _ => ?_
  refine ensures_bind fun c => ensures_bind fun found => ?_
  split
  · exact ensures_failHere _
  · refine ensures_unless fun _ => ensures_bind fun digits => ?_
    dsimp only
    split
    · refine ensures_bind fun _ => ?_
      split
      · exact ensures_failHere _
      · exact ensures_bind fun _ => ensures_pure (hreal _)
    · exact ensures_readParts hreal _ _ _

theorem ensures_readBehindDigits (positive : Bool) (n : Nat) (e : Int) :
    (readBehindDigits positive n e).Ensures P := by
  unfold readBehindDigits
  refine ensures_bind fun _ => ?_
  split
  · exact ensures_readExponent hreal _ _ _
  · exact ensures_readExponent hreal _ _ _
  · exact ensures_readParts hreal _ _ _

theorem ensures_readFraction (positive : Bool) (n : Nat) (start : Int) :
    (readFraction positive n start).Ensures P := by
  unfold readFraction
  refine ensures_bind fun _ => ensures_bind fun digits => ?_
  dsimp only
  split
  · exact ensures_bind fun _ => ensures_readBehindDigits hreal _ _ _
  · split
    · refine ensures_bind fun _ => ?_
      split
      · exact ensures_bind fun _ => ensures_readBehindDigits hreal _ _ _
      · exact ensures_bind fun _ => ensures_readBehindDigits hreal _ _ _
    · exact ensures_readBehindDigits hreal _ _ _

end Real

/-! ### Integers -/

/-- An integer that a document can hold. -/
def Number.Fits : Number → Prop
  | .integer i => -2 ^ 63 ≤ i ∧ i ≤ maxInteger
  | .real _ => True

theorem Number.fits_real (x : Binary64) : Number.Fits (.real x) :=
  trivial

theorem ensures_readTail {positive : Bool} {n : Nat} (hn : n ≤ maxInteger) (dropped : Option Nat) :
    (readTail positive n dropped).Ensures Number.Fits := by
  unfold readTail
  refine ensures_bind fun _ => ?_
  split
  · exact ensures_readFraction Number.fits_real _ _ _
  · exact ensures_readExponent Number.fits_real _ _ _
  · exact ensures_readExponent Number.fits_real _ _ _
  · exact ensures_readParts Number.fits_real _ _ _
  · split
    · exact ensures_pure ⟨by omega, by omega⟩
    · split
      · exact ensures_readParts Number.fits_real _ _ _
      · next hle => exact ensures_pure ⟨by simp at hle; omega, by omega⟩

theorem ensures_readDigits {limit n : Nat} (h : n ≤ limit) :
    (readDigits limit n).Ensures fun digits => digits.1 ≤ limit :=
  ensures_bind fun _ => ensures_bind fun _ => ensures_pure (accumulate_le _ _ _ h)

theorem digit_le {c : Char} (h : c.isDigit = true) : c.toNat - 48 ≤ 9 := by
  have hle : c.toNat ≤ 57 := (Char.isDigit_iff_toNat.1 h).2
  omega

/-- The integers that are read are those that fit. -/
theorem ensures_readNumber (positive : Bool) : (readNumber positive).Ensures Number.Fits := by
  unfold readNumber
  refine ensures_bind fun _ => ensures_bind fun _ => ?_
  split
  · exact ensures_failHere _
  · refine ensures_bind fun _ => ?_
    split
    · split
      · exact ensures_failNext _
      · exact ensures_readTail (by decide) _
    · exact ensures_readTail (by decide) _
  · next d _ =>
    dsimp only
    split
    · exact (ensures_throw (P := fun _ => False) _).bind fun _ h => h.elim
    · next hdigit =>
      have hd : d.toNat - 48 ≤ maxInteger := Nat.le_trans (digit_le (by simpa using hdigit)) (by decide)
      refine (ensures_readDigits hd).bind fun digits hdigits => ?_
      split
      · exact ensures_bind fun _ => ensures_readTail hdigits _
      · exact ensures_readTail hdigits _

theorem readable_of_fits (d : Nat) : ∀ {n : Number}, n.Fits → Value.Readable (d + 1) (.number n)
  | .integer _, h => .integer d h.1 h.2
  | .real x, _ => .real d x

theorem ensures_readRest {α : Type} {P : α → Prop} (letters : String) {a : α} (h : P a) :
    (readRest letters a).Ensures P :=
  ensures_bind fun _ => ensures_bind fun _ => ensures_pure h

theorem ensures_enter (depth : Nat) : (enter depth).Ensures fun _ => 1 < depth := by
  unfold enter
  split
  · exact ensures_failNext _
  · next h => exact fun _ _ _ _ => Nat.lt_of_not_le h

/-- Everything that a reader of `d` levels gives is readable at `d` levels. -/
theorem readable_of_readValue : ∀ d, (readValue d).Ensures (Value.Readable d)
  | 0 => ensures_failNext _
  | d + 1 => by
    have ih := readable_of_readValue d
    unfold readValue
    refine ensures_bind fun _ => ?_
    split
    · exact ensures_failNext _
    · exact ensures_readRest _ (.null d)
    · exact ensures_readRest _ (.boolean d true)
    · exact ensures_readRest _ (.boolean d false)
    · refine ensures_bind fun _ => ?_
      exact (ensures_readNumber false).bind fun n hn => ensures_pure (readable_of_fits d hn)
    · exact ensures_bind fun _ => ensures_bind fun s => ensures_pure (.string d s)
    · refine (ensures_enter _).bind fun _ hd => ensures_bind fun fuel => ?_
      obtain ⟨d, rfl⟩ : ∃ k, d = k + 1 := ⟨d - 1, by omega⟩
      have items := ensures_readItems ih fuel true [] (by simp)
      exact (ensures_within items _).bind fun items h => ensures_pure (.array h)
    · refine (ensures_enter _).bind fun _ hd => ensures_bind fun fuel => ?_
      obtain ⟨d, rfl⟩ : ∃ k, d = k + 1 := ⟨d - 1, by omega⟩
      -- the members so far are ordered and readable
      refine (ensures_within (ensures_readMembers (P := fun members =>
        Ordered members ∧ ∀ m ∈ members, Value.Readable (d + 1) m.2) ?_ fuel true [] ?_) _).bind
        fun members h => ensures_pure (.object h.1 h.2)
      · intro members key h
        refine ensures_bind fun _ => ih.bind fun v hv => ensures_pure ?_
        refine ⟨ordered_putMember key v h.1, fun m hm => ?_⟩
        rcases mem_putMember hm with rfl | hm
        · exact hv
        · exact h.2 m hm
      · exact ⟨List.Pairwise.nil, by simp⟩
    · split
      · exact (ensures_readNumber true).bind fun n hn => ensures_pure (readable_of_fits d hn)
      · exact ensures_failNext _

end EmbeddedSolidity.Json
