import EmbeddedSolidity.Proofs.FileSystem.Naming

/-!
# Operations that stop half way

An operation on many entries that stops half way leaves each place as it was before or as the whole
operation would have left it. Of a removal this means that some entries are gone; a path then leads to
what it led to before, or to nothing.

* `FileTree.Partly` : what an operation leaves that stops half way;
* `FileTree.Lacks.entryAt` : paths in a tree that lacks entries.
-/

namespace EmbeddedSolidity.FileSystem.FileTree

variable {t t' after : FileTree} {current p q : Place} {path : String} {e : Entry}

/-- Each place is as it was before an operation or as it is after it. -/
structure Partly (t after t' : FileTree) : Prop where
  either : ∀ q, t'.get? q = t.get? q ∨ t'.get? q = after.get? q
  wellFormed : t'.WellFormed

/-- What the whole operation leaves as it is, its part leaves. -/
theorem Partly.sameApart (h : Partly t after t') (hsame : SameApart p t after) :
    SameApart p t t' := fun q hq =>
  (h.either q).elim id fun hafter => hafter.trans (hsame q hq)

/-- Some entries are gone. -/
def Lacks (t t' : FileTree) : Prop :=
  ∀ q, t'.get? q = t.get? q ∨ t'.get? q = none

/-- A walk in a tree that lacks entries ends as before or where nothing is. -/
theorem Lacks.walk (hlacks : Lacks t t') {follow : Bool} {r : Found} :
    ∀ (n : Nat) (here : Place) (names : List String), t.walk follow n here names = .ok r →
      t'.walk follow n here names = .ok r ∨
        t'.walk follow n here names = .error .notFound ∨
          ∃ q slash, t'.walk follow n here names = .ok (.free q slash) := by
  intro n
  induction n using Nat.strongRecOn with
  | ind n ihn =>
    intro here names
    induction names generalizing here with
    | nil =>
      intro h
      rw [walk_nil] at h ⊢
      exact Or.inl h
    | cons name rest ih =>
      intro h
      rcases name_cases name with hskip | rfl | hplain | ⟨h1, h2, h3⟩
      · rw [walk_skip hskip] at h ⊢
        exact ih here h
      · rw [walk_up] at h ⊢
        exact ih _ h
      · rw [walk_plain hplain] at h ⊢
        rcases hlacks (here ++ [name]) with hsame | hgone
        · rw [hsame]
          split at h
          · split_ifs at h with hall
            cases h
            split_ifs
            · exact Or.inl rfl
            · exact Or.inr (Or.inl rfl)
          · exact ih _ h
          · exact Or.inl h
          · split_ifs at h ⊢ with hlast
            · exact Or.inl h
            · cases n with
              | zero => cases h
              | succ n => exact ihn n (Nat.lt_succ_self n) _ _ h
        · rw [hgone]
          dsimp only
          split_ifs
          · exact Or.inr (Or.inr ⟨_, _, rfl⟩)
          · exact Or.inr (Or.inl rfl)
      · rw [walk_tooLong h1 h2 h3] at h
        cases h

/-- A path leads to what it led to before some entries were gone, or to nothing. -/
theorem Lacks.entryAt (hlacks : Lacks t t') {follow : Bool}
    (hentry : t.entryAt current follow path = .ok (q, e)) :
    t'.entryAt current follow path = .ok (q, e) ∨
      t'.entryAt current follow path = .error .notFound := by
  have hresolve := resolve_of_entryAt hentry
  have hfault := pathFault?_of_resolveNames hresolve
  rw [resolve, resolveNames_eq hfault] at hresolve
  unfold FileTree.entryAt resolve
  rw [resolveNames_eq hfault]
  rcases hlacks.walk _ _ _ hresolve with hsame | hgone | ⟨q', slash, hfree⟩
  · rw [hsame]
    exact Or.inl rfl
  · rw [hgone]
    exact Or.inr rfl
  · rw [hfree]
    exact Or.inr rfl

/-- A removal that stopped half way. -/
theorem Partly.lacks (hp : p ≠ []) (h : Partly t (t.eraseAll p) t') : Lacks t t' := fun q => by
  by_cases hq : p <+: q
  · exact (h.either q).imp_right fun hafter => hafter.trans (get?_eraseAll_eq_none t hp hq)
  · exact Or.inl (h.sameApart (sameApart_eraseAll p t) q hq)

/-- One entry of a directory is gone. -/
theorem partly_erase (hwf : t.WellFormed) (hp : p ≠ []) (hpq : Below p q)
    (hleaf : ∀ r, Below q r → t.get? r = none) : Partly t (t.eraseAll p) (t.erase q) := by
  refine ⟨fun r => ?_, hwf.erase hleaf⟩
  by_cases hr : r = q
  · rw [hr, get?_eraseAll_eq_none t hp hpq.1]
    exact Or.inr (get?_erase_self t (below_ne_nil hpq))
  · exact Or.inl (get?_erase_of_ne t hr)

/-- A directory with nothing below it has no names. -/
theorem names_eq_nil (hfree : ∀ q, Below p q → t.get? q = none) : t.names p = [] := by
  rw [← List.isEmpty_iff]
  refine isEmptyAt_of_free fun q hq => ?_
  have hnone := hfree q hq
  unfold get? at hnone
  rwa [if_neg (by simpa using below_ne_nil hq)] at hnone

end EmbeddedSolidity.FileSystem.FileTree
