import EmbeddedSolidity.Proofs.FileSystem.Naming
import EmbeddedSolidity.Proofs.Plan.Run

/-!
# Directories without links

No operation on files makes a link. So a directory that holds none holds none after a plan has been
carried out, unless a program that the plan started has put one there.

* `Host.linkless_answer` : one call;
* `Plan.linkless_run` : a whole plan.
-/

namespace EmbeddedSolidity

open FileSystem FileSystem.FileTree

namespace FileSystem.FileTree

variable {t t' t'' : FileTree} {d p q : Place}

/-- No entry of the directory is a link. -/
def Linkless (d : Place) (t : FileTree) : Prop :=
  ∀ name target, t.get? (d ++ [name]) ≠ some (.link target)

/-- The entries of a tree tell that there is no link in it. -/
theorem not_link_of_entries (hentries : ∀ x ∈ t.entries, kindOf x.2 ≠ .link) (q : Place)
    (target : String) : t.get? q ≠ some (.link target) := by
  intro hlink
  unfold FileTree.get? at hlink
  split at hlink
  · cases hlink
  · exact hentries _ (mem_of_lookup hlink) rfl

/-- Every link was there before. -/
def NoNewLinks (t t' : FileTree) : Prop :=
  ∀ q target, t'.get? q = some (.link target) → t.get? q = some (.link target)

theorem Linkless.mono (h : Linkless d t) (hlinks : NoNewLinks t t') : Linkless d t' :=
  fun name target hlink => h name target (hlinks _ _ hlink)

theorem NoNewLinks.refl (t : FileTree) : NoNewLinks t t :=
  fun _ _ hlink => hlink

theorem NoNewLinks.trans (h : NoNewLinks t t') (h' : NoNewLinks t' t'') : NoNewLinks t t'' :=
  fun q target hlink => h q target (h' q target hlink)

theorem Adds.noNewLinks (h : Adds t t') : NoNewLinks t t' :=
  fun _ _ hlink => (h.only _ _ hlink).resolve_right nofun

theorem noNewLinks_put (t : FileTree) (hq : q ≠ []) {e : Entry} (he : ∀ target, e ≠ .link target) :
    NoNewLinks t (t.put q e) := by
  intro r target hlink
  by_cases hr : r = q
  · rw [hr, get?_put_self t _ hq] at hlink
    exact absurd (Option.some.inj hlink) (he target)
  · rwa [get?_put_of_ne t _ hr] at hlink

theorem noNewLinks_erase (t : FileTree) (q : Place) : NoNewLinks t (t.erase q) := by
  intro r target hlink
  by_cases hr : r = q
  · subst hr
    by_cases hnil : r = []
    · rw [hnil] at hlink
      cases hlink
    · rw [get?_erase_self t hnil] at hlink
      cases hlink
  · rwa [get?_erase_of_ne t hr] at hlink

theorem noNewLinks_eraseBelow (t : FileTree) (p : Place) : NoNewLinks t (t.eraseBelow p) := by
  intro r target hlink
  by_cases hr : Below p r
  · rw [get?_eraseBelow t hr] at hlink
    cases hlink
  · rwa [get?_eraseBelow_of_not_below t hr] at hlink

theorem noNewLinks_eraseAll (t : FileTree) (hp : p ≠ []) : NoNewLinks t (t.eraseAll p) := by
  intro r target hlink
  by_cases hr : p <+: r
  · rw [get?_eraseAll_eq_none t hp hr] at hlink
    cases hlink
  · rwa [sameApart_eraseAll p t r hr] at hlink

/-- An operation that fails changes nothing. -/
theorem noNewLinks_keeping {r : Except Fault FileTree} (h : ∀ t', r = .ok t' → NoNewLinks t t') :
    NoNewLinks t (t.keeping r).2 := by
  cases r with
  | error f => exact .refl t
  | ok t' => exact h t' rfl

theorem noNewLinks_removeTree (t : FileTree) (current : Place) (path : String) :
    NoNewLinks t (t.removeTree current path).2 := by
  by_cases hdirectory : ∃ p, t.entryAt current false path = .ok (p, .directory)
  · obtain ⟨p, hentry⟩ := hdirectory
    rcases removeTree_directory hentry with htree | ⟨-, htree⟩
    · rw [htree]
      exact noNewLinks_eraseBelow t p
    · rw [htree]
      exact (noNewLinks_eraseBelow t p).trans (noNewLinks_erase _ p)
  · rcases removeTree_other fun p hentry => hdirectory ⟨p, hentry⟩ with htree | ⟨q, _, -, htree⟩
    · rw [htree]
      exact .refl t
    · rw [htree]
      exact noNewLinks_erase t q

end FileSystem.FileTree

variable {h : Host} {d : Place} {t : FileTree}

/-- Programs put no link into the directory. -/
def Host.KeepsLinkless (h : Host) (d : Place) : Prop :=
  ∀ program directory limit t, Linkless d t →
    Linkless d (h.execute program directory limit t).2

/-- After a call the directory holds no links. -/
theorem Host.linkless_answer (hkeeps : h.KeepsLinkless d) (ht : Linkless d t) (c : Call) :
    Linkless d (h.answer t c).2 := by
  cases c with
  | kind | isDirectory | list | read | locate => exact ht
  | write path content =>
    refine ht.mono (noNewLinks_keeping fun t' hwrite => ?_)
    obtain ⟨q, executable, rfl, htargets⟩ := write_eq_ok hwrite
    exact noNewLinks_put t htargets.not_way.1 fun _ => nofun
  | makeDirectories path => exact ht.mono (adds_makeDirectories t h.current path).noNewLinks
  | removeFile path =>
    refine ht.mono (noNewLinks_keeping fun t' hremove => ?_)
    obtain ⟨q, _, -, -, -, rfl⟩ := removeFile_eq_ok hremove
    exact noNewLinks_erase t q
  | removeTree path => exact ht.mono (noNewLinks_removeTree t h.current path)
  | execute program directory limit => exact hkeeps program directory limit t ht

/-- After a plan the directory holds no links. -/
theorem Plan.linkless_run {α : Type} (hkeeps : h.KeepsLinkless d) (p : Plan α)
    (ht : Linkless d t) : Linkless d (p.run h t).2 := by
  induction p generalizing t with
  | done a => exact ht
  | ask c next ih => exact ih _ (Host.linkless_answer hkeeps ht c)

end EmbeddedSolidity
