import EmbeddedSolidity.Proofs.Plan.Frame
import EmbeddedSolidity.Proofs.Plan.Linkless

/-!
# What runs can rely on

Runs that share a tree may count on what none of them takes away : the tree is well-formed, it has the
directories and links of a base, and above the directories that they write to nothing appears but
directories.

* `Host.wellFormed_answer` : what every call keeps that starts no program;
* `Sound` : such trees; `Sound.of_apart`, `Sound.adds` : work that leaves them sound.
-/

namespace EmbeddedSolidity

open FileSystem FileSystem.FileTree

variable {h : Host} {t t' : FileTree} {c : Call}

/-- An operation that fails changes nothing. -/
theorem wellFormed_keeping {r : Except Fault FileTree} (hwf : t.WellFormed)
    (hr : ∀ t', r = .ok t' → t'.WellFormed) : (t.keeping r).2.WellFormed := by
  cases r with
  | error f => exact hwf
  | ok t' => exact hr t' rfl

theorem wellFormed_erase_of_ne {q : Place} {e : Entry} (hwf : t.WellFormed)
    (hq : t.get? q = some e) (he : e ≠ .directory) : (t.erase q).WellFormed :=
  hwf.erase fun _ hr => hwf.free_below (by rw [hq]; exact fun heq => he (Option.some.inj heq)) hr

/-- A call that starts no program leaves a well-formed tree well-formed. -/
theorem Host.wellFormed_answer (h : Host) (hwf : t.WellFormed) (hc : ¬ c.Starts) :
    (h.answer t c).2.WellFormed := by
  cases c with
  | kind | isDirectory | list | read | locate => exact hwf
  | write path content =>
    refine wellFormed_keeping hwf fun t' hwrite => ?_
    obtain ⟨q, executable, rfl, htargets⟩ := write_eq_ok hwrite
    exact (htargets.writable hwf).wellFormed hwf
  | makeDirectories path => exact (adds_makeDirectories t h.current path).wellFormed hwf
  | removeFile path =>
    refine wellFormed_keeping hwf fun t' hremove => ?_
    obtain ⟨q, e, he, -, hname, rfl⟩ := removeFile_eq_ok hremove
    exact wellFormed_erase_of_ne hwf (resolveNames_found hname he).2.1 he
  | removeTree path =>
    change (t.removeTree h.current path).2.WellFormed
    by_cases hdirectory : ∃ p, t.entryAt h.current false path = .ok (p, .directory)
    · obtain ⟨p, hentry⟩ := hdirectory
      rcases removeTree_directory hentry with htree | ⟨-, htree⟩
      · rw [htree]
        exact hwf.eraseBelow p
      · rw [htree]
        exact hwf.emptied p
    · rcases removeTree_other fun p hentry => hdirectory ⟨p, hentry⟩ with htree | ⟨q, _, hq, htree⟩
      · rw [htree]
        exact hwf
      · rw [htree]
        exact wellFormed_erase_of_ne hwf hq nofun
  | execute => exact absurd trivial hc

/-! ## Sound trees -/

/-- The tree is well-formed and has the directories and links of the base. At the places `above` it has
what is there in the base, and no more than directories besides. -/
structure Sound (base : FileTree) (above : Set Place) (t : FileTree) : Prop where
  wellFormed : t.WellFormed
  keeps : KeepsWays base t
  stays : ∀ q ∈ above, ∀ e, base.get? q = some e → t.get? q = some e
  grown : ∀ q ∈ above, ∀ e, t.get? q = some e → base.get? q = some e ∨ e = .directory

variable {base : FileTree} {above Z : Set Place}

/-- Work elsewhere leaves a tree sound. -/
theorem Sound.of_apart (hs : Sound base above t) (hZ : ∀ q ∈ Z, q ∉ above) (hapart : Apart Z t t')
    (hwf : t'.WellFormed) (hkeeps : KeepsWays base t') : Sound base above t' := by
  have hsame : ∀ q ∈ above, t'.get? q = t.get? q := fun q hq => hapart.get? fun hmem => hZ q hmem hq
  refine ⟨hwf, hkeeps, fun q hq e he => ?_, fun q hq e he => ?_⟩
  · rw [hsame q hq]
    exact hs.stays q hq e he
  · rw [hsame q hq] at he
    exact hs.grown q hq e he

/-- Work where the base has nothing leaves what is in the base. -/
theorem Sound.keeps_of_apart (hs : Sound base above t) (hbase : ∀ q ∈ Z, base.get? q = none)
    (hapart : Apart Z t t') : KeepsWays base t' := by
  intro q e hway he
  have hq : q ∉ Z := fun hmem => by
    rw [hbase q hmem] at he
    cases he
  rw [hapart.get? hq]
  exact hs.keeps q e hway he

/-- More directories leave a tree sound. -/
theorem Sound.adds (hs : Sound base above t) (hadds : Adds t t') : Sound base above t' :=
  ⟨hadds.wellFormed hs.wellFormed, hs.keeps.trans hadds.keeps.keepsWays,
    fun q hq e he => hadds.keeps q e (hs.stays q hq e he), fun q hq e he =>
      (hadds.only q e he).elim (hs.grown q hq e) Or.inr⟩

/-- A path that names a place in the base, where nothing is at the place, denotes it in every sound
tree. -/
theorem Sound.denotes (hs : Sound base above t) {current d : Place} {path name : String} {m : Nat}
    (hpath : Names base current path m d name)
    (hbase : ∀ q, d ++ [name] <+: q → base.get? q = none) : Denotes t current path m d name := by
  refine hpath.mono fun q e hway he => ?_
  have hq : (d ++ [name]).isPrefixOf q = false := by
    rw [← Bool.not_eq_true, List.isPrefixOf_iff_prefix]
    intro hfront
    rw [hbase q hfront] at he
    cases he
  rw [get?_eraseAll t hq]
  exact hs.keeps q e hway he

end EmbeddedSolidity
