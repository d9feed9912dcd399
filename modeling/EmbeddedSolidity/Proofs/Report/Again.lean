import EmbeddedSolidity.Proofs.FileSystem.Filling
import EmbeddedSolidity.Proofs.Plan.Frame
import EmbeddedSolidity.Proofs.Report.Output

/-!
# Writing artifacts again

Artifacts that have been written are written again with the same result, and the tree stays what it is :
each file is put where it is, and a failure comes at the same artifact.

* `FileTree.putEach_putEach` : entries that are put twice;
* `Report.exists_puts`, `Report.settles_writeArtifacts` : the writing.
-/

namespace EmbeddedSolidity

open FileSystem FileSystem.FileTree

namespace FileSystem.FileTree

variable {t t' : FileTree} {p q : Place} {e : Entry} {Y : Set Place} {files : List (Place × Entry)}

/-- Put entries, one after the other. -/
def putEach (t : FileTree) (files : List (Place × Entry)) : FileTree :=
  files.foldl (fun t x => t.put x.1 x.2) t

theorem erase_put_self (t : FileTree) (p : Place) (e : Entry) : (t.put p e).erase p = t.erase p := by
  unfold put erase
  rw [List.filter_append, List.filter_filter]
  simp

/-- What is put beside a place depends on what is beside it. -/
theorem erase_put_congr (h : t.erase q = t'.erase q) (p : Place) (e : Entry) :
    (t.put p e).erase q = (t'.put p e).erase q := by
  have hcomm : ∀ t : FileTree, (t.erase p).erase q = (t.erase q).erase p := by
    intro t
    unfold erase
    rw [List.filter_filter, List.filter_filter]
    exact congrArg FileTree.mk (List.filter_congr fun _ _ => Bool.and_comm _ _)
  have hput : ∀ t : FileTree, (t.put p e).erase q =
      ⟨((t.erase q).erase p).entries ++ [(p, e)].filter (·.1 != q)⟩ := by
    intro t
    rw [← hcomm]
    unfold put erase
    rw [List.filter_append]
  rw [hput, hput, h]

theorem erase_putEach_congr (h : t.erase q = t'.erase q) (files : List (Place × Entry)) :
    (t.putEach files).erase q = (t'.putEach files).erase q := by
  induction files generalizing t t' with
  | nil => exact h
  | cons x rest ih => exact ih (erase_put_congr h x.1 x.2)

/-- Entries that are put again are where they were. The induction is from the last one on, which is put
last both times. -/
theorem putEach_putEach (t : FileTree) (files : List (Place × Entry)) :
    (t.putEach files).putEach files = t.putEach files := by
  induction files using List.reverseRecOn with
  | nil => rfl
  | append_singleton front x ih =>
    have hlast : ∀ t : FileTree, t.putEach (front ++ [x]) = (t.putEach front).put x.1 x.2 :=
      fun t => List.foldl_append
    have herase := erase_putEach_congr (erase_put_self (t.putEach front) x.1 x.2) front
    rw [ih] at herase
    rw [hlast, hlast]
    unfold put at herase ⊢
    rw [herase]

theorem Apart.putEach (h : Apart Y t t') (files : List (Place × Entry)) :
    Apart Y (t.putEach files) (t'.putEach files) := by
  induction files generalizing t t' with
  | nil => exact h
  | cons x rest ih => exact ih (h.put x.1 x.2)

theorem apart_putEach (t : FileTree) (hfiles : ∀ x ∈ files, x.1 ∈ Y) : Apart Y t (t.putEach files) := by
  induction files generalizing t with
  | nil => exact .refl Y t
  | cons x rest ih =>
    rw [List.forall_mem_cons] at hfiles
    exact (apart_put t x.2 hfiles.1).trans (ih _ hfiles.2)

theorem get?_putEach_of_ne (t : FileTree) (hfiles : ∀ x ∈ files, x.1 ≠ q) :
    (t.putEach files).get? q = t.get? q := by
  induction files generalizing t with
  | nil => rfl
  | cons x rest ih =>
    rw [List.forall_mem_cons] at hfiles
    exact (ih _ hfiles.2).trans (get?_put_of_ne t x.2 hfiles.1.symm)

end FileSystem.FileTree

namespace Report

variable {h : Host} {t t' : FileTree} {m : Nat} {p q : Place} {directory name : String}
  {written : List (String × Artifact)}

/-- A write that fails fails again in a tree with the same entries. -/
theorem write_error_congr {path : String} {content : ByteArray} {f : Fault}
    (hslash : endsInSlash path = false) (hsame : ∀ q, t'.get? q = t.get? q)
    (hwrite : t.write h.current path content = .error f) :
    t'.write h.current path content = .error f := by
  have hresolve : t'.resolve h.current true path = t.resolve h.current true path :=
    (resolve_congr fun q _ => hsame q).1
  unfold FileTree.write at hwrite ⊢
  rw [if_neg (by rw [hslash]; exact Bool.false_ne_true)] at hwrite ⊢
  rw [hresolve]
  rcases hr : t.resolve h.current true path with f' | ⟨q, _ | _ | _⟩ | ⟨q, _ | _⟩ <;>
    rw [hr] at hwrite <;> first | exact hwrite | cases hwrite

variable {x : String × Artifact} {rest : List (String × Artifact)}

theorem run_writeEach_error {f : Fault} (hwrite : t.write h.current (pathOf directory x.1)
    x.2.value.pretty.toUTF8 = .error f) :
    (writeEach directory (x :: rest)).run h t =
      (.error (.output (pathOf directory x.1) f.text), t) := by
  have hrun : (Plan.writeText (pathOf directory x.1) x.2.value.pretty).run h t = (.error f, t) := by
    rw [Plan.run_writeText, hwrite]
    rfl
  unfold writeEach
  rw [Plan.run_bind]
  unfold pathOf at hrun
  rw [hrun]
  rfl

theorem run_writeEach_ok (hwrite : t.write h.current (pathOf directory x.1)
    x.2.value.pretty.toUTF8 = .ok t') :
    (writeEach directory (x :: rest)).run h t =
      (((writeEach directory rest).run h t').1.map (pathOf directory x.1 :: ·),
        ((writeEach directory rest).run h t').2) := by
  have hrun : (Plan.writeText (pathOf directory x.1) x.2.value.pretty).run h t = (.ok (), t') := by
    rw [Plan.run_writeText, hwrite]
    rfl
  conv_lhs => unfold writeEach
  rw [Plan.run_bind]
  unfold pathOf at hrun
  rw [hrun]
  dsimp only
  rw [Plan.run_bind]
  rfl

/-- Writing artifacts puts files, and puts them again in a tree that has what the first writing left. -/
theorem exists_puts (hdirectory : directory ≠ "") (hnames : ∀ x ∈ written, OfSnippet x.1)
    (hdifferent : written.Pairwise fun a b => a.1 ≠ b.1) (hleads : Leads t h.current directory m p)
    (hlinkless : Linkless p t) :
    ∃ files : List (Place × Entry), (∀ y ∈ files, ∃ x ∈ written, y.1 = placeOf p x.1) ∧
      ((writeEach directory written).run h t).2 = t.putEach files ∧
      ∀ t', (∀ q, t'.get? q = ((writeEach directory written).run h t).2.get? q) →
        (writeEach directory written).run h t' =
          (((writeEach directory written).run h t).1, t'.putEach files) := by
  induction written generalizing t with
  | nil => exact ⟨[], List.forall_mem_nil _, rfl, fun t' _ => rfl⟩
  | cons x rest ih =>
    rw [List.forall_mem_cons] at hnames
    rw [List.pairwise_cons] at hdifferent
    have hslash : endsInSlash (pathOf directory x.1) = false :=
      Path.endsInSlash_join hnames.1.named.simple
    cases hwrite : t.write h.current (pathOf directory x.1) x.2.value.pretty.toUTF8 with
    | error f =>
      rw [run_writeEach_error hwrite]
      exact ⟨[], List.forall_mem_nil _, rfl, fun t' hsame =>
        run_writeEach_error (write_error_congr hslash hsame hwrite)⟩
    | ok t₁ =>
      obtain ⟨q, executable, rfl, htargets⟩ := write_eq_ok hwrite
      obtain ⟨m', p', hleads', hplace⟩ := leads_of_targets hdirectory hnames.1 htargets
      obtain rfl : p = p' := (hleads.unique (.refl t) hleads').2.symm
      obtain rfl := hplace hlinkless
      have hq := htargets.not_way.1
      have hput : KeepsWays t (t.put (placeOf p x.1) (.file x.2.value.pretty.toUTF8 executable)) :=
        htargets.keepsWays
      obtain ⟨files, hfiles, htree, hagain⟩ := ih hnames.2 hdifferent.2 (hleads.mono hput)
        (hlinkless.mono (noNewLinks_put t hq fun _ => nofun))
      have hkeeps := hput.trans (ensures_writeEach_keepsWays (h := h) directory rest)
      rw [run_writeEach_ok hwrite]
      refine ⟨(placeOf p x.1, .file x.2.value.pretty.toUTF8 executable) :: files,
        List.forall_mem_cons.2 ⟨⟨x, List.mem_cons_self, rfl⟩, fun y hy => ?_⟩, htree,
        fun t' hsame => ?_⟩
      · obtain ⟨z, hz, hyz⟩ := hfiles y hy
        exact ⟨z, List.mem_cons_of_mem _ hz, hyz⟩
      · -- The other files are beside this one, so it is where it was put.
        have hfile : t'.get? (placeOf p x.1) =
            some (.file x.2.value.pretty.toUTF8 executable) := by
          rw [hsame, htree, get?_putEach_of_ne _ fun y hy heq => ?_]
          · exact get?_put_self t _ hq
          · obtain ⟨z, hz, hyz⟩ := hfiles y hy
            exact hdifferent.1 z hz (placeOf_inj (heq.symm.trans hyz))
        have hwrite' : t'.write h.current (pathOf directory x.1) x.2.value.pretty.toUTF8 = .ok
            (t'.put (placeOf p x.1) (.file x.2.value.pretty.toUTF8 executable)) := by
          refine write_old hslash (resolve_of_entryAt (htargets.entryAt (fun q e hway he => ?_) hfile))
          rw [hsame]
          exact hkeeps q e hway he
        rw [run_writeEach_ok hwrite', hagain _ fun r => ?_]
        · rfl
        · by_cases hr : r = placeOf p x.1
          · rw [hr, get?_put_self _ _ hq, ← hsame, hfile]
          · rw [get?_put_of_ne _ _ hr, hsame]

/-! ## The whole writing -/

variable {d : Place} {r : Report}

theorem run_writeArtifacts_error {f : Fault}
    (hmake : t.makeDirectories h.current directory = (.error f, t')) :
    (r.writeArtifacts directory).run h t = (.error (.output directory f.text), t') := by
  have hrun : (Plan.call (.makeDirectories directory)).run h t =
    ((.error f : Except Fault Unit), t') := hmake
  unfold writeArtifacts
  rw [Plan.run_bind, hrun]
  rfl

theorem run_writeArtifacts_ok (hmake : t.makeDirectories h.current directory = (.ok (), t')) :
    (r.writeArtifacts directory).run h t = (writeEach directory r.distinct).run h t' := by
  have hrun : (Plan.call (.makeDirectories directory)).run h t =
    ((.ok () : Except Fault Unit), t') := hmake
  unfold writeArtifacts
  rw [Plan.run_bind, hrun]

/-- The writing of artifacts, once and again : it changes the directory only, and nothing the second
time. -/
structure Settles (h : Host) (r : Report) (directory : String) (p : Place) (t t' : FileTree) :
    Prop where
  apart : Apart {q | p <+: q} t t'
  keeps : KeepsWays t t'
  again : ∀ u, Apart ∅ t' u →
    ((r.writeArtifacts directory).run h u).1 = ((r.writeArtifacts directory).run h t).1 ∧
      Apart ∅ t' ((r.writeArtifacts directory).run h u).2

/-- Into a directory that is there artifacts are written for good. -/
theorem settles_of_made (hnames : ∀ x ∈ r.distinct, OfSnippet x.1)
    (hpath : Names t' h.current directory m d name) (hthere : t'.get? (d ++ [name]) = some .directory)
    (hlinkless : Linkless (d ++ [name]) t')
    (hmake : t.makeDirectories h.current directory = (.ok (), t'))
    (hapart : Apart {q | d ++ [name] <+: q} t t') (hkeeps : KeepsWays t t') :
    Settles h r directory (d ++ [name]) t ((r.writeArtifacts directory).run h t).2 := by
  obtain ⟨files, hfiles, htree, hagain⟩ := exists_puts hpath.ne_empty hnames r.pairwise_distinct
    (hpath.leads hthere) hlinkless
  have hkeeps' := ensures_writeEach_keepsWays (h := h) (t := t') directory r.distinct
  have hwithin : ∀ y ∈ files, y.1 ∈ {q | d ++ [name] <+: q} := by
    intro y hy
    obtain ⟨x, -, hplace⟩ := hfiles y hy
    rw [hplace]
    exact List.prefix_append _ _
  rw [run_writeArtifacts_ok hmake]
  refine ⟨?_, hkeeps.trans hkeeps', fun u hu => ?_⟩
  · rw [htree]
    exact hapart.trans (apart_putEach t' hwithin)
  · have hsame : ∀ q, u.get? q = ((writeEach directory r.distinct).run h t').2.get? q :=
      fun q => hu.get? (Set.notMem_empty q)
    have hkeepsU : KeepsWays t' u := fun q e hway he => (hsame q).trans (hkeeps' q e hway he)
    have hmake' : u.makeDirectories h.current directory = (.ok (), u) :=
      (hpath.mono hkeepsU).makeDirectories_directory (hkeepsU _ _ isWay_directory hthere)
    have hlast := hu.putEach files
    rw [htree, putEach_putEach] at hlast
    rw [run_writeArtifacts_ok hmake', hagain u hsame, run_writeArtifacts_ok hmake]
    refine ⟨rfl, ?_⟩
    rw [htree]
    exact hlast

/-- Artifacts that have been written are written again with the same result, and the tree stays what it
is, if the directory is at a name and no link is there or in it. -/
theorem settles_writeArtifacts (hnames : ∀ x ∈ r.distinct, OfSnippet x.1)
    (hpath : Names t h.current directory m d name)
    (hlink : ∀ target, t.get? (d ++ [name]) ≠ some (.link target))
    (hlinkless : Linkless (d ++ [name]) t) :
    Settles h r directory (d ++ [name]) t ((r.writeArtifacts directory).run h t).2 := by
  have hne := concat_ne_nil d name
  rcases hthere : t.get? (d ++ [name]) with _ | ⟨_ | ⟨content, executable⟩ | target⟩
  · have hkeeps := keepsWays_put hthere .directory
    exact settles_of_made hnames (hpath.mono hkeeps) (get?_put_self t _ hne)
      (hlinkless.mono (noNewLinks_put t hne fun _ => nofun)) (hpath.makeDirectories_free hthere)
      (apart_put t _ List.prefix_rfl) hkeeps
  · exact settles_of_made hnames hpath hthere hlinkless (hpath.makeDirectories_directory hthere)
      (.refl _ t) fun _ _ _ he => he
  · -- A file is in the way, both times.
    rw [run_writeArtifacts_error (hpath.points.makeDirectories_file hthere)]
    refine ⟨.refl _ t, fun _ _ _ he => he, fun u hu => ?_⟩
    have hsame : ∀ q, u.get? q = t.get? q := fun q => hu.get? (Set.notMem_empty q)
    have hpath' := hpath.mono fun q e _ he => (hsame q).trans he
    rw [run_writeArtifacts_error (hpath'.points.makeDirectories_file ((hsame _).trans hthere)),
      run_writeArtifacts_error (hpath.points.makeDirectories_file hthere)]
    exact ⟨rfl, hu⟩
  · exact absurd hthere (hlink target)

end Report

end EmbeddedSolidity
