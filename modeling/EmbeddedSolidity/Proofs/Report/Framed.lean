import EmbeddedSolidity.Proofs.FileSystem.Filling
import EmbeddedSolidity.Proofs.Plan.Sound
import EmbeddedSolidity.Proofs.Report.Output

/-!
# Writing artifacts beside other work

The directory of the artifacts may be missing, with others above it, and two runs may need the same
ones above theirs. Each makes those that it finds missing, and then writes into its own directory
only. So it goes alike whatever others have made or written.

* `Report.Admits` : a frame that has the directory of the artifacts;
* `Report.Admits.along_writeArtifacts` : every call of the writing.
-/

namespace EmbeddedSolidity

open FileSystem FileSystem.FileTree

variable {h : Host} {t t' base : FileTree} {m : Nat} {d p : Place} {names : List String}
  {directory file : String} {above : Set Place} {F : Frame}

namespace FileSystem.FileTree

/-- A file without a link in its place is at the same place in trees that have the same there. -/
theorem Leads.resolve_entry {current : Place} (hleads : Leads t current directory m p)
    (hleads' : Leads t' current directory m p) (hfile : Workspace.Named file)
    (hlink : ∀ target, t.get? (p ++ [file]) ≠ some (.link target))
    (hp : t'.get? p = t.get? p) (hsame : t'.get? (p ++ [file]) = t.get? (p ++ [file])) :
    t'.resolve current true (Path.join directory file) =
        t.resolve current true (Path.join directory file) ∧
      ∀ r, t.resolve current true (Path.join directory file) = .ok r → r.place = p ++ [file] := by
  have hbase : directory ≠ "" := (pathFault?_eq_none_iff.1 hleads.fault).2.1
  have hsimple := List.forall_mem_singleton.2 hfile.simple
  have hjoin : [file].foldl Path.join directory = Path.join directory file := rfl
  cases hfault : pathFault? (Path.join directory file) with
  | some f =>
    rw [resolve_of_fault hfault, resolve_of_fault hfault]
    exact ⟨rfl, nofun⟩
  | none =>
    rw [← hjoin] at hfault ⊢
    rw [resolve_of_leads hbase hsimple (List.cons_ne_nil _ _) hfault hleads,
      resolve_of_leads hbase hsimple (List.cons_ne_nil _ _) hfault hleads',
      walk_plain hfile.plain, walk_plain hfile.plain, hsame, hp]
    rcases hthere : t.get? (p ++ [file]) with _ | ⟨_ | _ | target⟩
    · refine ⟨rfl, fun r hr => ?_⟩
      dsimp only at hr
      split_ifs at hr
      cases hr
      rfl
    · refine ⟨by rw [walk_nil, walk_nil], fun r hr => ?_⟩
      dsimp only at hr
      rw [walk_nil] at hr
      cases hr
      rfl
    · refine ⟨rfl, fun r hr => ?_⟩
      cases hr
      rfl
    · exact absurd hthere (hlink target)

end FileSystem.FileTree

/-- Writing a file keeps directories and links. -/
theorem Host.keepsWays_write (h : Host) (t : FileTree) (path : String) (content : ByteArray) :
    KeepsWays t (h.answer t (.write path content)).2 ∧
      NoNewLinks t (h.answer t (.write path content)).2 := by
  change KeepsWays t (t.keeping (t.write h.current path content)).2 ∧
    NoNewLinks t (t.keeping (t.write h.current path content)).2
  cases hwrite : t.write h.current path content with
  | error f => exact ⟨fun _ _ _ he => he, .refl t⟩
  | ok t' =>
    obtain ⟨q, executable, rfl, htargets⟩ := write_eq_ok hwrite
    exact ⟨htargets.keepsWays, noNewLinks_put t htargets.not_way.1 fun _ => nofun⟩

namespace Report

/-- The frame has the directory `d ++ names` of a path : what is in it is its own. So are the places
above it, as far as they are in the frame's own region only; of the others the base decides whether
there is something, and then nobody takes it away, or whether directories are made. -/
structure Admits (h : Host) (directory : String) (m : Nat) (d : Place) (names : List String)
    (base : FileTree) (above : Set Place) (F : Frame) : Prop where
  good : F.good = Sound base above
  points : Points base h.current directory m d names
  own : ∀ q, d ++ names <+: q → q ∈ F.own
  other : ∀ q, d ++ names <+: q → q ∉ F.other
  apart : ∀ q, d ++ names <+: q → q ∉ above
  chain : ∀ xs, xs <+: names → d ++ xs ∈ F.own ∧ d ++ xs ∉ F.other ∨
    d ++ xs ∈ above ∧ (base.get? (d ++ xs) = none ∧ d ++ xs ∈ F.own ∨
      base.get? (d ++ xs) ≠ none ∧ d ++ xs ∉ F.other)

/-- Nothing but directories is in a place, in both trees. -/
def OnlyDirectories (t t' : FileTree) (q : Place) : Prop :=
  (∀ e, t.get? q = some e → e = .directory) ∧ ∀ e, t'.get? q = some e → e = .directory

/-- The missing directories of a path are made in both trees, or the same file is in the way. -/
theorem agrees_makeDirectories {Z : Set Place} (hpoints : Points t h.current directory m d names)
    (hpoints' : Points t' h.current directory m d names) (hwf : t.WellFormed) (hwf' : t'.WellFormed)
    (hlinks : ∀ xs, xs <+: names → ∀ target, t.get? (d ++ xs) ≠ some (.link target))
    (hsame : ∀ xs, xs <+: names →
      t'.get? (d ++ xs) = t.get? (d ++ xs) ∨ OnlyDirectories t t' (d ++ xs))
    (hmissing : ∀ xs, xs <+: names → t'.get? (d ++ xs) = none → d ++ xs ∈ Z) :
    (Call.makeDirectories directory).Agrees h Z t t' := by
  have hlinks' : ∀ xs, xs <+: names → ∀ target, t'.get? (d ++ xs) ≠ some (.link target) := by
    intro xs hxs target hlink
    rcases hsame xs hxs with heq | ⟨-, hdirectory⟩
    · exact hlinks xs hxs target (heq ▸ hlink)
    · cases hdirectory _ hlink
  have hfile : ∀ {xs content executable}, xs <+: names →
      (t.get? (d ++ xs) = some (.file content executable) ↔
        t'.get? (d ++ xs) = some (.file content executable)) := by
    intro xs content executable hxs
    rcases hsame xs hxs with heq | ⟨honly, honly'⟩
    · rw [heq]
    · exact ⟨fun he => absurd (honly _ he) nofun, fun he => absurd (honly' _ he) nofun⟩
  rcases hpoints.makeDirectories_cases hwf hlinks with
    ⟨hclear, hmake⟩ | ⟨xs, rest, content, executable, rfl, hthere, hmake⟩ <;>
  rcases hpoints'.makeDirectories_cases hwf' hlinks' with
    ⟨hclear', hmake'⟩ | ⟨xs', rest', content', executable', hnames, hthere', hmake'⟩
  · refine ⟨?_, fun Y hapart => ?_, ?_⟩
    · change (t'.makeDirectories h.current directory).1 = (t.makeDirectories h.current directory).1
      rw [hmake, hmake']
    · change Apart Y (t.makeDirectories h.current directory).2
        (t'.makeDirectories h.current directory).2
      rw [hmake, hmake']
      exact hapart.fill d names
    · change Apart Z t' (t'.makeDirectories h.current directory).2
      rw [hmake']
      exact apart_fill t' d names fun xs _ hxs hnone => hmissing xs hxs hnone
  · have hxs' : xs' <+: names := hnames ▸ List.prefix_append xs' rest'
    cases hclear xs' hxs' _ ((hfile hxs').2 hthere')
  · have hxs := List.prefix_append xs rest
    cases hclear' xs hxs _ ((hfile hxs).1 hthere)
  · -- At most one file is on the way to a directory.
    have hxs := List.prefix_append xs rest
    have hxs' : xs' <+: xs ++ rest := hnames ▸ List.prefix_append xs' rest'
    obtain rfl := hwf'.eq_of_file hxs hxs' ((hfile hxs).1 hthere) hthere'
    obtain rfl := List.append_cancel_left hnames
    exact Call.agrees_of_unchanged Z hmake hmake'

variable (hA : Admits h directory m d names base above F)

include hA

theorem Admits.points_of_good (hs : F.good t) : Points t h.current directory m d names := by
  rw [hA.good] at hs
  exact hA.points.mono hs.keeps

theorem Admits.wellFormed_of_good (hs : F.good t) : t.WellFormed := by
  rw [hA.good] at hs
  exact hs.wellFormed

/-- The missing directories are made alike. -/
theorem Admits.allows_makeDirectories (hs : F.good t)
    (hlinks : ∀ xs, xs <+: names → ∀ target, t.get? (d ++ xs) ≠ some (.link target)) :
    F.Allows h (.makeDirectories directory) t := by
  refine Frame.allows_of_agrees (Z := F.own) (fun _ => id) (fun t' hapart hs' => ?_)
    fun t' _ hs' => ?_
  · refine agrees_makeDirectories (hA.points_of_good hs) (hA.points_of_good hs')
      (hA.wellFormed_of_good hs) (hA.wellFormed_of_good hs') hlinks (fun xs hxs => ?_)
      fun xs hxs hnone => ?_
    · rw [hA.good] at hs hs'
      rcases hA.chain xs hxs with ⟨-, hother⟩ | ⟨habove, ⟨hfree, -⟩ | ⟨-, hother⟩⟩
      · exact Or.inl (hapart.get? hother)
      · refine Or.inr ⟨fun e he => ?_, fun e he => ?_⟩
        · exact (hs.grown _ habove e he).resolve_left (by rw [hfree]; nofun)
        · exact (hs'.grown _ habove e he).resolve_left (by rw [hfree]; nofun)
      · exact Or.inl (hapart.get? hother)
    · rw [hA.good] at hs'
      rcases hA.chain xs hxs with ⟨hown, -⟩ | ⟨habove, ⟨-, hown⟩ | ⟨hthere, -⟩⟩
      · exact hown
      · exact hown
      · obtain ⟨e, he⟩ := Option.ne_none_iff_exists'.1 hthere
        rw [hs'.stays _ habove e he] at hnone
        cases hnone
  · rw [hA.good] at hs' ⊢
    exact hs'.adds (adds_makeDirectories t' h.current directory)

/-- An artifact is written alike. -/
theorem Admits.allows_write (hs : F.good t) (hthere : t.get? (d ++ names) = some .directory)
    (hlinkless : Linkless (d ++ names) t) {name : String} (hname : OfSnippet name)
    (content : ByteArray) : F.Allows h (.write (pathOf directory name) content) t := by
  have hself : d ++ names <+: d ++ names := List.prefix_rfl
  refine Frame.allows_of_agrees (Z := {q | d ++ names <+: q}) (fun q hq => hA.own q hq)
    (fun t' hapart hs' => ?_) fun t' hwithin hs' => ?_
  · have hthere' : t'.get? (d ++ names) = some .directory :=
      (hapart.get? (hA.other _ hself)).trans hthere
    have hleads := (hA.points_of_good hs).leads (hA.wellFormed_of_good hs) hthere
    have hleads' := (hA.points_of_good hs').leads (hA.wellFormed_of_good hs') hthere'
    obtain ⟨hresolve, hplace⟩ := hleads.resolve_entry hleads' hname.named (hlinkless _)
      (hthere'.trans hthere.symm) (hapart.get? (hA.other _ (List.prefix_append _ _)))
    refine Call.agrees_write (Path.endsInSlash_join hname.named.simple) hresolve fun r hr _ => ?_
    rw [hplace r hr]
    exact List.prefix_append _ _
  · have hwf := h.wellFormed_answer (hA.wellFormed_of_good hs')
      (c := .write (pathOf directory name) content) id
    rw [hA.good] at hs' ⊢
    exact hs'.of_apart (fun q hq => hA.apart q hq) hwithin hwf
      (hs'.keeps.trans (h.keepsWays_write t' _ content).1)

/-- Artifacts are written one after the other, each alike. -/
theorem Admits.along_writeEach {written : List (String × Artifact)}
    (hnames : ∀ x ∈ written, OfSnippet x.1) (hs : F.good t)
    (hthere : t.get? (d ++ names) = some .directory) (hlinkless : Linkless (d ++ names) t) :
    Plan.Along h (F.Allows h) (writeEach directory written) t fun _ _ => True := by
  induction written generalizing t with
  | nil => trivial
  | cons x rest ih =>
    rw [List.forall_mem_cons] at hnames
    have hallows := hA.allows_write hs hthere hlinkless hnames.1 x.2.value.pretty.toUTF8
    obtain ⟨hkeeps, hlinks⟩ := h.keepsWays_write t (pathOf directory x.1) x.2.value.pretty.toUTF8
    refine Plan.Along.bind (P := fun _ u => F.good u ∧ u.get? (d ++ names) = some .directory ∧
      Linkless (d ++ names) u) (.call hallows ⟨(hallows t (.refl _ t) hs).2.2.2,
        hkeeps _ _ isWay_directory hthere, hlinkless.mono hlinks⟩) ?_
    rintro (f | ok) u ⟨hs', hthere', hlinkless'⟩
    · trivial
    · exact (ih hnames.2 hs' hthere' hlinkless').bind fun _ _ _ => trivial

/-- All artifacts of a report are written alike. -/
theorem Admits.along_writeArtifacts {r : Report} (hnames : ∀ x ∈ r.distinct, OfSnippet x.1)
    (hs : F.good t) (hlinks : ∀ xs, xs <+: names → ∀ target, t.get? (d ++ xs) ≠ some (.link target))
    (hlinkless : Linkless (d ++ names) t) :
    Plan.Along h (F.Allows h) (r.writeArtifacts directory) t fun _ _ => True := by
  have hallows := hA.allows_makeDirectories hs hlinks
  refine Plan.Along.bind (P := fun answer u => answer = .ok () → F.good u ∧
    u.get? (d ++ names) = some .directory ∧ Linkless (d ++ names) u) (.call hallows ?_) ?_
  · have hadds := adds_makeDirectories t h.current directory
    intro hok
    refine ⟨(hallows t (.refl _ t) hs).2.2.2, ?_, hlinkless.mono hadds.noNewLinks⟩
    have hpoints := hA.points_of_good hs
    rcases hpoints.makeDirectories_cases (hA.wellFormed_of_good hs) hlinks with
      ⟨hclear, hmake⟩ | ⟨xs, rest, content, executable, -, -, hmake⟩
    · change (t.makeDirectories h.current directory).2.get? _ = _
      rw [hmake]
      exact get?_fill t hpoints.directory hclear
    · change (t.makeDirectories h.current directory).1 = _ at hok
      rw [hmake] at hok
      cases hok
  · rintro (f | ok) u hu
    · trivial
    · obtain ⟨hs', hthere, hlinkless'⟩ := hu rfl
      exact hA.along_writeEach hnames hs' hthere hlinkless'

end Report

end EmbeddedSolidity
