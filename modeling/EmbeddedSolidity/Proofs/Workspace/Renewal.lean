import EmbeddedSolidity.Proofs.FileSystem.Apart
import EmbeddedSolidity.Proofs.Workspace.Contents
import EmbeddedSolidity.Proofs.Workspace.Refusal

/-!
# New workspaces

Whatever is at a root that denotes a place (nothing, a file, a link, an empty directory or an earlier
workspace with anything in it), a workspace that is made there has its manifest and an empty directory
for sources, and nothing else changes. A root that leads through itself need not denote its place : it
is removed, and then the same path leads elsewhere.

* `Workspace.cut_of_clear` : clearing the root leaves nothing there, and the rest as it was;
* `Workspace.renewed_of_create` : what a workspace is like that has been made;
* `Workspace.create_through_itself` : a root that leads through itself.
-/

namespace EmbeddedSolidity.Workspace

open FileSystem FileSystem.FileTree

variable {h : Host} {w : Workspace} {c : Config} {t t' : FileTree} {m : Nat} {d p : Place}
  {name solc : String} {e : Entry}

/-! ## Clearing the root -/

/-- A path with a slash at its end does not name a link. -/
def SlashOfDirectory (t : FileTree) (path : String) (p : Place) : Prop :=
  endsInSlash path = true → ∀ target, t.get? p ≠ some (.link target)

/-- What is at the root and is no directory is looked at, or the path asks for a directory. -/
theorem kind_other (hroot : Names t h.current w.root m d name)
    (hthere : t.get? (d ++ [name]) = some e) (hother : e ≠ .directory)
    (hslash : SlashOfDirectory t w.root (d ++ [name])) :
    (∃ k, t.kind h.current w.root = .ok k ∧ k ≠ .directory) ∧ endsInSlash w.root = false ∨
      t.kind h.current w.root = .error .notDirectory := by
  cases e with
  | directory => exact absurd rfl hother
  | file content executable =>
    rcases hroot.kind_file hthere with ⟨hkind, hend⟩ | ⟨hkind, -⟩
    · exact Or.inl ⟨⟨.file, hkind, nofun⟩, hend⟩
    · exact Or.inr hkind
  | link target =>
    have hend : endsInSlash w.root = false :=
      Bool.eq_false_iff.2 fun htrue => hslash htrue target hthere
    exact Or.inl ⟨⟨.link, hroot.kind_link hthere hend, nofun⟩, hend⟩

theorem removeExisting_unseen {f : Fault} (hkind : t.kind h.current w.root = .error f)
    (hf : f ≠ .notFound) :
    (removeExisting w.root).run h t = (.error (.workspace w.root f.text), t) := by
  unfold removeExisting
  rw [Plan.run_bind, Plan.run_call]
  dsimp only [Host.answer]
  rw [hkind]
  cases f <;> first | exact absurd rfl hf | rfl

/-- A root of the caller's choice at which a file or a link is is not cleared. -/
theorem removePrevious_other (hroot : Names t h.current w.root m d name)
    (hthere : t.get? (d ++ [name]) = some e) (hother : e ≠ .directory)
    (hslash : SlashOfDirectory t w.root (d ++ [name])) :
    ∃ error, (w.removePrevious.run h t).1 = .error error := by
  have hdeclined : ∃ error, Declined h w t error := by
    rcases kind_other hroot hthere hother hslash with ⟨⟨k, hkind, hk⟩, -⟩ | hkind
    · exact ⟨_, .other hkind hk⟩
    · exact ⟨_, .unseen hkind nofun⟩
  obtain ⟨error, hdeclined⟩ := hdeclined
  exact ⟨error, (ensures_removePrevious_declined hdeclined).1⟩

/-- If clearing the root succeeds, what was there is erased. -/
theorem eraseAll_of_clear (hwf : t.WellFormed) (hroot : Denotes t h.current c.root m d name)
    (hslash : SlashOfDirectory t c.root (d ++ [name]))
    (hclear : (clear c).run h t = (.ok (), t')) : t' = t.eraseAll (d ++ [name]) := by
  cases hthere : t.get? (d ++ [name]) with
  | none =>
    have hrun : (clear c).run h t = (.ok (), t) := by
      unfold clear
      split
      · exact removeExisting_free (w := ⟨c.root⟩) hroot.names hthere
      · exact removePrevious_free hroot.names hthere
    rw [hrun] at hclear
    cases hclear
    exact (eraseAll_of_free (concat_ne_nil d name) (hwf.cut hthere).free).symm
  | some e =>
    unfold clear at hclear
    by_cases hdirectory : e = .directory
    · subst hdirectory
      split at hclear
      · rw [removeExisting_directory (w := ⟨c.root⟩) hroot hthere] at hclear
        cases hclear
        rfl
      · obtain ⟨hyes, hno⟩ := removePrevious_directory (w := ⟨c.root⟩) hroot hthere
        by_cases hreplaced : t.names (d ++ [name]) = [] ∨ Generated h ⟨c.root⟩ t
        · rw [hyes hreplaced] at hclear
          cases hclear
          rfl
        · rw [hno hreplaced] at hclear
          cases hclear
    · have hother : t.get? (d ++ [name]) ≠ some .directory := by
        rw [hthere]
        exact fun heq => hdirectory (Option.some.inj heq)
      split at hclear
      · rcases kind_other (w := ⟨c.root⟩) hroot.names hthere hdirectory hslash with ⟨-, hend⟩ | hkind
        · rw [removeExisting_other (w := ⟨c.root⟩) hroot.names hthere hdirectory hend] at hclear
          cases hclear
          exact (eraseAll_of_free_below fun q hq => hwf.free_below hother hq).symm
        · rw [removeExisting_unseen (w := ⟨c.root⟩) hkind nofun] at hclear
          cases hclear
      · obtain ⟨error, hrun⟩ := removePrevious_other (w := ⟨c.root⟩) hroot.names hthere hdirectory hslash
        rw [hclear] at hrun
        cases hrun

/-- If clearing the root succeeds, nothing is left there, and the rest is as it was. -/
theorem cut_of_clear (hwf : t.WellFormed) (hroot : Denotes t h.current c.root m d name)
    (hslash : SlashOfDirectory t c.root (d ++ [name]))
    (hclear : (clear c).run h t = (.ok (), t')) : Cut (d ++ [name]) t t' := by
  rw [eraseAll_of_clear hwf hroot hslash hclear]
  exact cut_eraseAll t (concat_ne_nil d name)

/-! ## Reading where nothing is -/

theorem textAt_of_resolve_error {path : String} {f : Fault}
    (hresolve : t.resolve h.current true path = .error f) : Plan.textAt h t path = .error f := by
  have hread : t.read h.current path = .error f := by
    unfold FileTree.read entryAt
    rw [hresolve]
    rfl
  unfold Plan.textAt
  rw [hread]

/-- The error of an artifact that is missing; of a path that is too long this cannot be told. -/
def missing (w : Workspace) (id : Snippet.Id) : Error :=
  .artifact id (w.artifactPath id) <|
    if (w.artifactPath id).utf8ByteSize < maxPath then "artifact file not found"
    else "failed to read: " ++ Fault.nameTooLong.text

/-- Where no artifacts are, none is read. -/
theorem readArtifact_free (hleads : Leads t h.current w.root m p)
    (hfree : t.get? (p ++ [Manifest.outputDirectory]) = none) (text : String) :
    (w.readArtifact (.ofText text)).run h t = (.error (w.missing (.ofText text)), t) := by
  obtain ⟨hnul, hempty, -⟩ := pathFault?_eq_none_iff.1 hleads.fault
  have hnames := named_artifactPath text
  have hsimple := fun name hname => (hnames name hname).simple
  have hfault := pathFault?_foldl_join_eq hempty hnul hsimple fun name hname =>
    (hnames name hname).noNul
  rw [← artifactPath_eq] at hfault
  unfold readArtifact missing
  rw [Plan.run_bind, Plan.run_readText]
  by_cases hlong : maxPath ≤ (w.artifactPath (.ofText text)).utf8ByteSize
  · rw [if_pos hlong] at hfault
    rw [textAt_of_resolve_error (resolve_of_fault hfault), if_neg (Nat.not_lt.2 hlong)]
    rfl
  · rw [if_neg hlong, artifactPath_eq] at hfault
    have hresolve : t.resolve h.current true _ = _ :=
      resolve_of_leads hempty hsimple (List.cons_ne_nil _ _) hfault hleads
    rw [walk_plain named_artifacts.plain, hfree] at hresolve
    dsimp only at hresolve
    rw [if_neg (by simp [(Snippet.Id.named_sourceFile text).plain.1]), ← artifactPath_eq] at hresolve
    rw [textAt_of_resolve_error hresolve, if_pos (Nat.not_le.1 hlong)]
    rfl

/-! ## What is made -/

/-- A workspace is made only if the path of its manifest can be resolved. -/
theorem pathFault?_of_create (hmade : ((create c).run h t).1 = .ok w) :
    pathFault? (manifestPath ⟨c.root⟩) = none := by
  have hensures : Plan.Ensures h (create c) t fun r _ =>
      ∀ w, r = .ok w → pathFault? (manifestPath ⟨c.root⟩) = none := by
    refine Plan.ensures_andThen (P := fun _ _ => True) trivial (fun _ _ _ => nofun) fun _ t' _ => ?_
    refine (ensures_build h ⟨c.root⟩ c.solc t').mono fun r t'' hbuilt w hw => ?_
    cases hbuilt with
    | failed e _ => cases hw
    | written _ _ _ htargets =>
      obtain ⟨found, hfound, -⟩ := htargets
      exact pathFault?_of_resolveNames hfound
  exact hensures w hmade

/-- A workspace that has been made is there, and nothing else changed. -/
theorem shows_of_create (hwf : t.WellFormed) (hroot : Denotes t h.current c.root m d name)
    (hslash : SlashOfDirectory t c.root (d ++ [name]))
    (hmade : ((create c).run h t).1 = .ok w) :
    w = ⟨c.root⟩ ∧ Leads ((create c).run h t).2 h.current c.root m (d ++ [name]) ∧
      Shows (d ++ [name]) (some ⟨c.solc, []⟩) ((create c).run h t).2 ∧
      SameApart (d ++ [name]) t ((create c).run h t).2 := by
  have hmanifest := pathFault?_of_create hmade
  obtain ⟨cleared, hclear⟩ : ∃ cleared, (clear c).run h t = (.ok (), cleared) := by
    rcases hrun : (clear c).run h t with ⟨error | ⟨⟨⟩⟩, cleared⟩
    · have hcreate : (create c).run h t = (.error error, cleared) := Plan.run_andThen_error hrun
      rw [hcreate] at hmade
      cases hmade
    · exact ⟨cleared, rfl⟩
  have hcut := cut_of_clear hwf hroot hslash hclear
  have hnames : Names cleared h.current c.root m d name := (hroot.congr hcut.same).names
  rw [create_of_clear hclear hnames hcut.free hmanifest] at hmade ⊢
  have hshows : Shows (d ++ [name]) (some ⟨c.solc, []⟩) (built (d ++ [name]) c.solc cleared) :=
    shows_built (concat_ne_nil d name) hcut.free
  have hsame := hcut.same.trans (sameApart_built (d ++ [name]) c.solc cleared)
  exact ⟨(Except.ok.inj hmade).symm, (hroot.congr hsame).names.leads hshows.root, hshows, hsame⟩

/-- The root leads to its place, where a new workspace is; elsewhere nothing changed. -/
structure Renewed (h : Host) (c : Config) (p : Place) (t t' : FileTree) : Prop where
  leads : ∃ m, Leads t' h.current c.root m p
  shows : Shows p (some ⟨c.solc, []⟩) t'
  same : SameApart p t t'
  /-- No artifact is there to be read. -/
  artifact : ∀ text, (readArtifact ⟨c.root⟩ (.ofText text)).run h t' =
    (.error (missing ⟨c.root⟩ (.ofText text)), t')

/-- A workspace that has been made at a root that denotes a place is new, whatever was there. -/
theorem renewed_of_create (hwf : t.WellFormed) (hroot : Denotes t h.current c.root m d name)
    (hslash : SlashOfDirectory t c.root (d ++ [name]))
    (hmade : ((create c).run h t).1 = .ok w) :
    w = ⟨c.root⟩ ∧ Renewed h c (d ++ [name]) t ((create c).run h t).2 := by
  obtain ⟨hw, hleads, hshows, hsame⟩ := shows_of_create hwf hroot hslash hmade
  exact ⟨hw, ⟨m, hleads⟩, hshows, hsame,
    readArtifact_free (w := ⟨c.root⟩) hleads (hshows [Manifest.outputDirectory])⟩

/-! ## An earlier workspace with a link in it -/

/-- An earlier workspace with a source, and with a link to a file beside it. -/
def stale : FileTree :=
  ⟨[(["d"], .directory), (["d", "notes.txt"], .file "keep me".toUTF8 false),
    (["d", "w"], .directory),
    (["d", "w", Manifest.fileName],
      .file (Manifest.ofVersion Manifest.defaultSolc).render.toUTF8 false),
    (["d", "w", Manifest.sourceDirectory], .directory),
    (["d", "w", Manifest.sourceDirectory, "old.sol"], .file "contract Old {}".toUTF8 false),
    (["d", "w", "notes.txt"], .link "../notes.txt")]⟩

theorem renewed_stale : endsInSlash "d/w" = false ∧
    ((create (chosen "d/w")).run bare stale).1 = .ok ⟨"d/w"⟩ ∧
      Renewed bare (chosen "d/w") ["d", "w"] stale ((create (chosen "d/w")).run bare stale).2 := by
  have hmade : ((create (chosen "d/w")).run bare stale).1 = .ok ⟨"d/w"⟩ := by decide +kernel
  have hroot : Denotes stale [] "d/w" maxLinks ["d"] "w" :=
    ⟨by decide +kernel, by decide, by decide, ["d"], by decide +kernel,
      .down (by decide) (by decide) (.nil _ _)⟩
  have hslash : endsInSlash "d/w" = false := by decide
  refine ⟨hslash, hmade, ?_⟩
  exact (renewed_of_create (h := bare) (c := chosen "d/w") (wellFormed_of_entries (by decide +kernel))
    hroot (fun htrue => absurd (hslash.symm.trans htrue) Bool.false_ne_true) hmade).2

/-! ## A root that leads through itself -/

/-- An earlier workspace with a link to a directory that is deeper than itself, and a project. -/
def winding : FileTree :=
  ⟨[(["d"], .directory), (["d", "w"], .directory),
    (["d", "w", Manifest.fileName],
      .file (Manifest.ofVersion Manifest.defaultSolc).render.toUTF8 false),
    (["d", "w", "x"], .link "../a/b/c"),
    (["d", "a"], .directory), (["d", "a", "b"], .directory), (["d", "a", "b", "c"], .directory),
    (["w"], .directory), (["w", Manifest.fileName], .file "[profile.default]\n".toUTF8 false),
    (["w", Manifest.sourceDirectory], .directory),
    (["w", Manifest.sourceDirectory, "old.sol"], .file "contract Old {}".toUTF8 false)]⟩

/-- A root that leads to the earlier workspace through the link in it. -/
def throughItself : String :=
  "d/w/x/../../../w"

theorem names_throughItself : ∃ m, Names winding [] throughItself m ["d"] "w" := by
  have hwalk : winding.walk true maxLinks (startOf [] throughItself)
      ["d", "w", "x", "..", "..", ".."] = .ok (.entry ["d"] .directory) := by
    decide +kernel
  obtain ⟨m, hreach⟩ := reaches_of_walk hwalk
  exact ⟨m, by decide +kernel, by decide, by decide, _, by decide +kernel, hreach⟩

/-- The root names the place of an earlier workspace in a directory. Once this is emptied, the root
leads to the project : its manifest is overwritten, and its source is in the new workspace. -/
theorem create_through_itself :
    (∃ m, Names winding [] throughItself m ["d"] "w") ∧
      ((create (chosen throughItself)).run bare winding).1 = .ok ⟨throughItself⟩ ∧
      ((create (chosen throughItself)).run bare winding).2.entryAt [] true throughItself =
        .ok (["w"], .directory) ∧
      ((create (chosen throughItself)).run bare winding).2.get? ["w", Manifest.fileName] ≠
        winding.get? ["w", Manifest.fileName] ∧
      ((create (chosen throughItself)).run bare winding).2.names ["w", Manifest.sourceDirectory] =
        ["old.sol"] :=
  ⟨names_throughItself, by decide +kernel, by decide +kernel, by decide +kernel, by decide +kernel⟩

end EmbeddedSolidity.Workspace
