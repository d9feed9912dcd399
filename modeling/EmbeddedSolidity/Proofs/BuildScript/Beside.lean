import EmbeddedSolidity.Proofs.BuildScript.Job
import EmbeddedSolidity.Proofs.Plan.Frame

/-!
# Jobs side by side

Two jobs share a tree, the calls of the one between those of the other in any order. If their roots and
output directories are apart, and neither looks at what the other one changes, each ends as it does
alone. Directories that are missing above both output directories are made by the one or the other.

* `Site.region` : what a job may change;
* `Job.alone_of_interleaved` : jobs side by side.
-/

namespace EmbeddedSolidity

open FileSystem FileSystem.FileTree Workspace

/-- Neither of two places is at the other or below it. -/
def Separate (p q : Place) : Prop :=
  ¬ p <+: q ∧ ¬ q <+: p

theorem Separate.symm {p q : Place} (hpq : Separate p q) : Separate q p :=
  ⟨hpq.2, hpq.1⟩

/-- No place is at or below both of two separate places. -/
theorem Separate.not_prefix {p q r : Place} (hpq : Separate p q) (hp : p <+: r) : ¬ q <+: r :=
  fun hq => (List.prefix_or_prefix_of_prefix hp hq).elim hpq.1 hpq.2

namespace Site

variable {h : Host} {root output : String} {s s' : Site} {base t : FileTree}

/-- The places above the output directory that are not in the workspace. -/
def above (s : Site) : Set Place :=
  {q | Below q s.output ∧ ¬ s.root <+: q}

/-- What a job may change : what is at its root and in its output directory, and directories that are
missing above this one. -/
def region (s : Site) (t : FileTree) : Set Place :=
  {q | s.root <+: q ∨ s.output <+: q ∨ q ∈ s.above ∧ t.get? q = none}

/-- The root and the output directory of the one are apart from those of the other. -/
structure Separate (s s' : Site) : Prop where
  roots : EmbeddedSolidity.Separate s.root s'.root
  outputs : EmbeddedSolidity.Separate s.output s'.output
  rootOutput : EmbeddedSolidity.Separate s.root s'.output
  outputRoot : EmbeddedSolidity.Separate s.output s'.root

theorem Separate.symm (hss : s.Separate s') : s'.Separate s :=
  ⟨hss.roots.symm, hss.outputs.symm, hss.outputRoot.symm, hss.rootOutput.symm⟩

/-- Nothing of a workspace is above the output directory of the other job. -/
theorem Separate.root_not_above (hss : s.Separate s') {q : Place} (hq : s.root <+: q) :
    q ∉ s'.above :=
  fun habove => hss.rootOutput.1 (hq.trans habove.1.1)

theorem Separate.output_not_above (hss : s.Separate s') {q : Place} (hq : s.output <+: q) :
    q ∉ s'.above :=
  fun habove => hss.outputs.1 (hq.trans habove.1.1)

theorem Separate.root_not_region (hss : s.Separate s') {q : Place} (hq : s.root <+: q) :
    q ∉ s'.region t
  | Or.inl hroot => hss.roots.not_prefix hq hroot
  | Or.inr (Or.inl houtput) => hss.rootOutput.not_prefix hq houtput
  | Or.inr (Or.inr ⟨habove, _⟩) => hss.root_not_above hq habove

theorem Separate.output_not_region (hss : s.Separate s') {q : Place} (hq : s.output <+: q) :
    q ∉ s'.region t
  | Or.inl hroot => hss.outputRoot.not_prefix hq hroot
  | Or.inr (Or.inl houtput) => hss.outputs.not_prefix hq houtput
  | Or.inr (Or.inr ⟨habove, _⟩) => hss.output_not_above hq habove

/-- The tree without what is at the two roots. -/
def cleared (s s' : Site) (t : FileTree) : FileTree :=
  (t.eraseAll s.root).eraseAll s'.root

theorem root_ne_nil (s : Site) : s.root ≠ [] :=
  concat_ne_nil _ _

theorem get?_cleared_of_root {q : Place} (hq : s.root <+: q ∨ s'.root <+: q) :
    (cleared s s' t).get? q = none := by
  unfold cleared
  by_cases hroot' : s'.root <+: q
  · exact get?_eraseAll_eq_none _ s'.root_ne_nil hroot'
  · rw [sameApart_eraseAll _ _ q hroot']
    exact get?_eraseAll_eq_none t s.root_ne_nil (hq.resolve_right hroot')

theorem get?_cleared {q : Place} (hq : ¬ s.root <+: q) (hq' : ¬ s'.root <+: q) :
    (cleared s s' t).get? q = t.get? q := by
  unfold cleared
  rw [sameApart_eraseAll _ _ q hq', sameApart_eraseAll _ _ q hq]

/-- The frame of a job beside another one. -/
theorem Separate.fits (hss : s.Separate s') {others : Set Place}
    (hfree : ∀ q, s.root <+: q → base.get? q = none)
    (hbase : ∀ q, ¬ s.root <+: q → ¬ s'.root <+: q → base.get? q = t.get? q)
    (hothers : ∀ q, q ∈ others ↔ q ∈ s.above ∨ q ∈ s'.above)
    (hnames : Names base h.current root s.rootLinks s.rootIn s.rootName)
    (hpoints : Points base h.current output s.outputLinks s.outputIn s.outputNames) :
    s.Fits h root output base others ⟨s.region t, s'.region t, Sound base others⟩ where
  names := hnames
  own := fun q hq => Or.inl hq
  other := fun q hq => hss.root_not_region hq
  apart := fun q hq hmem => ((hothers q).1 hmem).elim (fun habove => habove.2 hq)
    (hss.root_not_above hq)
  free := hfree
  admits :=
    { good := rfl
      points := hpoints
      own := fun q hq => Or.inr (Or.inl hq)
      other := fun q hq => hss.output_not_region hq
      apart := fun q hq hmem => ((hothers q).1 hmem).elim
        (fun habove => habove.1.2 (List.IsPrefix.eq_of_length_le habove.1.1 hq.length_le).symm)
        (hss.output_not_above hq)
      chain := fun xs hxs => by
        have hle : s.outputIn ++ xs <+: s.output := (List.prefix_append_right_inj _).2 hxs
        by_cases heq : s.output = s.outputIn ++ xs
        · have hself : s.output <+: s.outputIn ++ xs := heq ▸ List.prefix_rfl
          exact Or.inl ⟨Or.inr (Or.inl hself), hss.output_not_region hself⟩
        by_cases hroot : s.root <+: s.outputIn ++ xs
        · exact Or.inl ⟨Or.inl hroot, hss.root_not_region hroot⟩
        have habove : s.outputIn ++ xs ∈ s.above := ⟨⟨hle, heq⟩, hroot⟩
        have hother : ¬ s'.root <+: s.outputIn ++ xs := fun hroot' =>
          hss.outputRoot.2 (hroot'.trans hle)
        refine Or.inr ⟨(hothers _).2 (Or.inl habove), ?_⟩
        rw [hbase _ hroot hother]
        by_cases hnone : t.get? (s.outputIn ++ xs) = none
        · exact Or.inl ⟨hnone, Or.inr (Or.inr ⟨habove, hnone⟩)⟩
        · refine Or.inr ⟨hnone, ?_⟩
          rintro (hroot' | houtput' | ⟨-, hfree'⟩)
          · exact hother hroot'
          · exact hss.outputs.2 (houtput'.trans hle)
          · exact hnone hfree' }

end Site

namespace Job

/-- Where a job works : its root is a name in a directory and its output directory lies behind one,
reached without the places of the base that are erased, and no link is in or on the way to the output
directory. It does not look at what others may change. -/
structure WorksAt (h : Host) (j : Job) (s : Site) (base t : FileTree) (others : Set Place) :
    Prop where
  names : Names base h.current j.root s.rootLinks s.rootIn s.rootName
  slash : SlashOfDirectory t j.root s.root
  points : Points base h.current j.output s.outputLinks s.outputIn s.outputNames
  chain : ∀ xs, xs <+: s.outputNames → ∀ target, t.get? (s.outputIn ++ xs) ≠ some (.link target)
  linkless : Linkless s.output t
  overlooks : j.Overlooks h s.root others t
  manifest : j.options.workspace ≠ none → (Call.read (manifestPath ⟨j.root⟩)).Avoids h others t

variable {h h₁ h₂ : Host} {j j₁ j₂ : Job} {s s₁ s₂ : Site} {base t t' : FileTree}
  {above others : Set Place} {F : Frame}

theorem WorksAt.along (hj : j.WorksAt h s base t F.other)
    (hfits : s.Fits h j.root j.output base above F) (hgood : F.good t) :
    Plan.Along h (F.Allows h) j.plan t fun _ _ => True :=
  Job.along hfits hgood hj.slash hj.overlooks
    (fun hchosen => Frame.allows_look trivial (hj.manifest hchosen)) hj.chain hj.linkless

/-- At the beginning the tree is sound. -/
theorem sound_cleared (hwf : t.WellFormed) (hss : s₁.Separate s₂) :
    Sound (s₁.cleared s₂ t) (s₁.above ∪ s₂.above) t := by
  have hsame : ∀ q ∈ s₁.above ∪ s₂.above, (s₁.cleared s₂ t).get? q = t.get? q := by
    rintro q (habove | habove)
    · exact Site.get?_cleared habove.2 fun hroot => hss.symm.root_not_above hroot habove
    · exact Site.get?_cleared (fun hroot => hss.root_not_above hroot habove) habove.2
  refine ⟨hwf, fun q e _ he => ?_, fun q hq e he => (hsame q hq).symm.trans he, fun q hq e he =>
    Or.inl ((hsame q hq).trans he)⟩
  rw [← he]
  refine (Site.get?_cleared (fun hroot => ?_) fun hroot => ?_).symm
  · rw [Site.get?_cleared_of_root (Or.inl hroot)] at he
    cases he
  · rw [Site.get?_cleared_of_root (Or.inr hroot)] at he
    cases he

/-- Two jobs whose roots and output directories are apart, and of which neither looks at what the other
one changes, have the results that they have alone, and leave the same in their output directories,
whatever the order of their calls. -/
theorem alone_of_interleaved {a b : Except Error (Report × Except Error (List String))}
    (hwf : t.WellFormed) (hss : s₁.Separate s₂)
    (hj₁ : j₁.WorksAt h₁ s₁ (s₁.cleared s₂ t) t (s₂.region t))
    (hj₂ : j₂.WorksAt h₂ s₂ (s₁.cleared s₂ t) t (s₁.region t))
    (hrun : Plan.Interleaved h₁ h₂ j₁.plan j₂.plan t a b t') :
    (a = (j₁.plan.run h₁ t).1 ∧
      ∀ q, s₁.output <+: q → t'.get? q = (j₁.plan.run h₁ t).2.get? q) ∧
    (b = (j₂.plan.run h₂ t).1 ∧
      ∀ q, s₂.output <+: q → t'.get? q = (j₂.plan.run h₂ t).2.get? q) := by
  have hsound := sound_cleared hwf hss
  have hfits₁ := hss.fits (t := t) (fun q hq => Site.get?_cleared_of_root (Or.inl hq))
    (fun q hq hq' => Site.get?_cleared hq hq') (fun q => Iff.rfl) hj₁.names hj₁.points
  have hfits₂ := hss.symm.fits (t := t) (fun q hq => Site.get?_cleared_of_root (Or.inr hq))
    (fun q hq hq' => Site.get?_cleared hq' hq) (fun q => or_comm) hj₂.names hj₂.points
  obtain ⟨⟨ha, hapart₁⟩, hb, hapart₂⟩ := hrun.alone (hj₁.along hfits₁ hsound)
    (hj₂.along hfits₂ hsound) (.refl _ t) (.refl _ t) hsound
  exact ⟨⟨ha, fun q hq => hapart₁.get? (hss.output_not_region hq)⟩, hb, fun q hq =>
    hapart₂.get? (hss.symm.output_not_region hq)⟩

/-! ## Two packages -/

/-- A job in the current directory. -/
def ofNames (paths : List String) (workspace output : String) (executable : Option String) : Job :=
  ⟨"/tmp", { workspace := some workspace, executable }, paths, output⟩

/-- A root and an output directory at the root of the tree. -/
def siteOf (workspace output : String) : Site :=
  ⟨maxLinks, [], workspace, maxLinks, [], [output]⟩

/-- A tree with a compiler. -/
def withCompiler (entries : List (Place × Entry)) : FileTree :=
  ⟨[(["bin"], .directory), (["bin", "forge"], .file ByteArray.empty true)] ++ entries⟩

/-- A source file. -/
def sourceFile (name source : String) : Place × Entry :=
  ([name], .file source.toUTF8 false)

theorem names_simple {name : String} (hname : Named name) (t : FileTree) :
    Names t [] name maxLinks [] name := by
  have hfault : pathFault? name = none := by
    refine pathFault?_eq_none_iff.2 ⟨hname.noNul, hname.simple.1, ?_⟩
    have hshort := hname.short
    unfold maxPath
    omega
  have hstart : startOf [] name = [] := by
    unfold startOf
    split <;> rfl
  refine ⟨hfault, hname.plain, rfl, [], Path.parts_simple hname.simple, ?_⟩
  rw [hstart]
  exact .nil _ _

theorem head_of_region {workspace output : String} {q : Place}
    (hq : q ∈ (siteOf workspace output).region t) :
    ∃ name ∈ [workspace, output], q.head? = some name := by
  rcases hq with ⟨rest, rfl⟩ | ⟨rest, rfl⟩ | ⟨⟨habove, -⟩, hfree⟩
  · exact ⟨workspace, by simp, rfl⟩
  · exact ⟨output, by simp, rfl⟩
  · -- Above the output directory is the root of the tree only.
    have hnil : q = [] := by
      have hlength := habove.1.length_le
      have hne : q.length ≠ 1 := fun hlength' => habove.2 (habove.1.eq_of_length hlength').symm
      refine List.length_eq_zero_iff.1 ?_
      change q.length ≤ 1 at hlength
      omega
    rw [hnil] at hfree
    cases hfree

/-- The sources, the compiler and an earlier manifest of a job are found without a look at places that
begin with the names. -/
def keepsOff (h : Host) (t : FileTree) (j : Job) (names : List String) : Bool :=
  ((collect j.paths).log h t).all (fun x => x.1.keepsOff h t (j.root :: names)) &&
    ((collect j.paths).run h t).1.files.all (fun file => (Call.read file).keepsOff h t (j.root :: names)) &&
    (Call.locate j.executable).keepsOff h t (j.root :: names) &&
    (Call.read (manifestPath ⟨j.root⟩)).keepsOff h t names

theorem worksAt_ofNames {id : Snippet.Id} {object : String} {paths : List String}
    {workspace output workspace' output' : String} {executable : Option String}
    (hworkspace : Named workspace) (houtput : Named output) (hlinks : ∀ x ∈ t.entries, kindOf x.2 ≠ .link)
    (hoff : (ofNames paths workspace output executable).keepsOff (BuildScript.buildingOnce id object) t
      [workspace', output'] = true) :
    (ofNames paths workspace output executable).WorksAt (BuildScript.buildingOnce id object)
      (siteOf workspace output) base t ((siteOf workspace' output').region t) := by
  have hnone := not_link_of_entries hlinks
  have hothers : ∀ q ∈ (siteOf workspace' output').region t,
      ∃ name ∈ [workspace', output'], q.head? = some name := fun q => head_of_region
  have hall : ∀ q ∈ {q | (siteOf workspace output).root <+: q} ∪ (siteOf workspace' output').region t,
      ∃ name ∈ [workspace, workspace', output'], q.head? = some name := by
    rintro q (⟨rest, rfl⟩ | hq)
    · exact ⟨workspace, List.mem_cons_self, rfl⟩
    · obtain ⟨name, hname, hhead⟩ := hothers q hq
      exact ⟨name, List.mem_cons_of_mem _ hname, hhead⟩
  unfold keepsOff at hoff
  simp only [Bool.and_eq_true, List.all_eq_true] at hoff
  obtain ⟨⟨⟨hcollecting, hreading⟩, hcompiler⟩, hmanifest⟩ := hoff
  exact
    { names := names_simple hworkspace base
      slash := fun _ target => hnone _ target
      points := (names_simple houtput base).points
      chain := fun _ _ target => hnone _ target
      linkless := fun _ target => hnone _ target
      overlooks :=
        { encloses := BuildScript.encloses_buildingOnce _ _ _ _
          sources :=
            ⟨fun x hx => (Call.avoids_of_keepsOff hall (hcollecting x hx)).mono Set.subset_union_right,
              fun file hfile u hu => ((Call.avoids_of_keepsOff hall (hreading file hfile)).congr
                (hu.mono Set.subset_union_left)).mono Set.subset_union_right⟩
          compiler := fun u hu => ((Call.avoids_of_keepsOff hall hcompiler).congr
            (hu.mono Set.subset_union_left)).mono Set.subset_union_right }
      manifest := fun _ => Call.avoids_of_keepsOff hothers hmanifest }

/-- Two packages with a snippet each. -/
def twoPackages : FileTree :=
  withCompiler [sourceFile "a.rs" "sol!(\"A\");", sourceFile "b.rs" "sol!(\"B\");"]

def firstJob : Job :=
  ofNames ["a.rs"] "wa" "oa" none

def secondJob : Job :=
  ofNames ["b.rs"] "wb" "ob" none

/-- A compiler for the one package and another one for the other. -/
def firstHost : Host :=
  BuildScript.buildingOnce (.ofText "A") "0xaa"

def secondHost : Host :=
  BuildScript.buildingOnce (.ofText "B") "0xbb"

/-- Whether a job succeeds, the summary of its failures, and whether something is at a place in the
end. -/
def seen (h : Host) (j : Job) (q : Place) (t : FileTree) : Option (Bool × String) × Bool :=
  ((j.plan.run h t).1.toOption.map fun result =>
      (result.1.isSuccess && result.2.toOption.isSome, result.1.summary),
    ((j.plan.run h t).2.get? q).isSome)

set_option maxRecDepth 100000 in
theorem seen_twoPackages :
    firstJob.seen firstHost ["oa", (Snippet.Id.ofText "A").artifactFile] twoPackages =
        (some (true, ""), true) ∧
      secondJob.seen secondHost ["ob", (Snippet.Id.ofText "B").artifactFile] twoPackages =
        (some (true, ""), true) := by
  decide +kernel

theorem separate_siteOf {workspace output workspace' output' : String}
    (hdifferent : workspace ≠ workspace' ∧ output ≠ output' ∧ workspace ≠ output' ∧
      output ≠ workspace') :
    (siteOf workspace output).Separate (siteOf workspace' output') := by
  have hname : ∀ {x y : String}, x ≠ y → EmbeddedSolidity.Separate [x] [y] := by
    intro x y hxy
    exact ⟨fun hle => hxy (List.cons_prefix_cons.1 hle).1, fun hle =>
      hxy (List.cons_prefix_cons.1 hle).1.symm⟩
  obtain ⟨hroots, houtputs, hrootOutput, houtputRoot⟩ := hdifferent
  exact ⟨hname hroots, hname houtputs, hname hrootOutput, hname houtputRoot⟩

set_option maxRecDepth 100000 in
theorem worksAt_twoPackages :
    firstJob.WorksAt firstHost (siteOf "wa" "oa")
        ((siteOf "wa" "oa").cleared (siteOf "wb" "ob") twoPackages) twoPackages
        ((siteOf "wb" "ob").region twoPackages) ∧
      secondJob.WorksAt secondHost (siteOf "wb" "ob")
        ((siteOf "wa" "oa").cleared (siteOf "wb" "ob") twoPackages) twoPackages
        ((siteOf "wa" "oa").region twoPackages) := by
  have hlinks : ∀ x ∈ twoPackages.entries, kindOf x.2 ≠ .link := by decide
  exact ⟨worksAt_ofNames (by constructor <;> decide) (by constructor <;> decide) hlinks
      (by decide +kernel),
    worksAt_ofNames (by constructor <;> decide) (by constructor <;> decide) hlinks
      (by decide +kernel)⟩

/-- Two packages are compiled, the one by the first compiler and the other one by the second : both jobs
succeed as they do alone, and both artifacts are there. -/
theorem alone_of_interleaved_twoPackages :
    ∃ a b t', Plan.Interleaved firstHost secondHost firstJob.plan secondJob.plan twoPackages a b t' ∧
      (a = (firstJob.plan.run firstHost twoPackages).1 ∧
        ∀ q, ["oa"] <+: q → t'.get? q = (firstJob.plan.run firstHost twoPackages).2.get? q) ∧
      (b = (secondJob.plan.run secondHost twoPackages).1 ∧
        ∀ q, ["ob"] <+: q → t'.get? q = (secondJob.plan.run secondHost twoPackages).2.get? q) ∧
      firstJob.seen firstHost ["oa", (Snippet.Id.ofText "A").artifactFile] twoPackages =
        (some (true, ""), true) ∧
      secondJob.seen secondHost ["ob", (Snippet.Id.ofText "B").artifactFile] twoPackages =
        (some (true, ""), true) := by
  have hrun : Plan.Interleaved firstHost secondHost firstJob.plan secondJob.plan twoPackages _ _ _ :=
    Plan.interleaved_run firstJob.plan secondJob.plan twoPackages
  obtain ⟨hfirst, hsecond⟩ := alone_of_interleaved (wellFormed_of_entries (by decide))
    (separate_siteOf (by decide)) worksAt_twoPackages.1 worksAt_twoPackages.2 hrun
  exact ⟨_, _, _, hrun, hfirst, hsecond, seen_twoPackages⟩

/-! ## Jobs that are not apart -/

/-- Beside the first job, the second one does not end as it does alone : it has another result, or
leaves something else in its output directory. -/
def Disturbs (h : Host) (t : FileTree) (j₁ j₂ : Job) (p : Place) : Prop :=
  ∃ a b t', Plan.Interleaved h h j₁.plan j₂.plan t a b t' ∧
    ¬ (b = (j₂.plan.run h t).1 ∧ ∀ q, p <+: q → t'.get? q = (j₂.plan.run h t).2.get? q)

theorem disturbs_of_seen {p q : Place} (hq : p <+: q)
    (hseen : j₂.seen h q (j₁.plan.run h t).2 ≠ j₂.seen h q t) : Disturbs h t j₁ j₂ p := by
  refine ⟨_, _, _, Plan.interleaved_run j₁.plan j₂.plan t, fun ⟨hresult, hplaces⟩ => hseen ?_⟩
  unfold seen
  rw [hresult, hplaces q hq]

/-- An earlier workspace at a place. -/
def earlierAt (p : Place) : List (Place × Entry) :=
  [(p, .directory), (p ++ [Manifest.fileName],
    .file (Manifest.ofVersion Manifest.defaultSolc).render.toUTF8 false)]

/-- Directories, each in the one before it. -/
def directories (p : Place) : List (Place × Entry) :=
  p.inits.tail.map fun q => (q, .directory)

/-- The job beside the others. It finds no sources. -/
def besideJob : Job :=
  ofNames [] "wb" "ob" none

/-- A compiler that leaves a link to another directory in its sources. -/
def linkingOut : Host :=
  BuildScript.compiling fun p => BuildScript.putAll p (BuildScript.builtIn [] (.ofText "A") "0xaa" ++
    BuildScript.builtIn [] (.ofText "B") "0xbb" ++
      [(["src", (Snippet.Id.ofText "B").sourceFile], .link "/ob/note")])

theorem writesInside_linkingOut : linkingOut.WritesInside :=
  BuildScript.writesInside_compiling fun _ t =>
    BuildScript.sameOutside_putAll (by simp [BuildScript.builtIn]) t

/-- The sources are found through the workspace of the other job, or through a directory that is made
above its output directory. -/
def sourcesBehind : Prop :=
  Disturbs firstHost (withCompiler [sourceFile "a.rs" "", (["wb"], .directory)]) besideJob
      (ofNames ["wb/../a.rs"] "wa" "oa" none) ["oa"] ∧
    Disturbs firstHost (withCompiler [sourceFile "a.rs" ""]) (ofNames [] "wb" "n/ob" none)
      (ofNames ["n/../a.rs"] "wa" "oa" none) ["oa"]

/-- The root is found through the workspace of the other job, or through that of the job itself, or it
has a slash at the end and is a link to the other workspace. -/
def rootBehind : Prop :=
  Disturbs firstHost (withCompiler ([sourceFile "a.rs" "sol!(\"A\");"] ++ directories ["wb"] ++
      directories ["wa", "x"])) besideJob (ofNames ["a.rs"] "wb/../wa" "oa" none) ["oa"] ∧
    Disturbs firstHost (withCompiler ([sourceFile "a.rs" "sol!(\"A\");"] ++
        directories ["d", "a", "b", "c"] ++ earlierAt ["d", "w"] ++
        [(["d", "w", "x"], .link "../a/b/c")] ++ directories ["w", "y"]))
      (ofNames [] "d/w/x/../../../w" "oa" none) (ofNames ["a.rs"] "w" "ob" none) ["ob"] ∧
    Disturbs firstHost (withCompiler ([sourceFile "a.rs" "sol!(\"A\");"] ++ directories ["wb"] ++
      [(["wa"], .link "wb")])) besideJob (ofNames ["a.rs"] "wa/" "oa" none) ["oa"]

/-- The output directory is found through the workspace of the other job, or through that of the job
itself. -/
def outputBehind : Prop :=
  Disturbs firstHost (withCompiler (earlierAt ["wb"] ++ [(["wb", "l"], .link "../x")] ++
      directories ["x"])) besideJob (ofNames [] "wa" "wb/l/oa" none) ["x", "oa"] ∧
    Disturbs firstHost (withCompiler ([sourceFile "a.rs" "sol!(\"A\");"] ++ earlierAt ["wa"] ++
      [(["wa", "l"], .link "../x/y/z")] ++ directories ["x", "y", "z"]))
      (ofNames ["a.rs"] "wa" "wa/l/../../ob" none) besideJob ["ob"]

/-- The compiler or an earlier manifest is found through the workspace of the other job. -/
def compilerBehind : Prop :=
  Disturbs firstHost (withCompiler ([sourceFile "a.rs" "sol!(\"A\");"] ++ directories ["wb"])) besideJob
      (ofNames ["a.rs"] "wa" "oa" (some "wb/../bin/forge")) ["oa"] ∧
    Disturbs firstHost (withCompiler ([sourceFile "a.rs" "sol!(\"A\");"] ++ earlierAt ["wb"] ++
      directories ["wa"] ++ [(["wa", Manifest.fileName], .link "../wb/foundry.toml")])) besideJob
      (ofNames ["a.rs"] "wa" "oa" none) ["oa"]

/-- A compiler leaves a link to the output directory of the other job, and a source is written through
it. -/
def linkLeft : Prop :=
  Disturbs linkingOut (withCompiler ([sourceFile "a.rs" "sol!(\"A\");sol!(\"B\");"] ++
    directories ["ob"])) (ofNames ["a.rs"] "wa" "oa" none) besideJob ["ob"]

set_option maxRecDepth 100000 in
/-- Jobs whose roots, output directories and sources are apart, with compilers that work in their
workspaces, disturb one another all the same, in each of these ways. -/
theorem interleaved_not_alone :
    (siteOf "wb" "ob").Separate (siteOf "wa" "oa") ∧
      (∀ directory p, firstHost.Encloses directory p) ∧ linkingOut.WritesInside ∧
      sourcesBehind ∧ rootBehind ∧ outputBehind ∧ compilerBehind ∧ linkLeft := by
  have hsources : sourcesBehind :=
    ⟨disturbs_of_seen List.prefix_rfl (by decide +kernel),
      disturbs_of_seen List.prefix_rfl (by decide +kernel)⟩
  have hroot : rootBehind :=
    ⟨disturbs_of_seen List.prefix_rfl (by decide +kernel),
      disturbs_of_seen List.prefix_rfl (by decide +kernel),
      disturbs_of_seen List.prefix_rfl (by decide +kernel)⟩
  have houtput : outputBehind :=
    ⟨disturbs_of_seen List.prefix_rfl (by decide +kernel),
      disturbs_of_seen (List.prefix_append ["ob"] [(Snippet.Id.ofText "A").artifactFile])
        (by decide +kernel)⟩
  have hcompiler : compilerBehind :=
    ⟨disturbs_of_seen List.prefix_rfl (by decide +kernel),
      disturbs_of_seen List.prefix_rfl (by decide +kernel)⟩
  have hlink : linkLeft :=
    disturbs_of_seen (List.prefix_append ["ob"] ["note"]) (by decide +kernel)
  exact ⟨separate_siteOf (by decide),
    fun directory p => BuildScript.encloses_buildingOnce _ _ directory p, writesInside_linkingOut,
    hsources, hroot, houtput, hcompiler, hlink⟩

end Job

end EmbeddedSolidity
