import EmbeddedSolidity.Proofs.Run.Session
import EmbeddedSolidity.Proofs.Workspace.Fresh
import Mathlib

/-!
# What a result depends on

A compiler that judges sources one by one, but builds all the sources of a workspace at once, fails
for every snippet that is compiled after one that it does not accept, since no source is ever taken
out of the workspace again. A snippet gets its artifact if the snippets before it are valid too, and
the results are those of the snippets for themselves if no snippet that is not valid comes before a
valid one.

* `Run.answers_compileAll` : each result, by what came before;
* `Run.faithful_iff_pairwise` : when each result is that of its snippet alone;
* `Run.invalid_snippet_fails_next` : a valid snippet behind one that is not.
-/

namespace EmbeddedSolidity

open FileSystem FileSystem.FileTree

variable {h : Host} {c : Config} {t t' : FileTree} {m : Nat} {p : Place}
  {verdict : String → Option Artifact}

/-! ## Compilers that judge sources one by one -/

/-- All sources in the workspace are valid. -/
def AllValid (verdict : String → Option Artifact) (p : Place) (t : FileTree) : Prop :=
  ∀ name content, t.HasFile (Workspace.sourcePlace p ++ [name]) content →
    ∃ text a, Text.decode? content = some text ∧ verdict text = some a

/-- The file holds an artifact. -/
def HasArtifact (t : FileTree) (id : Snippet.Id) (p : Place) (a : Artifact) : Prop :=
  ∃ content text, t.HasFile (id.artifactPlace p) content ∧ Text.decode? content = some text ∧
    ∀ path, Artifact.parse id path text = .ok a

/-- A run of a compiler on the tree `t`: it ends with status zero, silently, and with an artifact for
every source if all sources are valid, and with another status if not. It changes neither what is
outside the workspace nor the sources, and the root still leads to the workspace. -/
structure Judged (verdict : String → Option Artifact) (current : Place) (root : String) (m : Nat)
    (p : Place) (t : FileTree) (result : Except Fault Outcome) (t' : FileTree) : Prop where
  outside : SameOutside p t t'
  sources : ∀ q, Workspace.sourcePlace p <+: q → t'.get? q = t.get? q
  leads : Leads t current root m p → Leads t' current root m p
  wellFormed : t.WellFormed → t'.WellFormed
  valid : AllValid verdict p t → ∃ o, result = .ok o ∧ o.ending = .exited 0 ∧
    Text.isBlank (Text.decodeLossy o.errors) = true ∧
    ∀ text a, t.HasFile ((Snippet.Id.ofText text).sourcePlace p) text.toUTF8 →
      verdict text = some a → HasArtifact t' (.ofText text) p a
  invalid : ¬ AllValid verdict p t → ∃ o n, result = .ok o ∧ o.ending = .exited (n + 1)

/-- Whatever is in the workspace in the directory `p`, the compiler is found and judges it. -/
structure Host.Judges (h : Host) (c : Config) (verdict : String → Option Artifact) (m : Nat)
    (p : Place) (t : FileTree) : Prop where
  found : ∀ t', SameOutside p t t' →
    ∃ program, t'.locate h.current h.search c.executable = some program
  judged : ∀ t' program, SameOutside p t t' →
    t'.locate h.current h.search c.executable = some program →
      Judged verdict h.current c.root m p t' (h.execute program c.root c.timeout t').1
        (h.execute program c.root c.timeout t').2

/-! ## Sources -/

namespace Run

/-- The sources of the texts are in the workspace, and no others. -/
structure Staged (h : Host) (c : Config) (t : FileTree) (m : Nat) (p : Place) (texts : List String)
    (t' : FileTree) : Prop where
  leads : Leads t' h.current c.root m p
  outside : SameOutside p t t'
  wellFormed : t'.WellFormed
  sources : t'.get? (Workspace.sourcePlace p) = some .directory
  only : ∀ name e, t'.get? (Workspace.sourcePlace p ++ [name]) = some e → ∃ text ∈ texts,
    name = (Snippet.Id.ofText text).sourceFile ∧ ∃ executable, e = .file text.toUTF8 executable
  all : ∀ text ∈ texts, t'.HasFile ((Snippet.Id.ofText text).sourcePlace p) text.toUTF8

variable {texts : List String}

theorem staged_nil (hfresh : Workspace.Fresh h ⟨c.root⟩ t m p) : Staged h c t m p [] t where
  leads := hfresh.leads
  outside := .refl p t
  wellFormed := hfresh.wellFormed
  sources := hfresh.sources
  only name e he := by
    rw [hfresh.empty _ (below_append _ name [])] at he
    cases he
  all := nofun

/-- The sources are valid if the texts are. -/
theorem Staged.allValid_iff (hstaged : Staged h c t m p texts t') :
    AllValid verdict p t' ↔ ∀ text ∈ texts, ∃ a, verdict text = some a := by
  constructor
  · intro hvalid text htext
    obtain ⟨text', a, hdecoded, ha⟩ := hvalid _ _ (hstaged.all text htext)
    rw [Text.decode?_toUTF8] at hdecoded
    cases hdecoded
    exact ⟨a, ha⟩
  · rintro hvalid name content ⟨executable, he⟩
    obtain ⟨text, htext, -, executable', hfile⟩ := hstaged.only name _ he
    cases hfile
    obtain ⟨a, ha⟩ := hvalid text htext
    exact ⟨text, a, Text.decode?_toUTF8 text, ha⟩

/-- Nothing is where the source of a new snippet goes. -/
theorem Staged.free (hstaged : Staged h c t m p texts t') {text : String}
    (hnew : ∀ other ∈ texts, Snippet.Id.ofText other ≠ .ofText text) :
    t'.get? ((Snippet.Id.ofText text).sourcePlace p) = none := by
  cases he : t'.get? ((Snippet.Id.ofText text).sourcePlace p) with
  | none => rfl
  | some e =>
    obtain ⟨other, hother, hname, -⟩ := hstaged.only _ e he
    exact absurd (Snippet.Id.sourceFile_inj hname).symm (hnew other hother)

/-- The source of a new snippet is put beside the others. -/
theorem Staged.put (hstaged : Staged h c t m p texts t') {text : String}
    (hnew : ∀ other ∈ texts, Snippet.Id.ofText other ≠ .ofText text) (executable : Bool) :
    Staged h c t m p (text :: texts)
      (t'.put ((Snippet.Id.ofText text).sourcePlace p) (.file text.toUTF8 executable)) := by
  have hne : (Snippet.Id.ofText text).sourcePlace p ≠ [] := below_ne_nil (Snippet.Id.below_sourcePlace _ p)
  have hparent : ((Snippet.Id.ofText text).sourcePlace p).dropLast = Workspace.sourcePlace p :=
    List.dropLast_concat
  have hfree := hstaged.free hnew
  have hwritable : t'.Writable ((Snippet.Id.ofText text).sourcePlace p) :=
    ⟨hne, by rw [hparent]; exact hstaged.sources, fun e he => by rw [hfree] at he; cases he⟩
  refine ⟨hstaged.leads.mono hwritable.keepsWays,
    hstaged.outside.trans (sameOutside_put (Snippet.Id.below_sourcePlace _ p) _),
    hwritable.wellFormed hstaged.wellFormed, ?_, fun name e he => ?_, ?_⟩
  · exact hwritable.keepsWays _ _ isWay_directory hstaged.sources
  · by_cases hname : name = (Snippet.Id.ofText text).sourceFile
    · subst hname
      rw [show Workspace.sourcePlace p ++ [(Snippet.Id.ofText text).sourceFile] =
        (Snippet.Id.ofText text).sourcePlace p from rfl, get?_put_self t' _ hne] at he
      exact ⟨text, List.mem_cons_self, rfl, executable, (Option.some.inj he).symm⟩
    · have hother : Workspace.sourcePlace p ++ [name] ≠ (Snippet.Id.ofText text).sourcePlace p :=
        fun heq => hname (List.singleton_inj.1 (List.append_cancel_left heq))
      rw [get?_put_of_ne t' _ hother] at he
      obtain ⟨other, hother, hrest⟩ := hstaged.only name e he
      exact ⟨other, List.mem_cons_of_mem _ hother, hrest⟩
  · refine List.forall_mem_cons.2 ⟨⟨executable, get?_put_self t' _ hne⟩, fun other hother => ?_⟩
    obtain ⟨executable', hfile⟩ := hstaged.all other hother
    refine ⟨executable', ?_⟩
    rw [get?_put_of_ne t' _ fun heq => by rw [heq, hfree] at hfile; cases hfile]
    exact hfile

/-- Sources stay as they are when the compiler runs. -/
theorem Staged.judged {result : Except Fault Outcome} {t'' : FileTree}
    (hstaged : Staged h c t m p texts t')
    (hjudged : Judged verdict h.current c.root m p t' result t'') :
    Staged h c t m p texts t'' where
  leads := hjudged.leads hstaged.leads
  outside := hstaged.outside.trans hjudged.outside
  wellFormed := hjudged.wellFormed hstaged.wellFormed
  sources := by
    rw [hjudged.sources _ (List.prefix_refl _)]
    exact hstaged.sources
  only name e he := by
    rw [hjudged.sources _ (List.prefix_append _ _)] at he
    exact hstaged.only name e he
  all text htext := by
    obtain ⟨executable, hfile⟩ := hstaged.all text htext
    exact ⟨executable, (hjudged.sources _ (List.prefix_append _ _)).trans hfile⟩

/-! ## One snippet -/

/-- The result of a text behind others: its artifact if all of them are valid, and a failure of the
compiler if one of them is not. -/
structure Answer (verdict : String → Option Artifact) (before : List String) (text : String)
    (result : Except Error Compiled) : Prop where
  ok : (∀ other ∈ text :: before, ∃ a, verdict other = some a) →
    ∃ a, verdict text = some a ∧ result = .ok ⟨.ofText text, a⟩
  error : ¬ (∀ other ∈ text :: before, ∃ a, verdict other = some a) →
    ∃ status shown, result = .error (.build (.ofText text) (.exited (some status)) shown)

/-- The path of a source leads to its place, where nothing is. -/
theorem targets_sourcePath {w : Workspace} {id : Snippet.Id}
    (hnames : ∀ name ∈ [Manifest.sourceDirectory, id.sourceFile], Workspace.Named name)
    (hleads : Leads t' h.current w.root m p) (hroom : w.root.utf8ByteSize + 150 ≤ maxPath)
    (hsources : t'.get? (Workspace.sourcePlace p) = some .directory)
    (hfree : t'.get? (id.sourcePlace p) = none) :
    t'.Targets h.current (w.sourcePath id) (id.sourcePlace p) := by
  have hroot : w.root ≠ "" := (pathFault?_eq_none_iff.1 hleads.fault).2.1
  have hfault := Workspace.pathFault?_foldl_named hnames hleads.fault
    (Nat.lt_of_lt_of_le (Nat.add_lt_add_left (by decide : 49 * 2 < 150) _) hroom)
  refine ⟨_, (resolve_of_leads hroot (fun name hname => (hnames name hname).simple)
    (List.cons_ne_nil _ _) hfault hleads).trans ?_, Or.inl rfl⟩
  rw [List.forall_mem_cons, List.forall_mem_singleton] at hnames
  rw [walk_down hnames.1.plain hsources]
  exact walk_free hnames.2.plain hsources hfree

section Snippet

variable (hstaged : Staged h c t m p texts t')
  (hroom : c.root.utf8ByteSize + 150 ≤ maxPath)

include hstaged hroom in
/-- A new snippet is written to its source file. -/
theorem ensures_stage_new (s : Snippet) (hnew : ∀ other ∈ texts, Snippet.Id.ofText other ≠ s.id) :
    Plan.Ensures h (Workspace.stage ⟨c.root⟩ s) t' fun r t'' =>
      (∃ path, r = .ok path) ∧ Staged h c t m p (s.text :: texts) t'' := by
  have htargets : t'.Targets h.current (Workspace.sourcePath ⟨c.root⟩ s.id)
      (s.id.sourcePlace p) :=
    targets_sourcePath (Workspace.named_sourcePath s.text) hstaged.leads hroom hstaged.sources
      (hstaged.free hnew)
  obtain ⟨executable, hwrite⟩ := htargets.write
    (Path.endsInSlash_join (Snippet.Id.named_sourceFile s.text).simple) s.text.toUTF8
  unfold Workspace.stage
  refine Plan.ensures_bind (P := fun r t'' => r = .ok () ∧
    Staged h c t m p (s.text :: texts) t'') ?_ ?_
  · unfold Plan.Ensures
    rw [Plan.run_writeText, hwrite]
    exact ⟨rfl, hstaged.put hnew executable⟩
  · rintro _ t'' ⟨rfl, hstaged'⟩
    exact ⟨⟨_, rfl⟩, hstaged'⟩

/-- An artifact of the compiler is read from its file. -/
theorem ensures_readArtifact_of_hasArtifact {w : Workspace} {id : Snippet.Id} {a : Artifact}
    (hnames : ∀ name ∈ [Manifest.outputDirectory, id.sourceFile, id.artifactFile],
      Workspace.Named name) (hwf : t'.WellFormed) (hleads : Leads t' h.current w.root m p)
    (hroom : w.root.utf8ByteSize + 150 ≤ maxPath) (hartifact : HasArtifact t' id p a) :
    Plan.Ensures h (w.readArtifact id) t' fun r t'' => r = .ok a ∧ t' = t'' := by
  have hroot : w.root ≠ "" := (pathFault?_eq_none_iff.1 hleads.fault).2.1
  obtain ⟨content, json, ⟨executable, hfile⟩, hdecoded, hparsed⟩ := hartifact
  have hplace : id.artifactPlace p =
      p ++ [Manifest.outputDirectory] ++ [id.sourceFile] ++ [id.artifactFile] := by
    simp [Snippet.Id.artifactPlace]
  rw [hplace] at hfile
  have hfault := Workspace.pathFault?_foldl_named hnames hleads.fault
    (Nat.lt_of_lt_of_le (Nat.add_lt_add_left (by decide : 49 * 3 < 150) _) hroom)
  have hwalk : t'.walk true m p [Manifest.outputDirectory, id.sourceFile, id.artifactFile] =
      .ok (.entry (id.artifactPlace p) (.file content executable)) := by
    -- What has the artifact below it is a directory.
    have houter := hwf.directory_of_below (p := p ++ [Manifest.outputDirectory])
      (below_iff.2 ⟨_, _, List.append_assoc _ _ _⟩) hfile
    have hinner := hwf.directory_of_below (below_append _ _ []) hfile
    rw [List.forall_mem_cons, List.forall_mem_cons, List.forall_mem_singleton] at hnames
    rw [walk_down hnames.1.plain houter, walk_down hnames.2.1.plain hinner, hplace]
    exact walk_file hnames.2.2.plain hfile
  have hresolve : t'.resolve h.current true (w.artifactPath id) =
      .ok (.entry (id.artifactPlace p) (.file content executable)) :=
    (resolve_of_leads hroot (fun name hname => (hnames name hname).simple) (List.cons_ne_nil _ _)
      hfault hleads).trans hwalk
  have htext := Workspace.textAt_of_entryAt (entryAt_of_resolve hresolve) hdecoded
  unfold Workspace.readArtifact
  refine Plan.ensures_bind (P := fun r t'' => r = .ok json ∧ t' = t'') ?_ ?_
  · unfold Plan.Ensures
    rw [Plan.run_readText]
    exact ⟨htext, rfl⟩
  · rintro _ _ ⟨rfl, rfl⟩
    exact ⟨hparsed _, rfl⟩

/-- What is wrong with the way in which a compiler ended that judged the sources. -/
theorem Judged.fault? {result : Except Fault Outcome} {t'' : FileTree}
    (hjudged : Judged verdict h.current c.root m p t' result t'') (limit : Option Nat) :
    ∃ o, result = .ok o ∧ (AllValid verdict p t' → o.fault? limit = none) ∧
      (¬ AllValid verdict p t' →
        ∃ status shown, o.fault? limit = some (.exited (some status), shown)) := by
  by_cases hvalid : AllValid verdict p t'
  · obtain ⟨o, ho, hending, hblank, -⟩ := hjudged.valid hvalid
    refine ⟨o, ho, fun _ => ?_, fun hnot => absurd hvalid hnot⟩
    unfold Outcome.fault?
    rw [hending]
    exact if_pos hblank
  · obtain ⟨o, n, ho, hending⟩ := hjudged.invalid hvalid
    refine ⟨o, ho, fun hall => absurd hall hvalid, fun _ => ?_⟩
    unfold Outcome.fault?
    rw [hending]
    exact ⟨_, _, rfl⟩

include hstaged hroom in
/-- The result of a new snippet behind others. -/
theorem ensures_compileIn_new (hjudges : h.Judges c verdict m p t) (s : Snippet)
    (hnew : ∀ other ∈ texts, Snippet.Id.ofText other ≠ s.id) :
    Plan.Ensures h (compileIn c ⟨c.root⟩ s) t' fun result t'' =>
      Staged h c t m p (s.text :: texts) t'' ∧ Answer verdict texts s.text result := by
  have hbuild : Plan.Ensures h (Workspace.buildSnippet ⟨c.root⟩ c s) t' fun r t'' =>
      Staged h c t m p (s.text :: texts) t'' ∧
        ((∀ other ∈ s.text :: texts, ∃ a, verdict other = some a) → r = .ok () ∧
          ∃ a, verdict s.text = some a ∧ HasArtifact t'' s.id p a) ∧
        (¬ (∀ other ∈ s.text :: texts, ∃ a, verdict other = some a) →
          ∃ status shown, r = .error (.build s.id (.exited (some status)) shown)) := by
    unfold Workspace.buildSnippet
    refine Plan.ensures_andThen (ensures_stage_new hstaged hroom s hnew)
      (fun e _ hr => nomatch hr.1) ?_
    rintro path staged ⟨-, hstaged'⟩
    obtain ⟨program, hprogram⟩ := hjudges.found staged hstaged'.outside
    have hjudged := hjudges.judged staged program hstaged'.outside hprogram
    obtain ⟨o, ho, hvalid, hinvalid⟩ := Judged.fault? hjudged c.timeout
    have hstaged'' := hstaged'.judged hjudged
    rw [← hstaged'.allValid_iff]
    unfold Workspace.runCompiler
    refine Plan.ensures_bind (P := fun r t'' => r = some program ∧ staged = t'')
      ⟨hprogram, rfl⟩ ?_
    rintro _ _ ⟨rfl, rfl⟩
    refine Plan.ensures_bind (P := fun r t'' => r = .ok o ∧
      (h.execute program c.root c.timeout staged).2 = t'') ⟨ho, rfl⟩ ?_
    rintro _ _ ⟨rfl, rfl⟩
    dsimp only
    by_cases hall : AllValid verdict p staged
    · rw [hvalid hall]
      refine ⟨hstaged'', fun _ => ⟨rfl, ?_⟩, fun hnot => absurd hall hnot⟩
      obtain ⟨a, ha⟩ := hstaged'.allValid_iff.1 hall s.text List.mem_cons_self
      obtain ⟨_, -, -, -, hartifacts⟩ := hjudged.valid hall
      exact ⟨a, ha, hartifacts s.text a (hstaged'.all _ List.mem_cons_self) ha⟩
    · obtain ⟨status, shown, hfault⟩ := hinvalid hall
      rw [hfault]
      exact ⟨hstaged'', fun hnot => absurd hnot hall, fun _ => ⟨status, shown, rfl⟩⟩
  unfold compileIn
  refine Plan.ensures_andThen hbuild ?_ ?_
  · rintro e t'' ⟨hstaged', hok, herror⟩
    refine ⟨hstaged', fun hall => absurd (hok hall).1 nofun, fun hnot => ?_⟩
    obtain ⟨status, shown, he⟩ := herror hnot
    exact ⟨status, shown, by rw [Except.error.inj he]; rfl⟩
  · rintro _ t'' ⟨hstaged', hok, herror⟩
    have hall : ∀ other ∈ s.text :: texts, ∃ a, verdict other = some a :=
      Classical.byContradiction fun hnot => by
        obtain ⟨_, _, he⟩ := herror hnot
        cases he
    obtain ⟨-, a, ha, hartifact⟩ := hok hall
    refine Plan.ensures_andThen (ensures_readArtifact_of_hasArtifact
      (Workspace.named_artifactPath s.text) hstaged'.wellFormed hstaged'.leads hroom hartifact) (fun e _ hr => nomatch hr.1) ?_
    rintro _ _ ⟨hr, rfl⟩
    cases hr
    exact ⟨hstaged', fun _ => ⟨a, ha, rfl⟩, fun hnot => absurd hall hnot⟩

end Snippet

/-! ## Many snippets -/

/-- The results of texts one after the other, where the texts `before` came before all of them. -/
inductive Answers (verdict : String → Option Artifact) :
    List String → List String → List (Except Error Compiled) → Prop where
  | nil (before : List String) : Answers verdict before [] []
  | cons {before rest : List String} {text : String} {result : Except Error Compiled}
      {results : List (Except Error Compiled)} : Answer verdict before text result →
      Answers verdict (text :: before) rest results →
      Answers verdict before (text :: rest) (result :: results)

/-- The result of a text is its own: its artifact, or a failure of the compiler. -/
def Faithful (verdict : String → Option Artifact) (text : String)
    (result : Except Error Compiled) : Prop :=
  match verdict text with
  | some a => result = .ok ⟨.ofText text, a⟩
  | none => ∃ fault shown, result = .error (.build (.ofText text) fault shown)

/-- A result is that of its text alone if the text is not valid or all before it are. -/
theorem Answer.faithful_iff {before : List String} {text : String} {result : Except Error Compiled}
    (hanswer : Answer verdict before text result) :
    Faithful verdict text result ↔ ∀ other ∈ before, verdict other = none → verdict text = none := by
  unfold Faithful
  cases htext : verdict text with
  | none =>
    have hnot : ¬ ∀ other ∈ text :: before, ∃ a, verdict other = some a := fun hall => by
      obtain ⟨a, ha⟩ := hall text List.mem_cons_self
      rw [htext] at ha
      cases ha
    obtain ⟨status, shown, he⟩ := hanswer.error hnot
    exact ⟨fun _ _ _ _ => rfl, fun _ => ⟨_, shown, he⟩⟩
  | some a =>
    constructor
    · rintro rfl other hother hinvalid
      refine absurd (hanswer.error fun hall => ?_) (by rintro ⟨_, _, he⟩; cases he)
      obtain ⟨a', ha'⟩ := hall other (List.mem_cons_of_mem _ hother)
      rw [hinvalid] at ha'
      cases ha'
    · intro hbefore
      have hall : ∀ other ∈ text :: before, ∃ a, verdict other = some a := by
        refine List.forall_mem_cons.2 ⟨⟨a, htext⟩, fun other hother => ?_⟩
        cases hvalid : verdict other with
        | none => cases hbefore other hother hvalid
        | some a' => exact ⟨a', rfl⟩
      obtain ⟨a', ha', hresult⟩ := hanswer.ok hall
      rw [htext] at ha'
      cases ha'
      exact hresult

/-- Results are those of the texts alone if no text that is not valid is before a valid one. -/
theorem Answers.forall₂_faithful_iff {before rest : List String}
    {results : List (Except Error Compiled)} (hanswers : Answers verdict before rest results) :
    List.Forall₂ (Faithful verdict) rest results ↔
      (∀ other ∈ before, ∀ text ∈ rest, verdict other = none → verdict text = none) ∧
        rest.Pairwise fun other text => verdict other = none → verdict text = none := by
  induction hanswers with
  | nil before => exact ⟨fun _ => ⟨nofun, .nil⟩, fun _ => .nil⟩
  | @cons before rest text result results hanswer _ ih =>
    rw [List.forall₂_cons, ih, hanswer.faithful_iff, List.pairwise_cons]
    constructor
    · rintro ⟨htext, hrest, hpairwise⟩
      rw [List.forall_mem_cons] at hrest
      exact ⟨fun other hother => List.forall_mem_cons.2 ⟨htext other hother, hrest.2 other hother⟩,
        hrest.1, hpairwise⟩
    · rintro ⟨hbefore, htext, hpairwise⟩
      refine ⟨fun other hother => hbefore other hother text List.mem_cons_self,
        List.forall_mem_cons.2 ⟨htext, fun other hother => ?_⟩, hpairwise⟩
      exact fun text' htext' => hbefore other hother text' (List.mem_cons_of_mem _ htext')

/-- The run of the configuration that began in the tree `t` has compiled the texts, and the
workspace was made with the first of them. -/
def Ready (h : Host) (c : Config) (t : FileTree) (m : Nat) (p : Place) (texts : List String)
    (r : Run) (t' : FileTree) : Prop :=
  r.config = c ∧ (r.made = none ∧ texts = [] ∧ t' = t ∨
    r.made = some (.ok ⟨c.root⟩) ∧ Staged h c (created h c t).2 m p texts t')

section Texts

variable (hmade : (created h c t).1 = .ok ⟨c.root⟩)
  (hfresh : Workspace.Fresh h ⟨c.root⟩ (created h c t).2 m p)
  (hroom : c.root.utf8ByteSize + 150 ≤ maxPath)
  (hjudges : h.Judges c verdict m p (created h c t).2)

include hmade hfresh in
theorem ensures_workspace_ready {r : Run} (hready : Ready h c t m p texts r t') :
    Plan.Ensures h r.workspace t' fun out t'' => out.1 = .ok ⟨c.root⟩ ∧ out.2.config = c ∧
      out.2.made = some (.ok ⟨c.root⟩) ∧ Staged h c (created h c t).2 m p texts t'' := by
  obtain ⟨rfl, ⟨hr, rfl, rfl⟩ | ⟨hr, hstaged⟩⟩ := hready
  · unfold workspace
    rw [hr]
    refine Plan.ensures_bind (P := fun made t'' => made = (created h r.config t').1 ∧
      t'' = (created h r.config t').2) ⟨rfl, rfl⟩ ?_
    rintro _ _ ⟨rfl, rfl⟩
    exact ⟨hmade, rfl, congrArg some hmade, staged_nil hfresh⟩
  · unfold workspace
    rw [hr]
    exact ⟨rfl, rfl, hr, hstaged⟩

include hmade hfresh hroom hjudges in
/-- The result of a text behind others, in a run. -/
theorem ensures_compile_ready {r : Run} (hready : Ready h c t m p texts r t') {text : String}
    (hblank : Text.isBlank text = false)
    (hnew : ∀ other ∈ texts, Snippet.Id.ofText other ≠ .ofText text) :
    Plan.Ensures h (r.compile text) t' fun out t'' =>
      Ready h c t m p (text :: texts) out.2 t'' ∧ Answer verdict texts text out.1 := by
  unfold compile
  rw [show Snippet.ofText text = .ok ⟨text, hblank⟩ from Snippet.ofText_text ⟨text, hblank⟩]
  refine Plan.ensures_bind (ensures_workspace_ready hmade hfresh hready) ?_
  rintro ⟨_, r'⟩ t'' ⟨rfl, hconfig, hr', hstaged⟩
  dsimp only at hconfig hr' ⊢
  rw [hconfig]
  refine Plan.ensures_bind (ensures_compileIn_new hstaged hroom hjudges ⟨text, hblank⟩ hnew) ?_
  rintro result _ ⟨hstaged', hanswer⟩
  exact ⟨⟨hconfig, Or.inr ⟨hr', hstaged'⟩⟩, hanswer⟩

include hmade hfresh hroom hjudges in
/-- Each result, by what came before. -/
theorem ensures_compileAll_ready : ∀ {rest texts : List String} {r : Run} {t' : FileTree},
    Ready h c t m p texts r t' → (∀ text ∈ rest, Text.isBlank text = false) →
    (∀ other ∈ texts, ∀ text ∈ rest, Snippet.Id.ofText other ≠ .ofText text) →
    (rest.Pairwise fun other text => Snippet.Id.ofText other ≠ .ofText text) →
    Plan.Ensures h (r.compileAll rest) t' fun out _ => Answers verdict texts rest out.1
  | [], texts, _, _, _, _, _, _ => .nil texts
  | text :: rest, texts, r, t', hready, hblank, hnew, hpairwise => by
    rw [List.forall_mem_cons] at hblank
    rw [List.pairwise_cons] at hpairwise
    refine Plan.ensures_bind (ensures_compile_ready hmade hfresh hroom hjudges hready hblank.1
      fun other hother => hnew other hother text List.mem_cons_self) ?_
    rintro ⟨result, r'⟩ t'' ⟨hready', hanswer⟩
    refine Plan.ensures_bind (ensures_compileAll_ready hready' hblank.2
      (List.forall_mem_cons.2 ⟨hpairwise.1, fun other hother text' htext' =>
        hnew other hother text' (List.mem_cons_of_mem _ htext')⟩) hpairwise.2) ?_
    exact fun out _ hanswers => .cons hanswer hanswers

end Texts

/-- A compiler that judges sources one by one gives the results of the texts for themselves if, and
only if, no text that is not valid comes before a valid one; any other text fails behind one that is
not valid. -/
theorem faithful_iff_pairwise {texts : List String} {w : Workspace}
    (hmade : (created h c t).1 = .ok w) (hfresh : w.Fresh h (created h c t).2 m p)
    (hroom : w.root.utf8ByteSize + 150 ≤ maxPath)
    (hjudges : h.Judges c verdict m p (created h c t).2)
    (hblank : ∀ text ∈ texts, Text.isBlank text = false)
    (hdifferent : texts.Pairwise fun other text => Snippet.Id.ofText other ≠ .ofText text) :
    Answers verdict [] texts (((Run.start c).compileAll texts).run h t).1.1 ∧
      (List.Forall₂ (Faithful verdict) texts (((Run.start c).compileAll texts).run h t).1.1 ↔
        texts.Pairwise fun other text => verdict other = none → verdict text = none) := by
  obtain rfl := root_of_created hmade
  have hready : Ready h c t m p [] (Run.start c) t := ⟨rfl, Or.inl ⟨rfl, rfl, rfl⟩⟩
  have hanswers : Answers verdict [] texts (((Run.start c).compileAll texts).run h t).1.1 :=
    ensures_compileAll_ready hmade hfresh hroom hjudges hready hblank nofun hdifferent
  exact ⟨hanswers, hanswers.forall₂_faithful_iff.trans (and_iff_right nofun)⟩

/-! ## A compiler of one text -/

/-- The text that the compiler accepts. -/
def acceptedText : String :=
  "good"

/-- What the compiler makes of the text that it accepts. -/
def acceptedArtifact : Artifact :=
  ⟨[], ⟨"0x", ""⟩⟩

/-- The file that the compiler makes of the text that it accepts. -/
def acceptedJson : String :=
  "\x7b\"abi\":[],\"bytecode\":\x7b\"object\":\"0x\",\"sourceMap\":\"\"\x7d\x7d"

/-- One text is valid. -/
def onlyAccepted (text : String) : Option Artifact :=
  if text = acceptedText then some acceptedArtifact else none

/-- Every source in the workspace `w` is the text that the compiler accepts. -/
def acceptsAll (t : FileTree) : Bool :=
  (t.names ["w", "src"]).all fun name =>
    match t.get? ["w", "src", name] with
    | some (.file content _) => Text.decode? content == some acceptedText
    | _ => true

/-- The directory `p` made anew with a file in a directory in it. -/
def rebuilt (t : FileTree) (p : Place) (inner leaf : String) (content : ByteArray) : FileTree :=
  ((((t.eraseBelow p).erase p).put p .directory).put (p ++ [inner]) .directory).put
    (p ++ [inner, leaf]) (.file content false)

/-- A host whose compiler accepts one text. -/
def judge : Host where
  current := []
  search := ["/bin"]
  execute := fun _ _ _ t =>
    if acceptsAll t then
      (.ok ⟨.exited 0, ByteArray.empty, ByteArray.empty⟩,
        rebuilt t ["w", "dist"] (Snippet.Id.ofText acceptedText).sourceFile
          (Snippet.Id.ofText acceptedText).artifactFile acceptedJson.toUTF8)
    else (.ok ⟨.exited 1, ByteArray.empty, ByteArray.empty⟩, t)

/-- A tree with the compiler in it. -/
def installed : FileTree :=
  ⟨[(["bin"], .directory), (["bin", "forge"], .file ByteArray.empty true)]⟩

theorem acceptsAll_iff : acceptsAll t = true ↔ AllValid onlyAccepted ["w"] t := by
  unfold acceptsAll AllValid
  rw [List.all_eq_true]
  constructor
  · rintro hall name content ⟨executable, hfile⟩
    have haccepted := hall name (mem_names t hfile)
    rw [show t.get? ["w", "src", name] = _ from hfile] at haccepted
    exact ⟨acceptedText, acceptedArtifact, eq_of_beq haccepted, if_pos rfl⟩
  · intro hvalid name _
    split
    · next content executable hfile =>
      obtain ⟨text, a, hdecoded, ha⟩ := hvalid name content ⟨executable, hfile⟩
      unfold onlyAccepted at ha
      split at ha
      · next heq => rw [hdecoded, heq, beq_self_eq_true]
      · cases ha
    · rfl

theorem read_acceptedJson :
    Json.Value.read acceptedJson = .ok (Artifact.value ⟨[], ⟨"0x", ""⟩⟩) := by
  cbv

theorem parse_accepted (id : Snippet.Id) (path : String) :
    Artifact.parse id path acceptedJson = .ok acceptedArtifact := by
  unfold Artifact.parse
  rw [read_acceptedJson]
  rfl

section Rebuilt

variable {inner leaf : String} {content : ByteArray}

/-- Outside the directory that is made anew nothing changes. -/
theorem get?_rebuilt {q : Place} (hq : ¬ p <+: q) :
    (rebuilt t p inner leaf content).get? q = t.get? q := by
  have hne : ∀ rest, q ≠ p ++ rest := fun rest heq => hq ⟨rest, heq.symm⟩
  have hnep : q ≠ p := fun heq => hne [] (by rw [heq, List.append_nil])
  unfold rebuilt
  rw [get?_put_of_ne _ _ (hne _), get?_put_of_ne _ _ (hne _), get?_put_of_ne _ _ hnep,
    get?_erase_of_ne _ hnep, get?_eraseBelow_of_not_below t fun hbelow => hq hbelow.1]

theorem wellFormed_rebuilt (hwf : t.WellFormed) (hp : p ≠ [])
    (hparent : t.get? p.dropLast = some .directory) :
    (rebuilt t p inner leaf content).WellFormed := by
  have hemptied := hwf.emptied p
  have hgone : ∀ q, p <+: q → ((t.eraseBelow p).erase p).get? q = none := fun q hq => by
    by_cases heq : q = p
    · rw [heq, get?_erase_self _ hp]
    · rw [get?_erase_of_ne _ heq, get?_eraseBelow t ⟨hq, heq⟩]
  have hbelow := below_append p inner []
  have hbelow' := below_append p inner [leaf]
  have houter : (((t.eraseBelow p).erase p).put p .directory).WellFormed := by
    refine hemptied.put hp ?_ (by rw [hgone p (List.prefix_refl p)]; nofun)
    have hne := (below_dropLast hp).2.symm
    rw [get?_erase_of_ne _ hne, get?_eraseBelow_of_not_below t fun h => ?_]
    · exact hparent
    · exact hne (List.IsPrefix.eq_of_length_le (below_dropLast hp).1 h.1.length_le)
  have hinner := houter.put (below_ne_nil hbelow) (e := .directory)
    (by rw [List.dropLast_concat, get?_put_self _ _ hp])
    (by rw [get?_put_of_ne _ _ hbelow.2, hgone _ hbelow.1]; nofun)
  refine hinner.put (below_ne_nil hbelow') ?_ ?_
  · rw [show p ++ [inner, leaf] = p ++ [inner] ++ [leaf] by simp, List.dropLast_concat,
      get?_put_self _ _ (below_ne_nil hbelow)]
  · rw [get?_put_of_ne _ _ (by simp), get?_put_of_ne _ _ hbelow'.2, hgone _ hbelow'.1]
    nofun

end Rebuilt

theorem wellFormed_installed : installed.WellFormed := by
  intro q e hq he
  simp only [installed, get?, List.isEmpty_iff, hq, if_false, lookup_cons] at he
  split at he
  · next heq =>
    rw [heq]
    rfl
  · split at he
    · next heq =>
      rw [heq]
      rfl
    · cases he

theorem named_w : Workspace.Named "w" := by
  constructor <;> decide

/-- The compiler is found outside the workspace. -/
theorem locate_judge (hbin : t.get? ["bin"] = some .directory)
    (hforge : t.get? ["bin", "forge"] = some (.file ByteArray.empty true)) :
    t.locate judge.current judge.search (rooted "w").executable = some "/bin/forge" := by
  have hentry : t.entryAt [] true "/bin/forge" =
      .ok (["bin", "forge"], .file ByteArray.empty true) := by
    refine entryAt_of_resolve ?_
    change t.walk true maxLinks [] ["bin", "forge"] = _
    rw [walk_down (by decide) hbin]
    exact walk_file (by decide) hforge
  have hexecutable : t.isExecutable [] "/bin/forge" = true := by
    unfold isExecutable
    rw [hentry]
  change ["/bin/forge"].find? (t.isExecutable []) = _
  rw [List.find?_cons_of_pos hexecutable]

/-- The compiler judges sources one by one. -/
theorem judges_judge (hroot : t.get? ["w"] = some .directory)
    (hbin : t.get? ["bin"] = some .directory)
    (hforge : t.get? ["bin", "forge"] = some (.file ByteArray.empty true)) :
    judge.Judges (rooted "w") onlyAccepted maxLinks ["w"] t where
  found t' hsame := ⟨_, locate_judge ((hsame ["bin"] (by decide)).trans hbin)
    ((hsame ["bin", "forge"] (by decide)).trans hforge)⟩
  judged t' _ hsame _ := by
    have hroot' : t'.get? ["w"] = some .directory := (hsame ["w"] (by decide)).trans hroot
    change Judged _ _ _ _ _ _ (if acceptsAll t' then _ else _ : Except Fault Outcome × FileTree).1
      (if acceptsAll t' then _ else _ : Except Fault Outcome × FileTree).2
    by_cases haccepts : acceptsAll t' = true
    · rw [if_pos haccepts]
      have hdist : t'.get? (["w", "dist"] : Place).dropLast = some .directory := hroot'
      refine ⟨fun q hq => get?_rebuilt fun hp => hq ?_, fun q hq => get?_rebuilt fun hp => ?_,
        fun hleads => ?_, fun hwf => wellFormed_rebuilt hwf (by decide) hdist,
        fun _ => ⟨_, rfl, rfl, by decide, ?_⟩, fun hnot => absurd (acceptsAll_iff.1 haccepts) hnot⟩
      · obtain ⟨rest, rfl⟩ := hp
        exact below_append ["w"] "dist" rest
      · obtain ⟨rest, rfl⟩ := hp
        obtain ⟨rest', hrest⟩ := hq
        simp [Workspace.sourcePlace, Manifest.sourceDirectory] at hrest
      · exact Workspace.leads_name named_w ((get?_rebuilt (by decide)).trans hroot')
      · intro text a _ ha
        unfold onlyAccepted at ha
        split at ha
        · next heq =>
          cases ha
          rw [heq]
          refine ⟨acceptedJson.toUTF8, acceptedJson, ⟨false, ?_⟩, Text.decode?_toUTF8 _,
            parse_accepted _⟩
          exact get?_put_self _ _ (by simp)
        · cases ha
    · rw [if_neg haccepts]
      exact ⟨.refl _ _, fun _ _ => rfl, id, id, fun hvalid =>
        absurd (acceptsAll_iff.2 hvalid) haccepts, fun _ => ⟨_, 0, rfl, rfl⟩⟩

/-- A workspace for the compiler is made and is fresh. -/
theorem created_judge : (created judge (rooted "w") installed).1 = .ok ⟨"w"⟩ ∧
    Workspace.Fresh judge ⟨"w"⟩ (created judge (rooted "w") installed).2 maxLinks ["w"] :=
  Workspace.fresh_create named_w rfl wellFormed_installed rfl (by decide)

theorem judges_created :
    judge.Judges (rooted "w") onlyAccepted maxLinks ["w"] (created judge (rooted "w") installed).2 := by
  refine judges_judge ?_ (by decide +kernel) (by decide +kernel)
  exact created_judge.2.wellFormed.directory_of_append ["w"] "src" [] created_judge.2.sources

/-- A text that is not valid, and then a valid one: both fail. -/
theorem invalid_snippet_fails_next :
    (created judge (rooted "w") installed).1 = .ok ⟨"w"⟩ ∧
      Workspace.Fresh judge ⟨"w"⟩ (created judge (rooted "w") installed).2 maxLinks ["w"] ∧
      judge.Judges (rooted "w") onlyAccepted maxLinks ["w"]
        (created judge (rooted "w") installed).2 ∧
      Snippet.Id.ofText "bad" ≠ .ofText "good" ∧ onlyAccepted "good" = some acceptedArtifact ∧
      (((Run.start (rooted "w")).compileAll ["bad", "good"]).run judge installed).1.1.map
        Except.isOk = [false, false] :=
  ⟨created_judge.1, created_judge.2, judges_created, by decide +kernel, rfl, by decide +kernel⟩

/-- A valid text, and then one that is not: each result is that of its text. -/
theorem faithful_good_then_bad :
    Text.isBlank "good" = false ∧ Text.isBlank "bad" = false ∧
      Snippet.Id.ofText "good" ≠ .ofText "bad" ∧
      List.Forall₂ (Faithful onlyAccepted) ["good", "bad"]
        (((Run.start (rooted "w")).compileAll ["good", "bad"]).run judge installed).1.1 := by
  have hblank : ∀ text ∈ ["good", "bad"], Text.isBlank text = false := by
    decide +kernel
  have hdifferent : ["good", "bad"].Pairwise fun other text =>
      Snippet.Id.ofText other ≠ .ofText text := by
    decide +kernel
  refine ⟨hblank _ (by decide), hblank _ (by decide), by decide +kernel, ?_⟩
  refine (faithful_iff_pairwise created_judge.1 created_judge.2 (by decide) judges_created hblank
    hdifferent).2.2 ?_
  simp [onlyAccepted, acceptedText]

end Run

end EmbeddedSolidity
