import EmbeddedSolidity.BuildScript
import EmbeddedSolidity.Proofs.Artifact.RoundTrip
import EmbeddedSolidity.Proofs.Compile.Account
import EmbeddedSolidity.Proofs.Report.Output

/-!
# What a successful build script leaves

If a build script succeeds, every source file was scanned without a rejection, and for every snippet
in them an artifact stands in the directory of artifacts, under the name of the snippet, where it is
read when the program is compiled. Links in that directory can lead astray: one artifact may be
written over another through them. So the directory must have held none, and compilers must put none
there, which is more than that they write in their workspace only, because the workspace may be this
very directory.

* `BuildScript.run_ok_complete` : the artifacts that are there;
* `BuildScript.link_in_workspace_swaps_artifacts` : a compiler that makes a link.
-/

namespace EmbeddedSolidity

open FileSystem FileSystem.FileTree

/-- Programs change only what is below the directory that they run in. -/
def Host.WritesInside (h : Host) : Prop :=
  ∀ program directory limit t,
    (∀ m p, Leads t h.current directory m p →
      SameOutside p t (h.execute program directory limit t).2) ∧
    ((∀ m p, ¬ Leads t h.current directory m p) → (h.execute program directory limit t).2 = t)

namespace BuildScript

variable {h : Host} {t : FileTree} {temporary package output lines : String} {o : Options}
  {report : Report}

/-- The directory of the sources of a package. -/
def sourcesOf (package : String) : String :=
  Path.join package "src"

/-- The directory of the artifacts. -/
def artifactsOf (output : String) : String :=
  Path.join output artifactDirectory

/-- A build script that succeeds has compiled the sources without failures and has then written the
artifacts. -/
theorem run_eq_ok {t' : FileTree}
    (hrun : (run temporary o package output).run h t = ((.ok report, lines), t')) :
    ∃ t₁ paths,
      (compileSources temporary (withWorkspace output o) [sourcesOf package]).run h t =
        (.ok report, t₁) ∧
      (report.writeArtifacts (artifactsOf output)).run h t₁ = (.ok paths, t') ∧
      report.isSuccess = true := by
  obtain ⟨compiled, t₁, hcompile, hrun⟩ := Plan.exists_run_of_bind hrun
  cases compiled with
  | error e => cases hrun
  | ok report₁ =>
    obtain ⟨written, t₂, hwrite, hrun⟩ := Plan.exists_run_of_bind hrun
    cases written with
    | error e => cases hrun
    | ok paths =>
      obtain ⟨⟨result, lines₁⟩, hconclude⟩ : ∃ out, conclude report₁ = out := ⟨_, rfl⟩
      dsimp only at hrun
      rw [hconclude] at hrun
      obtain ⟨hresult, rfl⟩ := Prod.mk.inj hrun
      obtain ⟨rfl, -⟩ := Prod.mk.inj hresult
      unfold conclude at hconclude
      split at hconclude
      · next hsuccess =>
        cases hconclude
        exact ⟨t₁, paths, hcompile, hwrite, hsuccess⟩
      · cases hconclude

/-- The report of a compilation is that of a sound account of the files that were collected. -/
theorem exists_account {paths : List String} {t₁ : FileTree}
    (hcompile : (compileSources temporary o paths).run h t = (.ok report, t₁)) :
    ∃ (c : Config) (a : Compile.Account), a.Sound c paths ∧ a.report = report ∧
      a.log = (compileSources temporary o paths).log h t ∧
      a.collected = ((collect paths).run h t).1 := by
  have hends := Plan.ends_log h (compileSources temporary o paths) t
  rw [hcompile] at hends
  cases hresolve : o.resolve temporary with
  | error e =>
    unfold compileSources at hcompile
    rw [hresolve] at hcompile
    cases hcompile
  | ok c =>
    obtain ⟨a, hreport, hlog, hsound⟩ := ends_compileSources hresolve hends
    exact ⟨c, a, hsound, (Except.ok.inj hreport).symm, hlog.symm,
      (hsound.collecting_eq hresolve hlog).2⟩

/-! ## The files -/

/-- Artifacts of snippets that are written into a directory without links are read there. -/
theorem textAt_of_writeArtifacts {t₁ t' : FileTree} {directory : String} {paths : List String}
    (hwrite : (report.writeArtifacts directory).run h t₁ = (.ok paths, t'))
    (hdirectory : directory ≠ "") (hnames : ∀ x ∈ report.distinct, Report.OfSnippet x.1)
    (hlinkless : ∀ m d, Leads t' h.current directory m d → Linkless d t₁) :
    ∀ x ∈ report.distinct,
      Plan.textAt h t' (Report.pathOf directory x.1) = .ok x.2.value.pretty := by
  obtain ⟨made, t₂, hmake, hwrite⟩ := Plan.exists_run_of_bind hwrite
  cases made with
  | error f => cases hwrite
  | ok u =>
    dsimp only at hwrite
    have hadds : Adds t₁ t₂ := by
      have hadds := adds_makeDirectories t₁ h.current directory
      rwa [show t₁.makeDirectories h.current directory = (.ok u, t₂) from hmake] at hadds
    have hresult : ((Report.writeEach directory report.distinct).run h t₂).1 = .ok paths := by
      rw [hwrite]
    have htree : ((Report.writeEach directory report.distinct).run h t₂).2 = t' := by
      rw [hwrite]
    by_cases hne : report.distinct = []
    · rw [hne]
      exact List.forall_mem_nil _
    obtain ⟨m, p, hleads⟩ := Report.exists_leads_of_writeEach hdirectory hnames hne hresult
    have hkeeps : KeepsWays t₂ t' :=
      htree ▸ Report.ensures_writeEach_keepsWays (h := h) (t := t₂) directory report.distinct
    have hfree : Linkless p t₂ := (hlinkless m p (hleads.mono hkeeps)).mono hadds.noNewLinks
    have hwritten := (Report.ensures_writeEach hdirectory hnames report.pairwise_distinct hleads hfree
      paths hresult).2
    rwa [htree] at hwritten

/-- A file that was scanned was read. -/
theorem exists_read {file : String} {log : List Exchange} {scan : Scan}
    (hscan : Plan.Ends (Scan.ofFile file) log (.ok scan)) :
    ∃ bytes source, ⟨.read file, .ok bytes⟩ ∈ log ∧ Text.decode? bytes = some source ∧
      Scan.ofSource file source = .ok scan := by
  obtain ⟨first, text, rest, rfl, hread, hrest⟩ := hscan.of_bind
  cases text with
  | error f =>
    obtain ⟨-, hresult⟩ := hrest.of_pure
    cases hresult
  | ok source =>
    obtain ⟨-, hresult⟩ := hrest.of_pure
    obtain ⟨answer, rfl, htext⟩ := hread.of_readText
    obtain ⟨bytes, rfl, hdecoded⟩ := htext source rfl
    exact ⟨bytes, source, by simp, hdecoded, hresult.symm⟩

/-- The snippet has an artifact of its own in the report, and the last one of its name is read from
the file of its name in the directory. -/
structure Embedded (h : Host) (t' : FileTree) (directory : String) (report : Report)
    (s : FoundSnippet) : Prop where
  own : ∃ e ∈ report.artifacts, e.location = s.location ∧ e.compiled.id = .ofText s.text
  last : ∃ e json,
    (report.artifacts.filter fun e => e.compiled.id = .ofText s.text).getLast? = some e ∧
      Plan.textAt h t' (Path.join directory (Snippet.Id.ofText s.text).artifactFile) = .ok json ∧
      (EmbeddedArtifact.mk (Snippet.Id.ofText s.text).name json).artifact = .ok e.compiled.artifact

theorem artifactsOf_ne_empty (output : String) : artifactsOf output ≠ "" := by
  have hsimple : Path.Simple artifactDirectory := by decide
  exact Path.join_ne_empty hsimple

/-- If a build script succeeds, every source file that was collected was read and scanned without
rejections, and every snippet in it has an artifact in the directory of artifacts, provided that this
directory held no links and no program puts one there. -/
theorem run_ok_complete
    (hrun : ((run temporary o package output).run h t).1 = (.ok report, lines))
    (hlinkless : ∀ m d, Leads ((run temporary o package output).run h t).2 h.current
      (artifactsOf output) m d → Linkless d t ∧ h.KeepsLinkless d)
    (hintegral : ∀ e ∈ report.artifacts, ∀ v ∈ e.compiled.artifact.abi, v.Integral) :
    ∀ file ∈ ((collect [sourcesOf package]).run h t).1.files,
      ∃ bytes source scan, ⟨.read file, .ok bytes⟩ ∈ (run temporary o package output).log h t ∧
        Text.decode? bytes = some source ∧ Scan.ofSource file source = .ok scan ∧
        scan.rejected = [] ∧
        ∀ s ∈ scan.snippets, Embedded h ((run temporary o package output).run h t).2
          (artifactsOf output) report s := by
  obtain ⟨t₁, paths, hcompile, hwrite, hsuccess⟩ := run_eq_ok (Prod.ext hrun rfl)
  obtain ⟨c, a, hsound, rfl, hlog, hcollected⟩ := exists_account hcompile
  have hattempt : ∀ e ∈ a.report.artifacts, (∃ text, e.compiled.id = .ofText text) ∧
      ∃ path json, Artifact.parse e.compiled.id path json = .ok e.compiled.artifact := by
    intro e he
    obtain ⟨x, hx, hresult, -⟩ := Compile.Account.exists_attempt he
    obtain ⟨hid, hparse⟩ := hsound.compiled x hx e.compiled hresult
    exact ⟨⟨_, hid⟩, hparse⟩
  have htexts := textAt_of_writeArtifacts hwrite (artifactsOf_ne_empty output) (fun x hx => by
    obtain ⟨e, he, rfl⟩ := a.report.mem_distinct x hx
    obtain ⟨⟨text, hid⟩, -⟩ := hattempt e he
    exact ⟨text, congrArg Snippet.Id.name hid⟩) (fun m d hleads => by
    obtain ⟨hbefore, hkeeps⟩ := hlinkless m d hleads
    have hafter := Plan.linkless_run hkeeps
      (compileSources temporary (withWorkspace output o) [sourcesOf package]) hbefore
    rwa [hcompile] at hafter)
  intro file hfile
  rw [← hcollected] at hfile
  obtain ⟨v, hv, rfl, scan, hscan, hrejected, hsnippets⟩ := hsound.of_isSuccess hsuccess file hfile
  have hreading := hsound.scans v hv
  rw [hscan] at hreading
  obtain ⟨bytes, source, hread, hdecoded, hsource⟩ := exists_read hreading
  refine ⟨bytes, source, scan, ?_, hdecoded, hsource, hrejected, fun s hs => ?_⟩
  · have hlogged : ⟨.read v.file, .ok bytes⟩ ∈ a.log := by
      unfold Compile.Account.log Compile.Visit.log
      simp only [List.mem_append, List.mem_flatMap]
      exact Or.inl (Or.inr ⟨v, hv, Or.inl hread⟩)
    rw [hlog] at hlogged
    exact (Plan.log_prefix_bind h _ _ t).subset hlogged
  · obtain ⟨e₀, he₀, hlocation, hid₀⟩ := hsnippets s hs
    obtain ⟨e, he, hlast, hwritten⟩ := a.report.exists_last ⟨e₀, he₀, hid₀⟩
    obtain ⟨-, path, json, hparse⟩ := hattempt e he
    have htext := htexts _ hwritten
    have hembedded := Artifact.embedded_pretty hparse (hintegral e he) (Snippet.Id.ofText s.text).name
    exact ⟨⟨e₀, he₀, hlocation, hid₀⟩, e, e.compiled.artifact.value.pretty, hlast, htext, hembedded⟩

/-- The code of the last artifact of a name in a report. -/
def codeOf (report : Report) (id : Snippet.Id) : Option String :=
  (report.artifacts.filter fun e => e.compiled.id = id).getLast?.map
    (·.compiled.artifact.bytecode.object)

/-- The code that is read from the file of a name in a directory. -/
def codeAt (h : Host) (t : FileTree) (directory : String) (id : Snippet.Id) : Option String :=
  (Plan.textAt h t (Path.join directory id.artifactFile)).toOption.bind fun json =>
    (EmbeddedArtifact.mk id.name json).bytecodeObject.toOption

/-- The code that is read for a snippet is that of its last artifact. -/
theorem Embedded.codeAt_eq {t' : FileTree} {directory : String} {s : FoundSnippet}
    (hembedded : Embedded h t' directory report s) :
    codeAt h t' directory (.ofText s.text) = codeOf report (.ofText s.text) := by
  obtain ⟨e, json, hlast, htext, hartifact⟩ := hembedded.last
  unfold codeAt codeOf EmbeddedArtifact.bytecodeObject
  rw [hlast, htext]
  dsimp only [Except.toOption, Option.bind_some]
  rw [hartifact]
  rfl

/-! ## Compilers that write in their workspace -/

/-- A host at the root of the tree whose compiler, run in a directory, makes such a change there. -/
def compiling (change : Place → FileTree → FileTree) : Host where
  current := []
  search := ["/bin"]
  execute := fun _ directory _ t =>
    (.ok ⟨.exited 0, ByteArray.empty, ByteArray.empty⟩,
      match t.entryAt [] true directory with
      | .ok (p, .directory) => change p t
      | _ => t)

/-- Put entries below a place. -/
def putAll (p : Place) (entries : List (Place × Entry)) (t : FileTree) : FileTree :=
  entries.foldl (fun t e => t.put (p ++ e.1) e.2) t

/-- A package with one source file, and the compiler beside it. -/
def packageOf (source : String) : FileTree :=
  ⟨[(["bin"], .directory), (["bin", "forge"], .file ByteArray.empty true), (["pkg"], .directory),
    (["pkg", "src"], .directory), (["pkg", "src", "lib.rs"], .file source.toUTF8 false)]⟩

/-- The text of an artifact with such code. -/
def artifactText (object : String) : String :=
  "\x7b\"abi\":[],\"bytecode\":\x7b\"object\":\"" ++ object ++ "\",\"sourceMap\":\"\"\x7d\x7d"

/-- An artifact where a compiler leaves it. -/
def builtIn (p : Place) (id : Snippet.Id) (object : String) : List (Place × Entry) :=
  [(p ++ ["dist"], .directory), (p ++ ["dist", id.sourceFile], .directory),
    (p ++ ["dist", id.sourceFile, id.artifactFile], .file (artifactText object).toUTF8 false)]

theorem not_link_packageOf (source : String) (q : Place) (target : String) :
    (packageOf source).get? q ≠ some (.link target) := by
  intro hlink
  by_cases hq : q = []
  · rw [hq] at hlink
    cases hlink
  · simp only [packageOf, get?, List.isEmpty_iff, hq, if_false] at hlink
    have hmem := mem_of_lookup hlink
    simp at hmem

theorem sameOutside_putAll {p : Place} {entries : List (Place × Entry)}
    (hbelow : ∀ e ∈ entries, e.1 ≠ []) (t : FileTree) : SameOutside p t (putAll p entries t) := by
  induction entries generalizing t with
  | nil => exact .refl p t
  | cons e rest ih =>
    rw [List.forall_mem_cons] at hbelow
    obtain ⟨name, names, hname⟩ := List.exists_cons_of_ne_nil hbelow.1
    have hput : SameOutside p t (t.put (p ++ e.1) e.2) := by
      rw [hname]
      exact sameOutside_put (below_append p name names) e.2
    exact hput.trans (ih hbelow.2 _)

theorem noNewLinks_putAll {p : Place} {entries : List (Place × Entry)}
    (hbelow : ∀ e ∈ entries, e.1 ≠ []) (hlinks : ∀ e ∈ entries, ∀ target, e.2 ≠ .link target)
    (t : FileTree) : NoNewLinks t (putAll p entries t) := by
  induction entries generalizing t with
  | nil => exact .refl t
  | cons e rest ih =>
    rw [List.forall_mem_cons] at hbelow hlinks
    exact (noNewLinks_put t (List.append_ne_nil_of_right_ne_nil p hbelow.1) hlinks.1).trans
      (ih hbelow.2 hlinks.2 _)

theorem writesInside_compiling {change : Place → FileTree → FileTree}
    (hchange : ∀ p t, SameOutside p t (change p t)) : (compiling change).WritesInside := by
  refine fun program directory limit t => ⟨fun m p hleads => ?_, fun hnowhere => ?_⟩
  · have hentry := entryAt_of_leads hleads
    change t.entryAt [] true directory = _ at hentry
    change SameOutside p t (match t.entryAt [] true directory with
      | .ok (p, .directory) => change p t
      | _ => t)
    rw [hentry]
    exact hchange p t
  · change (match t.entryAt [] true directory with
      | .ok (p, .directory) => change p t
      | _ => t) = t
    split
    · next p hentry =>
      obtain ⟨m, hleads⟩ := leads_of_entryAt hentry
      exact absurd hleads (hnowhere m p)
    · rfl

/-- A compiler that builds one artifact. -/
def building : Host :=
  compiling fun p => putAll p (builtIn [] (.ofText "A") "0xaa")

theorem keepsLinkless_building (d : Place) : building.KeepsLinkless d := by
  intro program directory limit t ht
  change Linkless d (match t.entryAt [] true directory with
    | .ok (p, .directory) => putAll p (builtIn [] (.ofText "A") "0xaa") t
    | _ => t)
  split
  · exact ht.mono (noNewLinks_putAll (by simp [builtIn]) (by simp [builtIn]) t)
  · exact ht

/-- A build script in the current directory. -/
def script (o : Options) : Plan (Except Error Report × String) :=
  run "/tmp" o "pkg" "out"

theorem integral_of_isEmpty {r : Report}
    (hall : (r.artifacts.all fun e => e.compiled.artifact.abi.isEmpty) = true) :
    ∀ e ∈ r.artifacts, ∀ v ∈ e.compiled.artifact.abi, v.Integral := by
  intro e he v hv
  have hempty := List.all_eq_true.1 hall e he
  rw [List.isEmpty_iff] at hempty
  rw [hempty] at hv
  cases hv

/-- A package with one snippet. -/
def oneSnippet : FileTree :=
  packageOf "sol!(\"A\");"

set_option maxRecDepth 100000 in
/-- Of a package with one snippet the artifact is read. -/
theorem run_ok_complete_building :
    ∃ report lines, ((script {}).run building oneSnippet).1 = (.ok report, lines) ∧
      codeOf report (.ofText "A") = some "0xaa" ∧
      ∃ source scan, Scan.ofSource "pkg/src/lib.rs" source = .ok scan ∧ scan.rejected = [] ∧
        ∀ s ∈ scan.snippets, Embedded building ((script {}).run building oneSnippet).2
          (artifactsOf "out") report s := by
  have hsummary : ((script {}).run building oneSnippet).1.1.toOption.map (fun r =>
      (r.artifacts.all fun e => e.compiled.artifact.abi.isEmpty, codeOf r (.ofText "A"))) =
        some (true, some "0xaa") := by
    decide +kernel
  have hcollected : ((collect [sourcesOf "pkg"]).run building oneSnippet).1.files =
      ["pkg/src/lib.rs"] := by
    decide +kernel
  obtain ⟨⟨result, lines⟩, hrun⟩ :
      ∃ out, ((script {}).run building oneSnippet).1 = out := ⟨_, rfl⟩
  rw [hrun] at hsummary
  cases result with
  | error e => cases hsummary
  | ok report =>
    have hpair := Option.some.inj hsummary
    have hcomplete := run_ok_complete (h := building) (t := oneSnippet) hrun
      (fun m d _ => ⟨fun name => not_link_packageOf _ _, keepsLinkless_building d⟩)
      (integral_of_isEmpty (congrArg Prod.fst hpair)) "pkg/src/lib.rs"
      (by rw [hcollected]; exact List.mem_singleton_self _)
    obtain ⟨bytes, source, scan, -, -, hscan, hrejected, hsnippets⟩ := hcomplete
    exact ⟨report, lines, hrun, congrArg Prod.snd hpair, source, scan, hscan, hrejected, hsnippets⟩

/-! ## A compiler that makes a link -/

/-- What a compiler leaves if it replaces `x` by a link to `y/z` : the root `x/..` leads to `y` from
then on, so it is `y` that is removed in the end, and not what is beside it. -/
def relinked : List (Place × Entry) :=
  [(["x"], .link "y/z"),
    ([(Snippet.Id.ofText "A").artifactFile], .link (Snippet.Id.ofText "B").artifactFile),
    (["y"], .directory), (["y", "z"], .directory), (["y", "src"], .directory)] ++
  builtIn ["y"] (.ofText "A") "0xaa" ++ builtIn ["y"] (.ofText "B") "0xbb"

/-- A compiler that changes its workspace in this way when it is first run. -/
def relinking : Host :=
  compiling fun p t =>
    if t.get? (p ++ ["x"]) = some .directory then putAll p relinked (t.eraseBelow p) else t

/-- A package with two snippets. -/
def twoSnippets : FileTree :=
  packageOf "sol!(\"A\");sol!(\"B\");"

/-- A build script whose workspace is the directory of the artifacts, by a detour. -/
def detour : Options :=
  { workspace := some "out/inline-sol/x/.." }

theorem writesInside_relinking : relinking.WritesInside := by
  refine writesInside_compiling fun p t => ?_
  split
  · have hbelow : ∀ e ∈ relinked, e.1 ≠ [] := by simp [relinked, builtIn]
    exact .trans (fun q hq => get?_eraseBelow_of_not_below t hq) (sameOutside_putAll hbelow _)
  · exact .refl p t

set_option maxRecDepth 100000 in
/-- The compiler writes in its workspace only and no links were there, but the artifact of the one
snippet is read for the other : it was written through a link that the compiler had made. -/
theorem link_in_workspace_swaps_artifacts :
    (∀ q target, twoSnippets.get? q ≠ some (.link target)) ∧ relinking.WritesInside ∧
      "pkg/src/lib.rs" ∈ ((collect [sourcesOf "pkg"]).run relinking twoSnippets).1.files ∧
      Scan.ofSource "pkg/src/lib.rs" "sol!(\"A\");sol!(\"B\");" =
        .ok ⟨[⟨"A", ⟨"pkg/src/lib.rs", 1, 1⟩⟩, ⟨"B", ⟨"pkg/src/lib.rs", 1, 11⟩⟩], []⟩ ∧
      ∃ report lines, ((script detour).run relinking twoSnippets).1 = (.ok report, lines) ∧
        (∀ e ∈ report.artifacts, ∀ v ∈ e.compiled.artifact.abi, v.Integral) ∧
        ¬ Embedded relinking ((script detour).run relinking twoSnippets).2 (artifactsOf "out") report
          ⟨"A", ⟨"pkg/src/lib.rs", 1, 1⟩⟩ := by
  refine ⟨not_link_packageOf _, writesInside_relinking, by decide +kernel, by decide +kernel, ?_⟩
  have hsummary : ((script detour).run relinking twoSnippets).1.1.toOption.map (fun r =>
      (r.artifacts.all fun e => e.compiled.artifact.abi.isEmpty, codeOf r (.ofText "A"),
        codeAt relinking ((script detour).run relinking twoSnippets).2 (artifactsOf "out")
          (.ofText "A"))) = some (true, some "0xaa", some "0xbb") := by
    decide +kernel
  obtain ⟨⟨result, lines⟩, hrun⟩ :
      ∃ out, ((script detour).run relinking twoSnippets).1 = out := ⟨_, rfl⟩
  rw [hrun] at hsummary
  cases result with
  | error e => cases hsummary
  | ok report =>
    obtain ⟨hempty, hcodes⟩ := Prod.mk.inj (Option.some.inj hsummary)
    obtain ⟨hof, hat⟩ := Prod.mk.inj hcodes
    refine ⟨report, lines, hrun, integral_of_isEmpty hempty, fun hembedded => ?_⟩
    have heq := hembedded.codeAt_eq
    rw [hof, hat] at heq
    exact absurd heq (by decide)

end BuildScript

end EmbeddedSolidity
