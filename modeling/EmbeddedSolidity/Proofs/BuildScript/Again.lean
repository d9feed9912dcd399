import EmbeddedSolidity.Proofs.BuildScript.Job
import EmbeddedSolidity.Proofs.Compile.Afresh
import EmbeddedSolidity.Proofs.Report.Again

/-!
# Build scripts that are run again

A build script whose workspace could be made leaves nothing but artifacts. So it goes the same way when
it is run again, and writes the same artifacts to the same places, if it does not look at what it
writes.

* `Job.again` : a job that is done again;
* `BuildScript.run_again` : build scripts whose workspace is in the output directory.
-/

namespace EmbeddedSolidity

open FileSystem FileSystem.FileTree Workspace

variable {h : Host} {t : FileTree} {m m' : Nat} {d d' : Place} {name name' path : String}

namespace FileSystem.FileTree

/-- A path that is not longer than another one below the same directory is as good as that. -/
theorem pathFault?_join_shorter (hpath : path ≠ "") (hname : Path.Simple name)
    (hname' : Workspace.Named name') (hsize : name'.utf8ByteSize ≤ name.utf8ByteSize)
    (hfault : pathFault? (Path.join path name) = none) : pathFault? (Path.join path name') = none := by
  have hbase := pathFault?_of_join hpath hname hfault
  rw [pathFault?_eq_none_iff] at hfault hbase ⊢
  refine ⟨noNul_join hname'.simple hname'.noNul hbase.1, Path.join_ne_empty hname'.simple, ?_⟩
  have hlong := hfault.2.2
  rw [Path.utf8ByteSize_join hpath hname] at hlong
  rw [Path.utf8ByteSize_join hpath hname'.simple]
  omega

/-- A simple name behind a directory. -/
theorem Leads.names_join {current : Place} (hleads : Leads t current path m d)
    (hthere : t.get? d = some .directory) (hname : Workspace.Named name)
    (hfault : pathFault? (Path.join path name) = none) :
    Names t current (Path.join path name) m d name := by
  have hpath : path ≠ "" := (pathFault?_eq_none_iff.1 hleads.fault).2.1
  refine ⟨hfault, hname.plain, hthere, Path.parts path, Path.parts_join hname.simple, ?_⟩
  unfold startOf
  rw [Path.isAbsolute_join hpath hname.simple]
  exact hleads.reaches

end FileSystem.FileTree

namespace Job

variable {j : Job} {c : Config}

/-- A job that is done again has the same result and leaves the tree as it is : its workspace could be
made, its output directory is reached without the workspace and has no links, and the sources and the
compiler are found without a look at either. -/
theorem again (hresolve : j.options.resolve j.temporary = .ok c) (hwf : t.WellFormed)
    (hroot : Denotes t h.current c.root m d name) (hslash : SlashOfDirectory t c.root (d ++ [name]))
    (hmade : ∃ w, ((Workspace.create c).run h t).1 = .ok w)
    (hencloses : h.Encloses c.root (d ++ [name]))
    (houtput : Names (t.eraseAll (d ++ [name])) h.current j.output m' d' name')
    (hseparate : ∀ q, d ++ [name] <+: q → ¬ d' ++ [name'] <+: q)
    (hlink : ∀ target, t.get? (d' ++ [name']) ≠ some (.link target))
    (hlinkless : Linkless (d' ++ [name']) t)
    (hcollecting : ∀ x ∈ (collect j.paths).log h t,
      x.1.Avoids h ({q | d ++ [name] <+: q} ∪ {q | d' ++ [name'] <+: q}) t)
    (hreading : ∀ file ∈ ((collect j.paths).run h t).1.files,
      (Call.read file).Avoids h ({q | d ++ [name] <+: q} ∪ {q | d' ++ [name'] <+: q}) t)
    (hlocate : ∀ u, Apart {q | d ++ [name] <+: q} t u →
      (Call.locate c.executable).Avoids h {q | d' ++ [name'] <+: q} u) :
    (j.plan.run h (j.plan.run h t).2).1 = (j.plan.run h t).1 ∧
      Apart ∅ (j.plan.run h t).2 (j.plan.run h (j.plan.run h t).2).2 := by
  obtain ⟨hone, hnoLinks, hagain⟩ := Compile.report_again hwf hroot hslash hmade hencloses hseparate
    hcollecting hreading hlocate
  have hcompile : ∀ u, (compileSources j.temporary j.options j.paths).run h u =
      (.ok ((Compile.report c j.paths).run h u).1, ((Compile.report c j.paths).run h u).2) := by
    intro u
    unfold compileSources
    rw [hresolve]
    exact Plan.run_bind ..
  have hplan : ∀ u, j.plan.run h u =
      (write j.output (.ok ((Compile.report c j.paths).run h u).1)).run h
        ((Compile.report c j.paths).run h u).2 := by
    intro u
    unfold plan
    rw [Plan.run_bind, hcompile]
  have hwrite : ∀ (r : Report) u, (write j.output (.ok r)).run h u =
      (.ok (r, ((r.writeArtifacts j.output).run h u).1), ((r.writeArtifacts j.output).run h u).2) :=
    fun r u => by rw [write, map_eq_pure_bind, Plan.run_bind]; rfl
  have hsettles := Report.settles_writeArtifacts (ofSnippet_of_compileSources (hcompile t))
    (houtput.mono ((cut_eraseAll t (concat_ne_nil d name)).keepsWays hone.sameApart))
    (fun target hthere => hlink target (hnoLinks _ target hthere)) (hlinkless.mono hnoLinks)
  rw [hplan t, hwrite]
  obtain ⟨hresult, hsame⟩ := hagain _ hsettles.apart hsettles.keeps
  obtain ⟨hwritten, hlast⟩ := hsettles.again _ hsame
  rw [hplan, hresult, hwrite, hwritten]
  exact ⟨rfl, hlast⟩

end Job

namespace BuildScript

variable {temporary : String} {o : Options} {package output : String}

theorem named_workspaceDirectory : Named workspaceDirectory := by
  constructor <;> decide

theorem named_artifactDirectory : Named artifactDirectory := by
  constructor <;> decide

/-- Without a choice, the workspace is in the output directory. -/
theorem of_resolve {c : Config} (hdefault : o.workspace = none)
    (hresolve : (withWorkspace output o).resolve temporary = .ok c) :
    c.root = Path.join output workspaceDirectory ∧
      c.executable = o.executable.getD defaultExecutable := by
  obtain ⟨hroot, hexecutable, -⟩ :=
    Job.of_resolve (j := job temporary o "" output) (c := c) hresolve
  unfold Job.root at hroot
  unfold Job.executable at hexecutable
  unfold job withWorkspace at hroot hexecutable
  rw [hdefault] at hroot hexecutable
  exact ⟨hroot, hexecutable⟩

/-- No place is in the workspace and in the directory of the artifacts. -/
theorem not_artifact_of_workspace {q : Place} (hq : d ++ [workspaceDirectory] <+: q) :
    ¬ d ++ [artifactDirectory] <+: q := by
  intro hq'
  have heq := (List.prefix_of_prefix_length_le hq hq' (by simp)).eq_of_length (by simp)
  exact absurd (List.append_cancel_left heq) (by decide)

/-- What a build script may change in its output directory. -/
def generated (d : Place) : Set Place :=
  {q | d ++ [workspaceDirectory] <+: q} ∪ {q | d ++ [artifactDirectory] <+: q}

/-- What a build script relies on to be run again : its output directory is reached without the
workspace, the directory of the artifacts is no link and no link is in it, the compiler works in the
workspace, the sources are found and read without a look at what is generated, and the compiler is found
without a look at artifacts. -/
structure Repeatable (h : Host) (o : Options) (package output : String) (m : Nat) (d : Place)
    (t : FileTree) : Prop where
  reached : Leads (t.eraseAll (d ++ [workspaceDirectory])) h.current output m d
  directory : t.get? d = some .directory
  link : ∀ target, t.get? (d ++ [artifactDirectory]) ≠ some (.link target)
  linkless : Linkless (d ++ [artifactDirectory]) t
  encloses : h.Encloses (Path.join output workspaceDirectory) (d ++ [workspaceDirectory])
  collecting : ∀ x ∈ (collect [sourcesOf package]).log h t, x.1.Avoids h (generated d) t
  reading : ∀ file ∈ ((collect [sourcesOf package]).run h t).1.files,
    (Call.read file).Avoids h (generated d) t
  compiler : ∀ u, Apart {q | d ++ [workspaceDirectory] <+: q} t u →
    (Call.locate (o.executable.getD defaultExecutable)).Avoids h
      {q | d ++ [artifactDirectory] <+: q} u

/-- A name in the output directory, which is reached without the workspace. -/
theorem Repeatable.names (hr : Repeatable h o package output m d t) (hname : Named name)
    (hfault : pathFault? (Path.join output name) = none) :
    Names (t.eraseAll (d ++ [workspaceDirectory])) h.current (Path.join output name) m d name := by
  refine hr.reached.names_join ?_ hname hfault
  rw [sameApart_eraseAll _ t d fun hprefix => by simpa using hprefix.length_le]
  exact hr.directory

/-- A build script whose workspace could be made has the same result when it is run again, prints the
same, and leaves the whole tree as the first run has left it. -/
theorem run_again (hwf : t.WellFormed) (hdefault : o.workspace = none)
    (hrepeatable : Repeatable h o package output m d t)
    (hcreated : ∀ c, (withWorkspace output o).resolve temporary = .ok c →
      ∃ w, ((Workspace.create c).run h t).1 = .ok w) :
    ((run temporary o package output).run h ((run temporary o package output).run h t).2).1 =
        ((run temporary o package output).run h t).1 ∧
      Apart ∅ ((run temporary o package output).run h t).2
        ((run temporary o package output).run h ((run temporary o package output).run h t).2).2 := by
  have hrun : ∀ u, (run temporary o package output).run h u =
      (told package ((job temporary o package output).plan.run h u).1,
        ((job temporary o package output).plan.run h u).2) := by
    intro u
    rw [run_eq, map_eq_pure_bind, Plan.run_bind]
    rfl
  cases hresolve : (withWorkspace output o).resolve temporary with
  | error e =>
    have hinvalid : ∀ u, (job temporary o package output).plan.run h u = (.error e, u) := by
      intro u
      unfold Job.plan compileSources job
      dsimp only
      rw [hresolve]
      rfl
    rw [hrun, hrun, hinvalid, hinvalid]
    exact ⟨rfl, .refl _ t⟩
  | ok c =>
    obtain ⟨hroot, hexecutable⟩ := of_resolve hdefault hresolve
    obtain ⟨w, hmade⟩ := hcreated c hresolve
    have hpath : output ≠ "" := (pathFault?_eq_none_iff.1 hrepeatable.reached.fault).2.1
    have hfault : pathFault? (Path.join output workspaceDirectory) = none := by
      refine pathFault?_of_join (Path.join_ne_empty named_workspaceDirectory.simple)
        named_manifest.simple ?_
      rw [← hroot]
      exact pathFault?_of_create hmade
    have hfault' : pathFault? (Path.join output artifactDirectory) = none :=
      pathFault?_join_shorter hpath named_workspaceDirectory.simple named_artifactDirectory
        (by decide) hfault
    have hslash : SlashOfDirectory t c.root (d ++ [workspaceDirectory]) := by
      intro hend
      rw [hroot, Path.endsInSlash_join named_workspaceDirectory.simple] at hend
      cases hend
    obtain ⟨hresult, hapart⟩ := Job.again (j := job temporary o package output) hresolve hwf
      (hroot ▸ hrepeatable.names named_workspaceDirectory hfault) hslash ⟨w, hmade⟩
      (hroot ▸ hrepeatable.encloses) (hrepeatable.names named_artifactDirectory hfault')
      (fun _ => not_artifact_of_workspace) hrepeatable.link hrepeatable.linkless
      hrepeatable.collecting hrepeatable.reading (hexecutable ▸ hrepeatable.compiler)
    rw [hrun, hrun, hresult]
    exact ⟨rfl, hapart⟩

/-- A package with such a source, and a directory for what is built. -/
def withOutput (source : String) : FileTree :=
  ⟨(packageOf source).entries ++ [(["out"], .directory)]⟩

/-- A package with one snippet, and a directory for what is built. -/
def packageAndOutput : FileTree :=
  withOutput "sol!(\"A\");"

/-- A compiler for this package. -/
def onceForPackage : Host :=
  buildingOnce (.ofText "A") "0xaa"

theorem head_of_generated {q : Place} (hq : q ∈ generated ["out"]) :
    ∃ name ∈ ["out"], q.head? = some name := by
  refine ⟨"out", List.mem_singleton_self _, ?_⟩
  rcases hq with ⟨rest, rfl⟩ | ⟨rest, rfl⟩ <;> rfl

set_option maxRecDepth 100000 in
theorem repeatable_packageAndOutput :
    ∃ m, Repeatable onceForPackage {} "pkg" "out" m ["out"] packageAndOutput := by
  obtain ⟨hcollecting, hreading⟩ :
      (((collect [sourcesOf "pkg"]).log onceForPackage packageAndOutput).all fun x =>
          x.1.keepsOff onceForPackage packageAndOutput ["out"]) = true ∧
        (((collect [sourcesOf "pkg"]).run onceForPackage packageAndOutput).1.files.all fun file =>
          (Call.read file).keepsOff onceForPackage packageAndOutput ["out"]) = true := by
    decide +kernel
  have hleads : (packageAndOutput.eraseAll (["out"] ++ [workspaceDirectory])).entryAt [] true "out" =
      .ok (["out"], .directory) := by
    decide +kernel
  have hlinks := not_link_of_entries (t := packageAndOutput) (by decide)
  have hcompiler : (Call.locate "forge").Avoids onceForPackage (generated ["out"]) packageAndOutput :=
    Call.avoids_of_keepsOff (fun _ => head_of_generated) (by decide +kernel)
  obtain ⟨m, hleads⟩ := leads_of_entryAt hleads
  exact ⟨m,
    { reached := hleads
      directory := rfl
      link := fun target => hlinks _ target
      linkless := fun name target => hlinks _ target
      encloses := encloses_buildingOnce _ _ _ _
      collecting := fun x hx => Call.avoids_of_keepsOff (fun _ => head_of_generated)
        (List.all_eq_true.1 hcollecting x hx)
      reading := fun file hfile => Call.avoids_of_keepsOff (fun _ => head_of_generated)
        (List.all_eq_true.1 hreading file hfile)
      compiler := fun u hu => (hcompiler.congr (hu.mono Set.subset_union_left)).mono
        Set.subset_union_right }⟩

set_option maxRecDepth 100000 in
theorem script_packageAndOutput :
    ((script {}).run onceForPackage packageAndOutput).1.1.toOption.map (codeOf · (.ofText "A")) =
      some (some "0xaa") := by
  decide +kernel

set_option maxRecDepth 100000 in
theorem created_packageAndOutput {c : Config}
    (hresolve : (withWorkspace "out" {}).resolve "/tmp" = .ok c) :
    ∃ w, ((Workspace.create c).run onceForPackage packageAndOutput).1 = .ok w := by
  have hcreate : ((withWorkspace "out" {}).resolve "/tmp").toOption.map (fun c =>
      ((Workspace.create c).run onceForPackage packageAndOutput).1.toOption) =
        some (some ⟨Path.join "out" workspaceDirectory⟩) := by
    decide +kernel
  rw [hresolve] at hcreate
  have hsome := Option.some.inj hcreate
  dsimp only at hsome
  cases hmade : ((Workspace.create c).run onceForPackage packageAndOutput).1 with
  | error e =>
    rw [hmade] at hsome
    cases hsome
  | ok w => exact ⟨w, rfl⟩

/-- The artifact is built and written again. -/
theorem run_again_packageAndOutput :
    ∃ report lines, ((script {}).run onceForPackage packageAndOutput).1 = (.ok report, lines) ∧
      codeOf report (.ofText "A") = some "0xaa" ∧
      ((script {}).run onceForPackage ((script {}).run onceForPackage packageAndOutput).2).1 =
        (.ok report, lines) ∧
      Apart ∅ ((script {}).run onceForPackage packageAndOutput).2
        ((script {}).run onceForPackage ((script {}).run onceForPackage packageAndOutput).2).2 := by
  obtain ⟨m, hrepeatable⟩ := repeatable_packageAndOutput
  obtain ⟨hresult, hapart⟩ := run_again (wellFormed_of_entries (by decide)) rfl hrepeatable
    fun _ => created_packageAndOutput
  have hcode := script_packageAndOutput
  obtain ⟨⟨result, lines⟩, hrun⟩ :
      ∃ out, ((script {}).run onceForPackage packageAndOutput).1 = out := ⟨_, rfl⟩
  rw [hrun] at hcode
  cases result with
  | error e => cases hcode
  | ok report => exact ⟨report, lines, hrun, Option.some.inj hcode, hresult.trans hrun, hapart⟩

/-! ## Runs that go another way -/

/-- Whether the workspace of a build script can be made, and whether the script succeeds when it is run
and when it is run again. -/
def outcomes (h : Host) (t : FileTree) (o : Options) (package output : String) : Bool × Bool × Bool :=
  let first := (run "/tmp" o package output).run h t
  let second := (run "/tmp" o package output).run h first.2
  (((withWorkspace output o).resolve "/tmp").toOption.any fun c =>
      ((Workspace.create c).run h t).1.toOption.isSome,
    first.1.1.toOption.isSome, second.1.1.toOption.isSome)

/-- Whether a build script succeeds, and the entries that it leaves. -/
def ending (h : Host) (t : FileTree) (o : Options) (package output : String) :
    Bool × List (Place × Entry) :=
  let done := (run "/tmp" o package output).run h t
  (done.1.1.toOption.isSome, done.2.entries)

/-- The second run starts from what the first one leaves. -/
theorem outcomes_of_ending {h : Host} {t : FileTree} {o : Options} {package output : String}
    {made first second : Bool} {left : List (Place × Entry)}
    (hmade : (((withWorkspace output o).resolve "/tmp").toOption.any fun c =>
      ((Workspace.create c).run h t).1.toOption.isSome) = made)
    (hfirst : ending h t o package output = (first, left))
    (hsecond : (ending h ⟨left⟩ o package output).1 = second) :
    outcomes h t o package output = (made, first, second) := by
  cases hfirst
  cases hmade
  cases hsecond
  rfl

/-- A build script goes on from the report of its sources, and from the entries that are there then. -/
theorem ending_of_compiled {h : Host} {t t' : FileTree} {o : Options} {package output : String}
    {report : Report} (hsuccess : report.isSuccess = true)
    (hcompile : (compileSources "/tmp" (withWorkspace output o) [sourcesOf package]).run h t =
      (.ok report, t')) :
    ending h t o package output =
      (((report.writeArtifacts (artifactsOf output)).run h t').1.toOption.isSome,
        ((report.writeArtifacts (artifactsOf output)).run h t').2.entries) := by
  have hrun : (run "/tmp" o package output).run h t = _ := Plan.run_bind h _ _ t
  unfold sourcesOf at hcompile
  unfold ending artifactsOf
  rw [hrun, hcompile]
  dsimp only
  rw [Plan.run_bind]
  obtain ⟨written, t₂⟩ := (report.writeArtifacts (Path.join output artifactDirectory)).run h t'
  cases written with
  | error e => rfl
  | ok paths =>
    dsimp only
    unfold conclude
    rw [if_pos hsuccess]
    rfl

/-- What is in a report of one artifact with an empty interface, and of no failure. -/
def sole? : Report → Option (Location × Snippet.Id × Bytecode)
  | ⟨[⟨location, ⟨id, ⟨[], bytecode⟩⟩⟩], []⟩ => some (location, id, bytecode)
  | _ => none

theorem eq_of_sole? {r : Report} {location : Location} {id : Snippet.Id} {bytecode : Bytecode}
    (h : sole? r = some (location, id, bytecode)) :
    r = ⟨[⟨location, ⟨id, ⟨[], bytecode⟩⟩⟩], []⟩ := by
  unfold sole? at h
  split at h
  · cases h
    rfl
  · cases h

/-- An earlier workspace in the output directory. -/
def withEarlier (source : String) (entries : List (Place × Entry)) : FileTree :=
  ⟨(withOutput source).entries ++ [(["out", workspaceDirectory], .directory),
    (["out", workspaceDirectory, Manifest.fileName],
      .file (Manifest.ofVersion Manifest.defaultSolc).render.toUTF8 false)] ++ entries⟩

/-- An earlier workspace with a directory in it. -/
def withDirectory : FileTree :=
  withEarlier "sol!(\"A\");" [(["out", workspaceDirectory, "y"], .directory)]

/-- A link to the source in the place of the artifact. -/
def withLink : FileTree :=
  ⟨packageAndOutput.entries ++ [(["out", artifactDirectory], .directory),
    (["out", artifactDirectory, (Snippet.Id.ofText "A").artifactFile], .link "../../pkg/src/lib.rs")]⟩

/-- A compiler that leaves a link to the sources of the package in its own sources. -/
def linkingSource : Host :=
  compiling fun p => putAll p (builtIn [] (.ofText "A") "0xaa" ++ builtIn [] (.ofText "B") "0xbb" ++
    [(["src", (Snippet.Id.ofText "B").sourceFile], .link "/pkg/src/lib.rs")])

theorem writesInside_linkingSource : linkingSource.WritesInside :=
  writesInside_compiling fun _ t => sameOutside_putAll (by simp [builtIn]) t

/-- The text of an artifact as it is written. -/
def artifactWritten (object : String) : String :=
  "\x7b\n  \"abi\": [],\n  \"bytecode\": \x7b\n    \"object\": \"" ++ object ++
    "\",\n    \"sourceMap\": \"\"\n  \x7d\n\x7d"

/-- The entries that are left where the output directory is behind the workspace. -/
def leftBehind : List (Place × Entry) :=
  packageAndOutput.entries ++ [(["out", workspaceDirectory], .directory)]

-- evaluated in parts, which takes less memory than both runs at once
set_option maxRecDepth 100000 in
theorem outcomes_throughOutput :
    outcomes onceForPackage withDirectory {} "pkg" "out/inline-sol-forge-project/y/../.." =
      (true, true, false) := by
  obtain ⟨hreport, hleft⟩ :
      ((compileSources "/tmp" (withWorkspace "out/inline-sol-forge-project/y/../.." {})
          [sourcesOf "pkg"]).run onceForPackage withDirectory).1.toOption.bind sole? =
        some (⟨"pkg/src/lib.rs", 1, 1⟩, .ofText "A", ⟨"0xaa", ""⟩) ∧
      ((compileSources "/tmp" (withWorkspace "out/inline-sol-forge-project/y/../.." {})
          [sourcesOf "pkg"]).run onceForPackage withDirectory).2.entries = leftBehind := by
    decide +kernel
  obtain ⟨⟨result, t'⟩, hcompile⟩ : ∃ out, (compileSources "/tmp" (withWorkspace
      "out/inline-sol-forge-project/y/../.." {}) [sourcesOf "pkg"]).run onceForPackage withDirectory =
        out := ⟨_, rfl⟩
  rw [hcompile] at hreport hleft
  cases result with
  | error e => cases hreport
  | ok report =>
    obtain rfl := eq_of_sole? hreport
    obtain rfl : t' = ⟨leftBehind⟩ := congrArg FileTree.mk hleft
    have hwritten : ending onceForPackage withDirectory {} "pkg" "out/inline-sol-forge-project/y/../.." =
        (true, leftBehind ++ [(["out", workspaceDirectory, "y"], .directory),
          (["out", artifactDirectory], .directory),
          (["out", artifactDirectory, (Snippet.Id.ofText "A").artifactFile],
            .file (artifactWritten "0xaa").toUTF8 false)]) :=
      (ending_of_compiled rfl hcompile).trans (by decide +kernel)
    exact outcomes_of_ending (by decide +kernel) hwritten (by decide +kernel)

set_option maxRecDepth 100000 in
theorem outcomes_links :
    outcomes onceForPackage withLink {} "pkg" "out" = (true, true, false) ∧
      outcomes linkingSource (withOutput "sol!(\"A\");sol!(\"B\");") {} "pkg" "out" =
        (true, true, false) :=
  ⟨by decide +kernel, by decide +kernel⟩

set_option maxRecDepth 100000 in
/-- Paths through what is generated, to the sources, the output directory and the compiler, and links to
the sources, in the place of an artifact and from a compiler : with each of these the second run ends in
another way than the first one, although the workspace is made each time. -/
theorem run_again_differs :
    (∀ directory p, onceForPackage.Encloses directory p) ∧ linkingSource.WritesInside ∧
      ((withEarlier "" []).entryAt [] true (sourcesOf "out/inline-sol-forge-project/../../pkg") =
          .ok (["pkg", "src"], .directory) ∧
        (∀ q target, (withEarlier "" []).get? q ≠ some (.link target)) ∧
        outcomes onceForPackage (withEarlier "" []) {} "out/inline-sol-forge-project/../../pkg" "out" =
          (true, true, false)) ∧
      (withDirectory.entryAt [] true "out/inline-sol-forge-project/y/../.." =
          .ok (["out"], .directory) ∧
        outcomes onceForPackage withDirectory {} "pkg" "out/inline-sol-forge-project/y/../.." =
          (true, true, false)) ∧
      outcomes onceForPackage packageAndOutput { executable := some "out/inline-sol/../../bin/forge" }
        "pkg" "out" = (true, false, true) ∧
      outcomes onceForPackage withLink {} "pkg" "out" = (true, true, false) ∧
      outcomes linkingSource (withOutput "sol!(\"A\");sol!(\"B\");") {} "pkg" "out" =
        (true, true, false) := by
  have hsources : (withEarlier "" []).entryAt [] true
      (sourcesOf "out/inline-sol-forge-project/../../pkg") = .ok (["pkg", "src"], .directory) := by
    decide +kernel
  have hlinks := not_link_of_entries (t := withEarlier "" []) (by decide +kernel)
  have houtput : withDirectory.entryAt [] true "out/inline-sol-forge-project/y/../.." =
      .ok (["out"], .directory) := by
    decide +kernel
  have hthroughSources : outcomes onceForPackage (withEarlier "" []) {}
      "out/inline-sol-forge-project/../../pkg" "out" = (true, true, false) := by
    decide +kernel
  have hthroughCompiler : outcomes onceForPackage packageAndOutput
      { executable := some "out/inline-sol/../../bin/forge" } "pkg" "out" = (true, false, true) := by
    decide +kernel
  exact ⟨fun directory p => encloses_buildingOnce _ _ directory p, writesInside_linkingSource,
    ⟨hsources, hlinks, hthroughSources⟩, ⟨houtput, outcomes_throughOutput⟩, hthroughCompiler,
    outcomes_links⟩

end BuildScript

end EmbeddedSolidity
