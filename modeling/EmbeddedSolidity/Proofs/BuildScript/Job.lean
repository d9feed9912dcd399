import EmbeddedSolidity.Proofs.BuildScript.Complete
import EmbeddedSolidity.Proofs.Compile.Framed
import EmbeddedSolidity.Proofs.Report.Again
import EmbeddedSolidity.Proofs.Report.Framed

/-!
# Jobs

A job compiles snippets and writes their artifacts into a directory. A build script is a job and some
lines that tell how it went. A job changes its workspace and its output directory, and makes the
directories that are missing above this one.

* `Job.plan`, `BuildScript.run_eq` : jobs, and build scripts as jobs;
* `Site.Fits`, `Job.along` : every call of a job in a frame that has its root and its output directory;
* `BuildScript.encloses_buildingOnce` : a compiler that works in its workspace only.
-/

namespace EmbeddedSolidity

open FileSystem FileSystem.FileTree Workspace

/-- A compilation, and the directory that its artifacts are written to. -/
structure Job where
  temporary : String
  options : Options
  paths : List String
  output : String

namespace Job

/-- The report, and the artifacts written if there is one. -/
def write (output : String) :
    Except Error Report → Plan (Except Error (Report × Except Error (List String)))
  | .error e => pure (.error e)
  | .ok report => (fun written => .ok (report, written)) <$> report.writeArtifacts output

/-- Compile and write. -/
def plan (j : Job) : Plan (Except Error (Report × Except Error (List String))) :=
  compileSources j.temporary j.options j.paths >>= write j.output

/-- The root of the workspace. -/
def root (j : Job) : String :=
  j.options.workspace.getD (Path.join j.temporary defaultRootName)

/-- The name of the compiler. -/
def executable (j : Job) : String :=
  j.options.executable.getD defaultExecutable

/-- The configuration of a job has its root and its compiler. -/
theorem of_resolve {j : Job} {c : Config} (hresolve : j.options.resolve j.temporary = .ok c) :
    c.root = j.root ∧ c.executable = j.executable ∧ c.isDefaultRoot = j.options.workspace.isNone := by
  unfold Options.resolve at hresolve
  unfold root executable
  dsimp only [bind, Except.bind, pure, Except.pure] at hresolve
  -- Only the version and the executable can be refused.
  repeat' split at hresolve
  all_goals cases hresolve
  all_goals simp_all

end Job

namespace BuildScript

/-- The job of a build script. -/
def job (temporary : String) (o : Options) (package output : String) : Job :=
  ⟨temporary, withWorkspace output o, [sourcesOf package], artifactsOf output⟩

/-- The result of a build script and what it prints, from the end of its job. -/
def told (package : String) :
    Except Error (Report × Except Error (List String)) → Except Error Report × String
  | .error e => (.error e, watchLine (sourcesOf package))
  | .ok (_, .error e) => (.error e, watchLine (sourcesOf package))
  | .ok (report, .ok _) => ((conclude report).1, watchLine (sourcesOf package) ++ (conclude report).2)

/-- A build script is its job, and what is told of it. -/
theorem run_eq (temporary : String) (o : Options) (package output : String) :
    run temporary o package output = told package <$> (job temporary o package output).plan := by
  unfold run Job.plan
  rw [map_eq_pure_bind, bind_assoc]
  refine bind_congr fun compiled => ?_
  cases compiled with
  | error e => rfl
  | ok report =>
    dsimp only [Job.write]
    rw [map_eq_pure_bind, bind_assoc]
    refine bind_congr fun written => ?_
    cases written <;> rfl

end BuildScript

/-! ## Frames for jobs -/

/-- Where the root and the output directory of a job are : the root is a name in a directory, the output
directory has some names behind a directory, of which the first ones may be there. -/
structure Site where
  rootLinks : Nat
  rootIn : Place
  rootName : String
  outputLinks : Nat
  outputIn : Place
  outputNames : List String

namespace Site

/-- The place of the root. -/
def root (s : Site) : Place :=
  s.rootIn ++ [s.rootName]

/-- The place of the output directory. -/
def output (s : Site) : Place :=
  s.outputIn ++ s.outputNames

variable {h : Host} {root output : String} {s : Site} {base t : FileTree} {above : Set Place}
  {F : Frame}

/-- The frame has the root and the output directory. Nothing is at the root in the base, and the places
above the output directories are not in it. -/
structure Fits (h : Host) (root output : String) (s : Site) (base : FileTree) (above : Set Place)
    (F : Frame) : Prop where
  admits : Report.Admits h output s.outputLinks s.outputIn s.outputNames base above F
  names : Names base h.current root s.rootLinks s.rootIn s.rootName
  own : ∀ q, s.root <+: q → q ∈ F.own
  other : ∀ q, s.root <+: q → q ∉ F.other
  apart : ∀ q, s.root <+: q → q ∉ above
  free : ∀ q, s.root <+: q → base.get? q = none

/-- Work at the root leaves a tree good. -/
theorem Fits.good_of_apart (hs : s.Fits h root output base above F) {t' : FileTree}
    (hapart : Apart {q | s.root <+: q} t t') (hwf : t'.WellFormed) (hgood : F.good t) :
    F.good t' := by
  rw [hs.admits.good] at hgood ⊢
  exact hgood.of_apart (fun q hq => hs.apart q hq) hapart hwf
    (hgood.keeps_of_apart (fun q hq => hs.free q hq) hapart)

theorem Fits.houses (hs : s.Fits h root output base above F) :
    Houses h root s.rootLinks s.rootIn s.rootName F where
  own := fun q hq => hs.own q hq
  other := hs.other
  denotes := fun t hgood => by
    rw [hs.admits.good] at hgood
    exact hgood.denotes hs.names hs.free
  keeps := fun t _ hstarts hapart hgood =>
    hs.good_of_apart hapart (h.wellFormed_answer (hs.admits.wellFormed_of_good hgood) hstarts) hgood

end Site

namespace Job

variable {h : Host} {j : Job} {s : Site} {base t : FileTree} {above : Set Place} {F : Frame}

/-- The artifacts of a report are named by snippets. -/
theorem ofSnippet_of_compileSources {temporary : String} {o : Options} {paths : List String}
    {report : Report} {t' : FileTree}
    (hcompile : (compileSources temporary o paths).run h t = (.ok report, t')) :
    ∀ x ∈ report.distinct, Report.OfSnippet x.1 := by
  obtain ⟨c, a, hsound, rfl, -, -⟩ := BuildScript.exists_account hcompile
  intro x hx
  obtain ⟨e, he, rfl⟩ := a.report.mem_distinct x hx
  obtain ⟨y, hy, hresult, -⟩ := Compile.Account.exists_attempt he
  exact ⟨_, congrArg Snippet.Id.name (hsound.compiled y hy e.compiled hresult).1⟩

/-- What a job relies on, whatever is in its workspace : the compiler works in the workspace, and its
sources, its compiler and the manifest of an earlier workspace are found without a look at what is not
its own. -/
structure Overlooks (h : Host) (j : Job) (p : Place) (others : Set Place) (t : FileTree) : Prop where
  encloses : h.Encloses j.root p
  sources : Collect.Overlooks h others p j.paths t
  compiler : ∀ u, Apart {q | p <+: q} t u → (Call.locate j.executable).Avoids h others u

/-- Compiling in a frame. Only what is at the root changes, no link is made, and if a workspace could
be made there, nothing is left of it. -/
theorem along_compile (hfits : s.Fits h j.root j.output base above F)
    (hgood : F.good t) (hslash : SlashOfDirectory t j.root s.root)
    (hoverlooks : j.Overlooks h s.root F.other t)
    (hmanifest : j.options.workspace ≠ none → F.Allows h (.read (manifestPath ⟨j.root⟩)) t) :
    Plan.Along h (F.Allows h) (compileSources j.temporary j.options j.paths) t fun _ t' =>
      Apart {q | s.root <+: q} t t' ∧ NoNewLinks t t' ∧
        ∀ c, j.options.resolve j.temporary = .ok c →
          (∃ w, ((Workspace.create c).run h t).1 = .ok w) → ∀ q, s.root <+: q → t'.get? q = none := by
  unfold compileSources
  cases hresolve : j.options.resolve j.temporary with
  | error e => exact ⟨.refl _ t, .refl t, nofun⟩
  | ok c =>
    obtain ⟨hroot, hexecutable, hdefault⟩ := of_resolve hresolve
    rw [← hroot] at hfits hslash hmanifest
    have hhouses := hfits.houses
    have hwf := hfits.admits.wellFormed_of_good hgood
    have hencloses : h.Encloses c.root s.root := hroot ▸ hoverlooks.encloses
    refine (Compile.along_report hhouses (fun _ _ _ hallows => hallows)
      (fun u program hsettled => hhouses.allows_execute hsettled hencloses program c.timeout
        fun u hapart hu => hfits.good_of_apart hapart
          (hencloses.wellFormed program c.timeout u (hfits.admits.wellFormed_of_good hu)) hu)
      hwf (hhouses.denotes t hgood) hslash hencloses hoverlooks.sources
      (fun u hu => hexecutable ▸ hoverlooks.compiler u hu) fun hchosen => hmanifest ?_).bind ?_
    · rw [hdefault, Option.isNone_eq_false_iff, Option.isSome_iff_ne_none] at hchosen
      exact hchosen
    · rintro report t' ⟨⟨hapart, hlinks⟩, hcreated⟩
      refine ⟨hapart, hlinks, ?_⟩
      rintro _ ⟨rfl⟩
      exact hcreated

/-- Every call of a job is one that its frame allows. -/
theorem along (hfits : s.Fits h j.root j.output base above F)
    (hgood : F.good t) (hslash : SlashOfDirectory t j.root s.root)
    (hoverlooks : j.Overlooks h s.root F.other t)
    (hmanifest : j.options.workspace ≠ none → F.Allows h (.read (manifestPath ⟨j.root⟩)) t)
    (hlinks : ∀ xs, xs <+: s.outputNames → ∀ target, t.get? (s.outputIn ++ xs) ≠ some (.link target))
    (hlinkless : Linkless s.output t) :
    Plan.Along h (F.Allows h) j.plan t fun _ _ => True := by
  have hcompile := along_compile hfits hgood hslash hoverlooks hmanifest
  refine hcompile.with_run.bind ?_
  rintro (e | report) u ⟨⟨-, hnoLinks, -⟩, hrun⟩
  · trivial
  · have hgood' : F.good u := by
      have hlast := (hcompile.lockstep (.refl _ t) hgood).2.2.2
      rwa [hrun] at hlast
    refine Plan.Along.bind (hfits.admits.along_writeArtifacts (ofSnippet_of_compileSources hrun) hgood'
      (fun xs hxs target hlink => hlinks xs hxs target (hnoLinks _ _ hlink))
      (hlinkless.mono hnoLinks)) fun _ _ _ => trivial

end Job

/-! ## Calls that keep off -/

/-- The call looks at no place whose first name is one of these, and does not list the root. -/
def Call.keepsOff (h : Host) (t : FileTree) (names : List String) (c : Call) : Bool :=
  (c.visits h t).all (fun q => q.head?.all (· ∉ names)) &&
    match c with
    | .list path =>
      match t.entryAt h.current true path with
      | .ok (p, .directory) => p.head?.any (· ∉ names)
      | _ => true
    | _ => true

theorem Call.avoids_of_keepsOff {h : Host} {t : FileTree} {Y : Set Place} {names : List String}
    {c : Call} (hY : ∀ q ∈ Y, ∃ name ∈ names, q.head? = some name)
    (hoff : c.keepsOff h t names = true) : c.Avoids h Y t := by
  unfold Call.keepsOff at hoff
  obtain ⟨hvisits, hlists⟩ := Bool.and_eq_true_iff.1 hoff
  refine ⟨fun q hq hmem => ?_, fun path p hlist hentry name hmem => ?_⟩
  · obtain ⟨name, hname, hhead⟩ := hY q hmem
    have hq' := List.all_eq_true.1 hvisits q hq
    rw [hhead] at hq'
    exact absurd hname (by simpa using hq')
  · subst hlist
    dsimp only at hlists
    rw [hentry] at hlists
    obtain ⟨first, hfirst, hhead⟩ := hY _ hmem
    cases p with
    | nil => cases hlists
    | cons x p =>
      obtain rfl : x = first := Option.some.inj hhead
      exact absurd hfirst (by simpa using hlists)

/-! ## Compilers that work in a workspace -/

namespace BuildScript

variable {directory : String} {t : FileTree} {p : Place} {m : Nat}

theorem execute_compiling (change : Place → FileTree → FileTree) (program : String)
    (limit : Option Nat) (hleads : Leads t [] directory m p) :
    (compiling change).execute program directory limit t =
      (.ok ⟨.exited 0, ByteArray.empty, ByteArray.empty⟩, change p t) := by
  unfold compiling
  dsimp only
  rw [entryAt_of_leads hleads]

/-- A compiler makes its change in the directory that it is run in, or none. -/
theorem execute_compiling_cases (change : Place → FileTree → FileTree) (program directory : String)
    (limit : Option Nat) (t : FileTree) :
    (∃ m p, Leads t [] directory m p ∧
      ((compiling change).execute program directory limit t).2 = change p t) ∨
    ((compiling change).execute program directory limit t).2 = t := by
  unfold compiling
  dsimp only
  split
  · next p hentry =>
    obtain ⟨m, hleads⟩ := leads_of_entryAt hentry
    exact Or.inl ⟨m, p, hleads, rfl⟩
  · exact Or.inr rfl

theorem putAll_eq (p : Place) (entries : List (Place × Entry)) (t : FileTree) :
    putAll p entries t = t.putEach (entries.map fun e => (p ++ e.1, e.2)) := by
  unfold putAll putEach
  rw [List.foldl_map]

/-- The artifact of a name, in a workspace without any. -/
def buildOnce (id : Snippet.Id) (object : String) (p : Place) (t : FileTree) : FileTree :=
  match t.get? (p ++ ["dist"]) with
  | none => putAll p (builtIn [] id object) t
  | some _ => t

/-- A compiler that leaves one artifact in its workspace, once. -/
def buildingOnce (id : Snippet.Id) (object : String) : Host :=
  compiling (buildOnce id object)

variable {id : Snippet.Id} {object : String}

theorem apart_buildOnce : Apart {q | Below p q} t (buildOnce id object p t) := by
  unfold buildOnce
  split
  · rw [putAll_eq]
    refine apart_putEach t fun x hx => ?_
    simp only [builtIn, List.nil_append, List.map_cons, List.map_nil, List.mem_cons, List.not_mem_nil,
      or_false] at hx
    rcases hx with rfl | rfl | rfl <;> exact below_append p _ _
  · exact .refl _ t

theorem noNewLinks_buildOnce : NoNewLinks t (buildOnce id object p t) := by
  unfold buildOnce
  split
  · exact noNewLinks_putAll (by simp [builtIn]) (by simp [builtIn]) t
  · exact .refl t

/-- In a well-formed tree nothing is below what is missing, so all of it can be put. -/
theorem wellFormed_buildOnce (hwf : t.WellFormed) (hthere : t.get? p = some .directory) :
    (buildOnce id object p t).WellFormed := by
  unfold buildOnce
  split
  · next hfree =>
    have hbelow := (hwf.cut hfree).free
    have happend : ∀ x y : String, p ++ [x, y] = p ++ [x] ++ [y] := fun x y =>
      (List.append_assoc p [x] [y]).symm
    have happend' : ∀ x y z : String, p ++ [x, y, z] = p ++ [x, y] ++ [z] := fun x y z =>
      (List.append_assoc p [x, y] [z]).symm
    have hfirst := hwf.put_free hthere hfree
    have hthere' := get?_put_self t .directory (concat_ne_nil p "dist")
    have hfree' : (t.put (p ++ ["dist"]) .directory).get? (p ++ ["dist"] ++ [id.sourceFile]) = none := by
      rw [get?_put_of_ne t _ (by simp)]
      exact hbelow _ (List.prefix_append _ _)
    have hsecond := hfirst.put_free hthere' hfree'
    rw [← happend] at hsecond
    refine hsecond.put (by simp) ?_ ?_
    · rw [List.nil_append, happend', List.dropLast_concat]
      exact get?_put_self _ _ (by simp)
    · rw [List.nil_append, get?_put_of_ne _ _ (by simp), get?_put_of_ne _ _ (by simp),
        hbelow _ (by rw [happend', happend, List.append_assoc]; exact List.prefix_append _ _)]
      nofun
  · exact hwf

/-- Such a compiler works in the directory that it is run in, and nowhere else. -/
theorem encloses_buildingOnce (id : Snippet.Id) (object directory : String) (p : Place) :
    (buildingOnce id object).Encloses directory p where
  wellFormed := fun program limit t hwf => by
    unfold buildingOnce
    rcases execute_compiling_cases (buildOnce id object) program directory limit t with
      ⟨m, p', hleads, hrun⟩ | hrun
    · rw [hrun]
      refine wellFormed_buildOnce hwf (hleads.reaches.directory hwf ?_)
      unfold startOf
      split <;> rfl
    · rwa [hrun]
  inside := fun program limit t ⟨m, hleads⟩ => by
    have hrun := execute_compiling (buildOnce id object) program limit hleads
    exact hrun ▸ apart_buildOnce
  unlinked := fun program limit t ⟨m, hleads⟩ hunlinked => by
    have hrun := execute_compiling (buildOnce id object) program limit hleads
    exact hrun ▸ fun q target hq hlink => hunlinked q target hq (noNewLinks_buildOnce q target hlink)
  determined := fun program limit t t' ⟨m, hleads⟩ ⟨m', hleads'⟩ hapart => by
    have hrun := execute_compiling (buildOnce id object) program limit hleads
    have hrun' := execute_compiling (buildOnce id object) program limit hleads'
    have hsame : t'.get? (p ++ ["dist"]) = t.get? (p ++ ["dist"]) :=
      hapart.get? fun hmem => hmem (below_append p "dist" [])
    unfold buildingOnce
    rw [hrun, hrun']
    refine ⟨rfl, ?_⟩
    unfold buildOnce
    dsimp only
    rw [hsame]
    split
    · rw [putAll_eq, putAll_eq]
      exact hapart.putEach _
    · exact hapart

end BuildScript

end EmbeddedSolidity
