import EmbeddedSolidity.Proofs.Plan.Frame
import EmbeddedSolidity.Proofs.Plan.Linkless
import EmbeddedSolidity.Proofs.Workspace.Renewal
import EmbeddedSolidity.Run

/-!
# Work in a workspace that has been made

The root of a workspace that has been made denotes a directory without links. Snippets are written
there, compilers work there and artifacts are read there, and all of it depends on what is in that
directory and concerns nothing else, if this is so of the compilers.

* `Host.Encloses` : compilers that work in a directory only;
* `Workspace.Settled` : a workspace without links, which stays so;
* `Workspace.Settled.agrees`, `Host.Encloses.agrees` : the same work in trees that have the same
  workspace;
* `Workspace.along_compileIn` : compiling a snippet.
-/

namespace EmbeddedSolidity

open FileSystem FileSystem.FileTree

namespace Path

/-- A path that is joined from a base and simple names does not end in a slash. -/
theorem endsInSlash_foldl_join {names : List String} (base : String)
    (hnames : ∀ name ∈ names, Simple name) (hne : names ≠ []) :
    endsInSlash (names.foldl join base) = false := by
  obtain ⟨front, last, rfl⟩ := names.eq_nil_or_concat.resolve_left hne
  rw [List.concat_eq_append] at hnames ⊢
  rw [List.foldl_append]
  exact endsInSlash_join (hnames last (by simp))

end Path

/-- Programs that are run in the directory `p` change only what is below it, put no link there, and
what they do there depends on nothing but what is there. -/
structure Host.Encloses (h : Host) (directory : String) (p : Place) : Prop where
  wellFormed : ∀ program limit t, t.WellFormed → (h.execute program directory limit t).2.WellFormed
  inside : ∀ program limit t, (∃ m, Leads t h.current directory m p) →
    Apart {q | Below p q} t (h.execute program directory limit t).2
  unlinked : ∀ program limit t, (∃ m, Leads t h.current directory m p) → Unlinked p t →
    Unlinked p (h.execute program directory limit t).2
  determined : ∀ program limit t t', (∃ m, Leads t h.current directory m p) →
    (∃ m, Leads t' h.current directory m p) → Apart {q | ¬ Below p q} t t' →
      (h.execute program directory limit t').1 = (h.execute program directory limit t).1 ∧
        Apart {q | ¬ Below p q} (h.execute program directory limit t).2
          (h.execute program directory limit t').2

/-- The call writes or reads a file at a path of plain names below the root. -/
def Call.Works (root : String) : Call → Prop
  | .write path _ | .read path => ∃ names, names ≠ [] ∧
      (∀ name ∈ names, Workspace.Named name) ∧ path = names.foldl Path.join root
  | _ => False

/-- The call is one of those with which snippets are compiled in a workspace that has been made. -/
def Call.Compiles (c : Config) (root : String) (call : Call) : Prop :=
  call.Works root ∨ call = .locate c.executable ∨
    ∃ program, call = .execute program root c.timeout

theorem Call.Works.not_starts {root : String} {call : Call} (hworks : call.Works root) :
    ¬ call.Starts := by
  cases call <;> first | exact hworks.elim | exact id

namespace Workspace

variable {h : Host} {root : String} {c : Config} {t t' : FileTree} {m : Nat} {d : Place}
  {name : String} {call : Call}

/-- The root denotes a directory, and no link is in that. -/
structure Settled (h : Host) (root : String) (m : Nat) (d : Place) (name : String) (t : FileTree) :
    Prop where
  denotes : Denotes t h.current root m d name
  directory : t.get? (d ++ [name]) = some .directory
  unlinked : Unlinked (d ++ [name]) t

theorem Settled.leads (hs : Settled h root m d name t) : Leads t h.current root m (d ++ [name]) :=
  hs.denotes.names.leads hs.directory

theorem Settled.not_link (hs : Settled h root m d name t) (q : Place) (target : String)
    (hq : d ++ [name] <+: q) : t.get? q ≠ some (.link target) := by
  by_cases heq : q = d ++ [name]
  · rw [heq, hs.directory]
    nofun
  · exact hs.unlinked q target ⟨hq, heq⟩

/-- A workspace stays settled if its directory stays and no link is made. -/
theorem Settled.of_apart (hs : Settled h root m d name t) (hapart : Apart {q | d ++ [name] <+: q} t t')
    (hthere : t'.get? (d ++ [name]) = some .directory) (hlinks : NoNewLinks t t') :
    Settled h root m d name t' :=
  ⟨hs.denotes.congr hapart.sameApart, hthere, fun q target hq hlink =>
    hs.unlinked q target hq (hlinks q target hlink)⟩

/-! ## The same work in two trees -/

/-- A path of plain names below the root leads to the same in trees that have the same workspace. -/
theorem Settled.resolve (hs : Settled h root m d name t)
    (hs' : Denotes t' h.current root m d name)
    (hsame : ∀ q, d ++ [name] <+: q → t'.get? q = t.get? q) {names : List String}
    (hne : names ≠ []) (hnames : ∀ name ∈ names, Named name) :
    t'.resolve h.current true (names.foldl Path.join root) =
        t.resolve h.current true (names.foldl Path.join root) ∧
      ∀ r, t.resolve h.current true (names.foldl Path.join root) = .ok r →
        d ++ [name] <+: r.place := by
  cases hfault : pathFault? (names.foldl Path.join root) with
  | some f =>
    rw [resolve_of_fault hfault, resolve_of_fault hfault]
    exact ⟨rfl, nofun⟩
  | none =>
    have hsimple : ∀ name ∈ names, Path.Simple name := fun name hname => (hnames name hname).simple
    rw [hs.denotes.names.resolve_join hsimple hne hfault, hs'.names.resolve_join hsimple hne hfault]
    exact walk_within hs.denotes.plain hs.not_link (fun name hname => Or.inl (hnames name hname).plain)
      (hs'.names.directory.trans hs.denotes.names.directory.symm) hsame

/-- Files are written and read alike in trees that have the same workspace. -/
theorem Settled.agrees (hs : Settled h root m d name t) (hs' : Denotes t' h.current root m d name)
    (hsame : ∀ q, d ++ [name] <+: q → t'.get? q = t.get? q) (hworks : call.Works root) :
    call.Agrees h {q | d ++ [name] <+: q} t t' := by
  cases call with
  | write path content =>
    obtain ⟨names, hne, hnames, rfl⟩ := hworks
    obtain ⟨hresolve, hplace⟩ := hs.resolve hs' hsame hne hnames
    exact Call.agrees_write (Path.endsInSlash_foldl_join root (fun name hname => (hnames name hname).simple)
      hne) hresolve fun r hr _ => hplace r hr
  | read path =>
    obtain ⟨names, hne, hnames, rfl⟩ := hworks
    exact Call.agrees_read _ (hs.resolve hs' hsame hne hnames).1
  | _ => exact hworks.elim

/-- Such a call leaves the workspace settled and changes nothing elsewhere. -/
theorem Settled.works (hs : Settled h root m d name t) (hworks : call.Works root) :
    Settled h root m d name (h.answer t call).2 ∧
      Apart {q | d ++ [name] <+: q} t (h.answer t call).2 := by
  have hapart := (hs.agrees hs.denotes (fun _ _ => rfl) hworks).apart
  refine ⟨?_, hapart⟩
  cases call with
  | write path content =>
    have hanswer : (h.answer t (.write path content)).2 =
      (t.keeping (t.write h.current path content)).2 := rfl
    rw [hanswer] at hapart ⊢
    cases hwrite : t.write h.current path content with
    | error f => exact hs
    | ok t₁ =>
      rw [hwrite] at hapart
      obtain ⟨q, executable, rfl, htargets⟩ := write_eq_ok hwrite
      exact hs.of_apart hapart (htargets.keepsWays _ _ isWay_directory hs.directory)
        (noNewLinks_put t htargets.not_way.1 fun _ => nofun)
  | read path => exact hs
  | _ => exact hworks.elim

/-- A compiler that is enclosed leaves the workspace settled and changes nothing elsewhere. -/
theorem Settled.execute (hs : Settled h root m d name t) (hencloses : h.Encloses root (d ++ [name]))
    (program : String) (limit : Option Nat) :
    Settled h root m d name (h.execute program root limit t).2 ∧
      Apart {q | d ++ [name] <+: q} t (h.execute program root limit t).2 := by
  have hinside := hencloses.inside program limit t ⟨m, hs.leads⟩
  have hapart : Apart {q | d ++ [name] <+: q} t (h.execute program root limit t).2 :=
    hinside.mono fun q hq => hq.1
  refine ⟨⟨hs.denotes.congr hapart.sameApart, ?_, ?_⟩, hapart⟩
  · exact (hinside.get? fun hbelow => hbelow.2 rfl).trans hs.directory
  · exact hencloses.unlinked program limit t ⟨m, hs.leads⟩ hs.unlinked

/-- The workspace is removed. -/
theorem Settled.destroy (hs : Settled h root m d name t) :
    h.answer t (.removeTree root) = ((.ok () : Except Fault Unit), t.eraseAll (d ++ [name])) :=
  hs.denotes.removeTree_directory hs.directory

/-! ## Frames -/

/-- The frame has the workspace of a root : it is its own, and the root denotes its place in every good
tree. -/
structure Houses (h : Host) (root : String) (m : Nat) (d : Place) (name : String) (F : Frame) :
    Prop where
  own : {q | d ++ [name] <+: q} ⊆ F.own
  other : ∀ q, d ++ [name] <+: q → q ∉ F.other
  denotes : ∀ t, F.good t → Denotes t h.current root m d name
  keeps : ∀ t call, ¬ call.Starts → Apart {q | d ++ [name] <+: q} t (h.answer t call).2 →
    F.good t → F.good (h.answer t call).2

variable {F : Frame}

theorem Houses.same (hF : Houses h root m d name F) (hapart : Apart F.other t t') (q : Place)
    (hq : d ++ [name] <+: q) : t'.get? q = t.get? q :=
  hapart.get? (hF.other q hq)

theorem Houses.allows_works (hF : Houses h root m d name F) (hs : Settled h root m d name t)
    (hworks : call.Works root) : F.Allows h call t :=
  Frame.allows_of_agrees hF.own
    (fun t' hapart hgood => hs.agrees (hF.denotes t' hgood) (hF.same hapart) hworks)
    fun t' hown hgood => hF.keeps t' call hworks.not_starts hown hgood

theorem Houses.allows_destroy (hF : Houses h root m d name F) (hs : Settled h root m d name t) :
    F.Allows h (.removeTree root) t :=
  Frame.allows_of_agrees hF.own
    (fun t' hapart hgood => by
      have hthere : t'.get? (d ++ [name]) = some .directory :=
        (hF.same hapart _ List.prefix_rfl).trans hs.directory
      have hremove : h.answer t' (.removeTree root) =
          ((.ok () : Except Fault Unit), t'.eraseAll (d ++ [name])) :=
        (hF.denotes t' hgood).removeTree_directory hthere
      exact Call.agrees_of_edits (edits_eraseAll fun q hq => hq) hs.destroy hremove)
    fun t' hown hgood => hF.keeps t' _ id hown hgood

/-- A compiler that is enclosed does the same in trees that have the same workspace. -/
theorem Houses.allows_execute (hF : Houses h root m d name F) (hs : Settled h root m d name t)
    (hencloses : h.Encloses root (d ++ [name])) (program : String) (limit : Option Nat)
    (hkeeps : ∀ t, Apart {q | d ++ [name] <+: q} t (h.execute program root limit t).2 →
      F.good t → F.good (h.execute program root limit t).2) :
    F.Allows h (.execute program root limit) t := by
  intro t' hapart hgood
  have hs' : Leads t' h.current root m (d ++ [name]) :=
    (hF.denotes t' hgood).names.leads ((hF.same hapart _ List.prefix_rfl).trans hs.directory)
  have hinside := hencloses.inside program limit t ⟨m, hs.leads⟩
  have hinside' := hencloses.inside program limit t' ⟨m, hs'⟩
  obtain ⟨hanswer, hsame⟩ := hencloses.determined program limit t t' ⟨m, hs.leads⟩ ⟨m, hs'⟩
    (hapart.mono fun q hq hbelow => hF.other q hbelow.1 hq)
  have hwithin : Apart {q | d ++ [name] <+: q} t' (h.execute program root limit t').2 :=
    hinside'.mono fun q hq => hq.1
  exact ⟨hanswer, hapart.of_inside (fun q hq => hF.other q hq.1) hinside hinside' hsame,
    hwithin.mono hF.own, hkeeps t' hwithin hgood⟩

/-! ## Compiling a snippet -/

theorem works_stage (root text : String) (content : ByteArray) :
    (Call.write (sourcePath ⟨root⟩ (.ofText text)) content).Works root :=
  ⟨_, List.cons_ne_nil _ _, named_sourcePath text, sourcePath_eq ⟨root⟩ _⟩

theorem works_readArtifact (root text : String) :
    (Call.read (artifactPath ⟨root⟩ (.ofText text))).Works root :=
  ⟨_, List.cons_ne_nil _ _, named_artifactPath text, artifactPath_eq ⟨root⟩ _⟩

/-- The calls with which a snippet is compiled. -/
theorem always_compileIn (c : Config) (root : String) (s : Snippet) :
    (Run.compileIn c ⟨root⟩ s).Always (Call.Compiles c root) fun _ => True := by
  have hstage : (stage ⟨root⟩ s).Always (Call.Compiles c root) fun _ => True :=
    Plan.always_bind (Plan.always_call (c := .write _ _) (Or.inl (works_stage root s.text _)))
      fun _ _ => Plan.always_pure trivial
  have hrun : (runCompiler ⟨root⟩ c s.id).Always (Call.Compiles c root) fun _ => True := by
    refine Plan.always_bind (Plan.always_call (Or.inr (Or.inl rfl))) fun found _ => ?_
    split
    · exact Plan.always_pure trivial
    · refine Plan.always_bind (Plan.always_call (Or.inr (Or.inr ⟨_, rfl⟩))) fun ending _ => ?_
      split
      · exact Plan.always_pure trivial
      · split <;> exact Plan.always_pure trivial
  have hread : (readArtifact ⟨root⟩ s.id).Always (Call.Compiles c root) fun _ => True := by
    refine Plan.always_bind (Plan.always_readText (Or.inl (works_readArtifact root s.text)))
      fun text _ => ?_
    split <;> exact Plan.always_pure trivial
  refine Plan.always_andThen (Plan.always_andThen hstage (fun _ _ => trivial) fun _ _ => hrun)
    (fun _ _ => trivial) fun _ _ => ?_
  exact Plan.always_andThen hread (fun _ _ => trivial) fun _ _ => Plan.always_pure trivial

/-- Compiling a snippet leaves the workspace settled and changes nothing elsewhere. What is safe in
a settled workspace is safe for each call. -/
theorem along_compileIn {Safe : Call → FileTree → Prop} {t₀ : FileTree}
    (hencloses : h.Encloses c.root (d ++ [name]))
    (hworks : ∀ t call, Settled h c.root m d name t → call.Works c.root → Safe call t)
    (hlocate : ∀ t, Apart {q | d ++ [name] <+: q} t₀ t → Safe (.locate c.executable) t)
    (hexecute : ∀ t program, Settled h c.root m d name t →
      Safe (.execute program c.root c.timeout) t)
    (s : Snippet) (hs : Settled h c.root m d name t) (ht : Apart {q | d ++ [name] <+: q} t₀ t) :
    Plan.Along h Safe (Run.compileIn c ⟨c.root⟩ s) t fun _ t' =>
      Settled h c.root m d name t' ∧ Apart {q | d ++ [name] <+: q} t₀ t' := by
  refine Plan.Along.mono (Plan.Along.of_always (always_compileIn c c.root s)
    (I := fun t => Settled h c.root m d name t ∧ Apart {q | d ++ [name] <+: q} t₀ t) ?_ ⟨hs, ht⟩)
    fun _ _ hend => hend.2
  rintro call t hcall ⟨hs, ht⟩
  rcases hcall with hcall | rfl | ⟨program, rfl⟩
  · obtain ⟨hs', ht'⟩ := hs.works hcall
    exact ⟨hworks t call hs hcall, hs', ht.trans ht'⟩
  · exact ⟨hlocate t ht, hs, ht⟩
  · obtain ⟨hs', ht'⟩ := hs.execute hencloses program c.timeout
    exact ⟨hexecute t program hs, hs', ht.trans ht'⟩

end Workspace

end EmbeddedSolidity
