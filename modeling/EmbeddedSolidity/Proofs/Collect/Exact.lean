import EmbeddedSolidity.Proofs.Collect.Steps
import EmbeddedSolidity.Proofs.Collect.View

/-!
# What a collection finds

Whatever the order in which directories tell their names, a collection finds the paths that are sought
and nothing else : the calls for the entries of a directory are those of the definition of what is below
it, entry by entry and level by level. A path becomes longer with every level and a directory has a
short path, so the bound on the depth is never reached and cuts nothing off, links that lead back
included.

* `Collect.mem_below_iff`, `Collect.mem_all_iff` : what is found;
* `Collect.ends_below_of_room` : the bound on the depth;
* `collect_exact` : the list of files.
-/

namespace EmbeddedSolidity

open FileSystem FileSystem.FileTree
open Plan (Ends)

namespace Collect

variable {v : View} {directory name path : String} {names : List String} {log : List Exchange}
  {r : Collected} {depth : Nat}

/-! ## Lengths of paths -/

theorem View.fault_of_isDirectory (h : v.isDirectory path = true) :
    path ≠ "" ∧ path.utf8ByteSize < maxPath := by
  obtain ⟨p, hp⟩ := View.isDirectory_iff.1 h
  obtain ⟨m, hleads⟩ := leads_of_entryAt hp
  exact (pathFault?_eq_none_iff.1 hleads.fault).2

theorem size_lt_join (hbase : directory ≠ "") (h : Path.Simple name) :
    directory.utf8ByteSize < (Path.join directory name).utf8ByteSize := by
  have hname : name.utf8ByteSize ≠ 0 := fun hzero => h.1 (String.utf8ByteSize_eq_zero_iff.1 hzero)
  rw [Path.utf8ByteSize_join hbase h]
  omega

theorem View.Holds.allowed (hnames : v.tree.WellNamed) (h : v.Holds directory name) :
    Path.Simple name ∧ Plain name := by
  obtain ⟨p, -, -, hsome⟩ := h
  obtain ⟨e, he⟩ := Option.isSome_iff_exists.1 hsome
  exact hnames _ e he name (by simp)

/-- The first bound is large enough. -/
theorem room_of_le (h : v.isDirectory path = true) (hdepth : maxPath ≤ depth) :
    maxPath < path.utf8ByteSize + depth := by
  have hne := (View.fault_of_isDirectory h).1
  have hsize : path.utf8ByteSize ≠ 0 := fun hzero => hne (String.utf8ByteSize_eq_zero_iff.1 hzero)
  omega

/-- A level further down a path is longer. -/
theorem room_join (hnames : v.tree.WellNamed) (h : v.Holds directory name)
    (hroom : maxPath < directory.utf8ByteSize + (depth + 1)) :
    maxPath < (Path.join directory name).utf8ByteSize + depth := by
  obtain ⟨p, hp, -, -⟩ := id h
  have hbase := (View.fault_of_isDirectory (View.isDirectory_iff.2 ⟨p, hp⟩)).1
  have hlonger := size_lt_join hbase (h.allowed hnames).1
  omega

/-! ## Answers to questions -/

theorem eq_isDirectory {answer : Bool} (h : v.Answers (asked path answer)) :
    answer = v.isDirectory path :=
  h

/-- What a true answer tells of the entries of a directory. -/
theorem mem_listed_iff (h : v.Answers (listed directory (.ok names))) :
    names.Nodup ∧ ∀ name, name ∈ names ↔ v.Holds directory name := by
  obtain ⟨p, hp, hreadable, hnodup, hmem⟩ := h
  refine ⟨hnodup, fun name => (hmem name).trans ⟨fun hsome => ⟨p, hp, hreadable, hsome⟩, ?_⟩⟩
  rintro ⟨q, hq, -, hsome⟩
  rwa [hp.unique hq] at hsome

theorem not_holds_of_fault {fault : Fault} (h : v.Answers (listed directory (.error fault))) :
    ¬ v.Holds directory name := by
  rintro ⟨p, hp, hreadable, -⟩
  exact h p hp hreadable

/-! ## Files -/

theorem mem_files_append {a b : Collected} {x : String} :
    x ∈ (a.append b).files ↔ x ∈ a.files ∨ x ∈ b.files :=
  List.mem_append

theorem mem_ofFile {x : String} : x ∈ (ofFile path).files ↔
    x = path ∧ Path.extension? path = some sourceExtension := by
  unfold ofFile
  dsimp only
  split_ifs with hext
  · simp [beq_iff_eq.1 hext]
  · exact ⟨nofun, fun h => absurd (beq_iff_eq.2 h.2) hext⟩

/-- An entry is entered, or nothing is asked about what is in it. -/
theorem met_cases {enter : String → Plan Collected} (hholds : v.Holds directory name)
    (he : Ends (met enter directory name (v.isDirectory (Path.join directory name))) log r) :
    (v.Enterable directory name ∧ Ends (enter (Path.join directory name)) log r) ∨
      (¬ v.Enterable directory name ∧ log = [] ∧
        ∀ x, x ∈ r.files ↔ v.IsSource directory name ∧ x = Path.join directory name) := by
  cases hdirectory : v.isDirectory (Path.join directory name) with
  | false =>
    rw [hdirectory, met_file] at he
    obtain ⟨rfl, rfl⟩ := he.of_pure
    refine Or.inr ⟨fun henterable => ?_, rfl, fun x => ?_⟩
    · rw [henterable.isDirectory] at hdirectory
      cases hdirectory
    · rw [mem_ofFile, and_comm]
      exact and_congr_left fun _ =>
        ⟨fun hext => ⟨hholds, hdirectory, hext⟩, fun hsource => hsource.named⟩
  | true =>
    rw [hdirectory] at he
    cases hpassed : isPassedOver name with
    | true =>
      rw [met_passedOver hpassed] at he
      obtain ⟨rfl, rfl⟩ := he.of_pure
      refine Or.inr ⟨fun henterable => ?_, rfl, fun x => ⟨nofun, fun ⟨hsource, _⟩ => ?_⟩⟩
      · rw [henterable.kept] at hpassed
        cases hpassed
      · rw [hsource.noDirectory] at hdirectory
        cases hdirectory
    | false =>
      rw [met_entered hpassed] at he
      exact Or.inl ⟨⟨hholds, hdirectory, hpassed⟩, he⟩

/-- What is found at one entry of a directory, if it is one. -/
theorem mem_met_iff {enter : String → Plan Collected} {x : String}
    (hholds : v.Holds directory name)
    (henter : ∀ log r, v.Enterable directory name → Ends (enter (Path.join directory name)) log r →
      (∀ e ∈ log, v.Answers e) → (x ∈ r.files ↔ v.SourceBelow (Path.join directory name) x))
    (he : Ends (met enter directory name (v.isDirectory (Path.join directory name))) log r)
    (hlog : ∀ e ∈ log, v.Answers e) : x ∈ r.files ↔
      (v.IsSource directory name ∧ x = Path.join directory name) ∨
        (v.Enterable directory name ∧ v.SourceBelow (Path.join directory name) x) := by
  rcases met_cases hholds he with ⟨henterable, he⟩ | ⟨hnot, -, hmem⟩
  · rw [henter log r henterable he hlog]
    refine ⟨fun h => Or.inr ⟨henterable, h⟩, ?_⟩
    rintro (⟨hsource, -⟩ | ⟨-, h⟩)
    · exact absurd (henterable.isDirectory.symm.trans hsource.noDirectory) (by decide)
    · exact h
  · rw [hmem]
    exact ⟨Or.inl, fun h => h.resolve_right fun henter => hnot henter.1⟩

theorem mem_entries_iff {enter : String → Plan Collected} {x : String}
    (hholds : ∀ name ∈ names, v.Holds directory name)
    (henter : ∀ name ∈ names, ∀ log r, v.Enterable directory name →
      Ends (enter (Path.join directory name)) log r → (∀ e ∈ log, v.Answers e) →
        (x ∈ r.files ↔ v.SourceBelow (Path.join directory name) x))
    (he : Ends (entries enter directory names) log r) (hlog : ∀ e ∈ log, v.Answers e) :
    x ∈ r.files ↔ ∃ name ∈ names,
      (v.IsSource directory name ∧ x = Path.join directory name) ∨
        (v.Enterable directory name ∧ v.SourceBelow (Path.join directory name) x) := by
  induction names generalizing log r with
  | nil =>
    obtain ⟨-, rfl⟩ := ends_entries_nil_iff.1 he
    simp
  | cons name rest ih =>
    obtain ⟨answer, first, found, second, more, rfl, hfound, hmore, rfl⟩ :=
      ends_entries_cons_iff.1 he
    rw [List.forall_mem_cons, List.forall_mem_append] at hlog
    rw [List.forall_mem_cons] at hholds henter
    obtain rfl := eq_isDirectory hlog.1
    rw [mem_files_append, mem_met_iff hholds.1 henter.1 hfound hlog.2.1,
      ih hholds.2 henter.2 hmore hlog.2.2, List.exists_mem_cons_iff]

/-- Below a directory the source files are found. -/
theorem mem_below_iff (hnames : v.tree.WellNamed) {x : String} (he : Ends (below depth directory) log r)
    (hlog : ∀ e ∈ log, v.Answers e) (hdirectory : v.isDirectory directory = true)
    (hroom : maxPath < directory.utf8ByteSize + depth) : x ∈ r.files ↔ v.SourceBelow directory x := by
  induction depth generalizing directory log r with
  | zero =>
    have := (View.fault_of_isDirectory hdirectory).2
    omega
  | succ depth ih =>
    rcases ends_below_iff.1 he with ⟨fault, rfl, rfl⟩ | ⟨names, more, rfl, hmore⟩
    · have hanswer := hlog _ List.mem_cons_self
      refine ⟨nofun, fun h => ?_⟩
      obtain ⟨name, ⟨hsource, -⟩ | ⟨henter, -⟩⟩ := View.sourceBelow_iff.1 h
      · exact absurd hsource.holds (not_holds_of_fault hanswer)
      · exact absurd henter.holds (not_holds_of_fault hanswer)
    · rw [List.forall_mem_cons] at hlog
      obtain ⟨-, hmem⟩ := mem_listed_iff hlog.1
      rw [mem_entries_iff (fun name hname => (hmem name).1 hname)
        (fun name _ log r henter he hlog => ih he hlog henter.isDirectory
          (room_join hnames henter.holds hroom)) hmore hlog.2, View.sourceBelow_iff]
      constructor
      · exact fun ⟨name, _, h⟩ => ⟨name, h⟩
      · rintro ⟨name, h⟩
        refine ⟨name, (hmem name).2 ?_, h⟩
        rcases h with ⟨hsource, -⟩ | ⟨henter, -⟩
        · exact hsource.holds
        · exact henter.holds

theorem mem_given_iff (hnames : v.tree.WellNamed) {x : String}
    (he : Ends (given path (v.isDirectory path)) log r) (hlog : ∀ e ∈ log, v.Answers e) :
    x ∈ r.files ↔ v.StandsFor path x := by
  unfold View.StandsFor
  cases hdirectory : v.isDirectory path with
  | false =>
    rw [hdirectory] at he
    obtain ⟨-, rfl⟩ := Ends.of_pure (show Ends (pure _) log r from he)
    simp
  | true =>
    rw [hdirectory] at he
    have hbelow : Ends (below maxPath path) log r := he
    rw [mem_below_iff hnames hbelow hlog hdirectory (room_of_le hdirectory le_rfl)]
    simp

/-- What the paths stand for is found. -/
theorem mem_all_iff (hnames : v.tree.WellNamed) {paths : List String} {x : String}
    (he : Ends (all paths) log r) (hlog : ∀ e ∈ log, v.Answers e) :
    x ∈ r.files ↔ v.Sought paths x := by
  unfold View.Sought
  induction paths generalizing log r with
  | nil =>
    obtain ⟨-, rfl⟩ := ends_all_nil_iff.1 he
    simp
  | cons path rest ih =>
    obtain ⟨answer, first, found, second, more, rfl, hfound, hmore, rfl⟩ := ends_all_cons_iff.1 he
    rw [List.forall_mem_cons, List.forall_mem_append] at hlog
    obtain rfl := eq_isDirectory hlog.1
    rw [mem_files_append, mem_given_iff hnames hfound hlog.2.1, ih hmore hlog.2.2,
      List.exists_mem_cons_iff]

/-! ## The bound on the depth -/

theorem ends_met_of {enter enter' : String → Plan Collected}
    (hholds : v.Holds directory name)
    (henter : v.Enterable directory name → Ends (enter (Path.join directory name)) log r →
      Ends (enter' (Path.join directory name)) log r)
    (he : Ends (met enter directory name (v.isDirectory (Path.join directory name))) log r) :
    Ends (met enter' directory name (v.isDirectory (Path.join directory name))) log r := by
  cases hdirectory : v.isDirectory (Path.join directory name) with
  | false =>
    rw [hdirectory] at he
    exact he
  | true =>
    rw [hdirectory] at he
    cases hpassed : isPassedOver name with
    | true =>
      rw [met_passedOver hpassed] at he ⊢
      exact he
    | false =>
      rw [met_entered hpassed] at he ⊢
      exact henter ⟨hholds, hdirectory, hpassed⟩ he

theorem ends_entries_of {enter enter' : String → Plan Collected}
    (hholds : ∀ name ∈ names, v.Holds directory name)
    (henter : ∀ name ∈ names, ∀ log r, v.Enterable directory name → (∀ e ∈ log, v.Answers e) →
      Ends (enter (Path.join directory name)) log r →
      Ends (enter' (Path.join directory name)) log r)
    (he : Ends (entries enter directory names) log r) (hlog : ∀ e ∈ log, v.Answers e) :
    Ends (entries enter' directory names) log r := by
  induction names generalizing log r with
  | nil => exact he
  | cons name rest ih =>
    obtain ⟨answer, first, found, second, more, rfl, hfound, hmore, rfl⟩ :=
      ends_entries_cons_iff.1 he
    rw [List.forall_mem_cons, List.forall_mem_append] at hlog
    rw [List.forall_mem_cons] at hholds henter
    obtain rfl := eq_isDirectory hlog.1
    refine ends_entries_cons_iff.2 ⟨_, first, found, second, more, rfl, ?_, ?_, rfl⟩
    · exact ends_met_of hholds.1 (fun henterable => henter.1 _ _ henterable hlog.2.1) hfound
    · exact ih hholds.2 henter.2 hmore hlog.2.2

/-- Bounds that are large enough are as good as each other. -/
theorem ends_below_of_room (hnames : v.tree.WellNamed) {depth' : Nat}
    (he : Ends (below depth directory) log r) (hlog : ∀ e ∈ log, v.Answers e)
    (hdirectory : v.isDirectory directory = true)
    (hroom : maxPath < directory.utf8ByteSize + depth)
    (hroom' : maxPath < directory.utf8ByteSize + depth') : Ends (below depth' directory) log r := by
  have hshort := (View.fault_of_isDirectory hdirectory).2
  induction depth generalizing depth' directory log r with
  | zero => omega
  | succ depth ih =>
    cases depth' with
    | zero => omega
    | succ depth' =>
      refine ends_below_iff.2 ((ends_below_iff.1 he).imp_right ?_)
      rintro ⟨names, more, rfl, hmore⟩
      rw [List.forall_mem_cons] at hlog
      obtain ⟨-, hmem⟩ := mem_listed_iff hlog.1
      refine ⟨names, more, rfl, ends_entries_of (fun name hname => (hmem name).1 hname) ?_ hmore
        hlog.2⟩
      exact fun name _ log r henter hlog he => ih he hlog henter.isDirectory
        (room_join hnames henter.holds hroom) (room_join hnames henter.holds hroom')
        (View.fault_of_isDirectory henter.isDirectory).2

end Collect

/-! ## The list of files -/

open Collect (View)

/-- Every collection that is answered truly ends, with paths in strictly increasing order. They are what
the given paths stand for, each in one spelling. So the order and the number of the given paths and the
order in which directories tell their names do not matter, and no deeper search finds more. -/
theorem collect_exact (v : View) (hnames : v.tree.WellNamed) (paths : List String) :
    (∃ log found, Ends (collect paths) log found ∧ ∀ e ∈ log, v.Answers e) ∧
    (∀ depth directory log r, maxPath ≤ depth → v.isDirectory directory = true →
      (∀ e ∈ log, v.Answers e) →
      (Ends (Collect.below depth directory) log r ↔ Ends (Collect.below maxPath directory) log r)) ∧
    ∀ log found, Ends (collect paths) log found → (∀ e ∈ log, v.Answers e) →
      found.files.Pairwise (fun a b => Path.isBefore a b = true) ∧
      (∀ x ∈ found.files, v.Sought paths x) ∧
      (∀ x, v.Sought paths x → ∃ y ∈ found.files, Path.same x y = true) ∧
      ∀ paths' log' found', (∀ path, path ∈ paths' ↔ path ∈ paths) →
        Ends (collect paths') log' found' → (∀ e ∈ log', v.Answers e) →
        List.Forall₂ (fun a b => Path.same a b = true) found.files found'.files := by
  refine ⟨v.exists_answered _, fun depth directory log r hdepth hdirectory hlog => ?_,
    fun log found he hlog => ?_⟩
  · have hroom := Collect.room_of_le hdirectory hdepth
    have hroom' := Collect.room_of_le hdirectory le_rfl
    exact ⟨fun he => Collect.ends_below_of_room hnames he hlog hdirectory hroom hroom',
      fun he => Collect.ends_below_of_room hnames he hlog hdirectory hroom' hroom⟩
  · obtain ⟨found, hall, rfl⟩ := ends_collect_iff.1 he
    have hmem : ∀ x, x ∈ found.files ↔ v.Sought paths x := fun x =>
      Collect.mem_all_iff hnames hall hlog
    refine ⟨Collect.pairwise_inOrder _, fun x hx => (hmem x).1 (Collect.mem_of_mem_inOrder hx),
      fun x hx => Collect.exists_same_inOrder ((hmem x).2 hx), ?_⟩
    intro paths' log' found' hpaths he' hlog'
    obtain ⟨found', hall', rfl⟩ := ends_collect_iff.1 he'
    have hmem' : ∀ x, x ∈ found'.files ↔ x ∈ found.files := fun x => by
      rw [Collect.mem_all_iff hnames hall' hlog', hmem]
      exact exists_congr fun path => and_congr_left fun _ => hpaths path
    exact Collect.same_inOrder
      (fun x hx => ⟨x, (hmem' x).2 hx, (Path.same_iff x x).2 rfl⟩)
      (fun x hx => ⟨x, (hmem' x).1 hx, (Path.same_iff x x).2 rfl⟩)

/-- Source files in a directory and below it, one of them a broken link; directories that are passed
over, one with the name of a source file, and a link to a directory. -/
def sourceTree : FileTree :=
  ⟨[(["d"], .directory), (["d", "a-b"], .directory), (["d", "a-b", "x.rs"], .file "".toUTF8 false),
    (["d", "a"], .link "a-b"), (["d", "y.rs"], .directory), (["d", "y.rs", "z.rs"], .link "none"),
    (["d", "y.rs", "note.md"], .file "".toUTF8 false), (["d", ".git"], .directory),
    (["d", ".git", "w.rs"], .file "".toUTF8 false), (["d", "target"], .directory)]⟩

theorem collect_exact_sourceTree :
    sourceTree.WellNamed ∧ ∀ x, (View.clear sourceTree []).Sought ["d/./y.rs", "d", "none.txt"] x →
      ∃ y ∈ ["d/./y.rs/z.rs", "d/a-b/x.rs", "d/a/x.rs", "d/y.rs/z.rs", "none.txt"],
        Path.same x y = true := by
  have hnamed : sourceTree.WellNamed := wellNamed_of_entries (by decide +kernel)
  have hall : ((Collect.all ["d/./y.rs", "d", "none.txt"]).run Workspace.bare sourceTree).1.files =
      ["d/./y.rs/z.rs", "d/a-b/x.rs", "d/a/x.rs", "d/y.rs/z.rs", "none.txt"] := by
    decide +kernel
  have hfiles : ((collect ["d/./y.rs", "d", "none.txt"]).run Workspace.bare sourceTree).1.files =
      Collect.inOrder ((Collect.all ["d/./y.rs", "d", "none.txt"]).run Workspace.bare
        sourceTree).1.files := by
    rw [collect, Plan.run_bind]
    rfl
  obtain ⟨-, -, hexact⟩ := collect_exact (View.clear sourceTree []) hnamed ["d/./y.rs", "d", "none.txt"]
  obtain ⟨-, -, hsought, -⟩ := hexact _ _ (Plan.ends_log Workspace.bare _ sourceTree)
    (View.answers_log (always_collect _) (by decide +kernel) Workspace.bare)
  refine ⟨hnamed, fun x hx => ?_⟩
  obtain ⟨y, hy, hsame⟩ := hsought x hx
  rw [hfiles, hall] at hy
  exact ⟨y, Collect.mem_of_mem_inOrder hy, hsame⟩

end EmbeddedSolidity
