import EmbeddedSolidity.Proofs.Collect.Routes
import Mathlib.Data.List.Pairwise

/-!
# What is met once

A collection lists each directory that it enters, each path once. Paths are told apart by their
components, and it is not remembered which places have been met : a directory or a file to which two
entries lead is met twice, and a link to a directory above is followed until the path leads nowhere. So
what is below a directory is met once if and only if no two entries lead to the same, which is so
wherever there are no links. A run then visits each file once and tries each snippet in it once.

* `Collect.entered_below` : the directories that are entered, from the calls;
* `View.Unshared`, `View.unshared_iff` : no two entries lead to the same;
* `View.Linkless.unshared` : without links it is so;
* `collect_once` : when everything is met once.
-/

namespace EmbeddedSolidity

open FileSystem FileSystem.FileTree
open Plan (Ends)
open Relation (ReflTransGen)

namespace Collect

variable {v : View} {directory inner name path : String} {names : List String} {log : List Exchange}
  {r : Collected} {depth : Nat}

/-! ## Directories in a log -/

/-- The directory that a call lists. -/
def listed? : Exchange → Option String
  | ⟨.list path, _⟩ => some path
  | _ => none

/-- The directories that are entered, in order. -/
def entered (log : List Exchange) : List String :=
  log.filterMap listed?

@[simp] theorem entered_nil : entered [] = [] :=
  rfl

@[simp] theorem entered_asked (path : String) (answer : Bool) (log : List Exchange) :
    entered (asked path answer :: log) = entered log :=
  rfl

@[simp] theorem entered_listed (path : String) (answer : Except Fault (List String))
    (log : List Exchange) : entered (listed path answer :: log) = path :: entered log :=
  rfl

@[simp] theorem entered_append (log log' : List Exchange) :
    entered (log ++ log') = entered log ++ entered log' :=
  List.filterMap_append

/-- From each entry that is entered the directories below it are. The routes begin with different names,
so none of the directories is entered from two entries. -/
theorem entered_entries {enter : String → Plan Collected} (hnames : v.tree.WellNamed)
    (hnodup : names.Nodup) (hholds : ∀ name ∈ names, v.Holds directory name)
    (henter : ∀ name ∈ names, ∀ log r, v.Enterable directory name →
      Ends (enter (Path.join directory name)) log r → (∀ e ∈ log, v.Answers e) →
        (entered log).Nodup ∧ ∀ inner, inner ∈ entered log ↔ v.Enters (Path.join directory name) inner)
    (he : Ends (entries enter directory names) log r) (hlog : ∀ e ∈ log, v.Answers e) :
    (entered log).Nodup ∧ ∀ inner, inner ∈ entered log ↔
      ∃ name ∈ names, v.Enterable directory name ∧ v.Enters (Path.join directory name) inner := by
  induction names generalizing log r with
  | nil =>
    obtain ⟨rfl, -⟩ := ends_entries_nil_iff.1 he
    simp
  | cons name rest ih =>
    obtain ⟨answer, first, found, second, more, rfl, hfound, hmore, rfl⟩ :=
      ends_entries_cons_iff.1 he
    rw [List.forall_mem_cons, List.forall_mem_append] at hlog
    rw [List.forall_mem_cons] at hholds henter
    rw [List.nodup_cons] at hnodup
    obtain rfl := eq_isDirectory hlog.1
    obtain ⟨hrest, hmem⟩ := ih hnodup.2 hholds.2 henter.2 hmore hlog.2.2
    have hfirst : (entered first).Nodup ∧ ∀ inner, inner ∈ entered first ↔
        v.Enterable directory name ∧ v.Enters (Path.join directory name) inner := by
      rcases met_cases hholds.1 hfound with ⟨henterable, hfound⟩ | ⟨hnot, rfl, -⟩
      · obtain ⟨hnodup, hmem⟩ := henter.1 _ _ henterable hfound hlog.2.1
        exact ⟨hnodup, fun inner => (hmem inner).trans (and_iff_right henterable).symm⟩
      · exact ⟨List.nodup_nil, fun inner => ⟨nofun, fun h => absurd h.1 hnot⟩⟩
    rw [entered_asked, entered_append, List.nodup_append']
    refine ⟨⟨hfirst.1, hrest, fun inner hinner hinner' => ?_⟩, fun inner => ?_⟩
    · obtain ⟨henterable, henters⟩ := (hfirst.2 inner).1 hinner
      obtain ⟨name', hname', henterable', henters'⟩ := (hmem inner).1 hinner'
      have heq := Path.Under.name_eq (henterable.holds.allowed hnames)
        (henterable'.holds.allowed hnames) (henters.under hnames) (henters'.under hnames)
      exact hnodup.1 (heq ▸ hname')
    · rw [List.mem_append, hfirst.2, hmem, List.exists_mem_cons_iff]

/-- Below a directory each path of a directory that is entered is listed once. -/
theorem entered_below (hnames : v.tree.WellNamed) (he : Ends (below depth directory) log r)
    (hlog : ∀ e ∈ log, v.Answers e) (hdirectory : v.isDirectory directory = true)
    (hroom : maxPath < directory.utf8ByteSize + depth) :
    (entered log).Nodup ∧ ∀ inner, inner ∈ entered log ↔ v.Enters directory inner := by
  induction depth generalizing directory log r with
  | zero =>
    have hfault := View.fault_of_isDirectory hdirectory
    omega
  | succ depth ih =>
    rcases ends_below_iff.1 he with ⟨fault, rfl, rfl⟩ | ⟨names, more, rfl, hmore⟩
    · refine ⟨List.nodup_singleton _, fun inner => ?_⟩
      rw [entered_listed, entered_nil, List.mem_singleton, View.Enters, ReflTransGen.cases_head_iff]
      refine ⟨fun h => Or.inl h.symm, ?_⟩
      rintro (rfl | ⟨_, ⟨name, henterable, rfl⟩, -⟩)
      · rfl
      · exact absurd henterable.holds (not_holds_of_fault (hlog _ List.mem_cons_self))
    · rw [List.forall_mem_cons] at hlog
      obtain ⟨hnodup, hmem⟩ := mem_listed_iff hlog.1
      obtain ⟨hmore, hinner⟩ := entered_entries hnames hnodup
        (fun name hname => (hmem name).1 hname)
        (fun name _ log r henterable he hlog => ih he hlog henterable.isDirectory
          (room_join hnames henterable.holds hroom))
        hmore hlog.2
      rw [entered_listed, List.nodup_cons]
      refine ⟨⟨fun hself => ?_, hmore⟩, fun inner => ?_⟩
      · obtain ⟨name, -, henterable, henters⟩ := (hinner directory).1 hself
        exact (henters.under hnames).ne_of_join (henterable.holds.allowed hnames) rfl
      · rw [List.mem_cons, hinner, View.Enters, ReflTransGen.cases_head_iff, eq_comm]
        refine or_congr_right ⟨?_, ?_⟩
        · rintro ⟨name, -, henterable, henters⟩
          exact ⟨_, ⟨name, henterable, rfl⟩, henters⟩
        · rintro ⟨_, ⟨name, henterable, rfl⟩, henters⟩
          exact ⟨name, (hmem name).2 henterable.holds, henterable, henters⟩

/-- What a collection of one directory enters and what it finds : no path twice. -/
theorem entered_collect (hnames : v.tree.WellNamed) (hdirectory : v.isDirectory directory = true)
    (he : Ends (collect [directory]) log r) (hlog : ∀ e ∈ log, v.Answers e) :
    ((entered log).Nodup ∧ ∀ inner, inner ∈ entered log ↔ v.Enters directory inner) ∧
      r.files.Nodup ∧ ∀ x, x ∈ r.files ↔ v.SourceBelow directory x := by
  obtain ⟨found, hall, rfl⟩ := ends_collect_iff.1 he
  have hfound : ∀ x, x ∈ found.files ↔ v.SourceBelow directory x := fun x => by
    rw [mem_all_iff hnames hall hlog]
    simp [View.Sought, View.StandsFor, hdirectory]
  refine ⟨?_, ?_, fun x => ⟨fun hx => (hfound x).1 (mem_of_mem_inOrder hx), fun hx => ?_⟩⟩
  · obtain ⟨answer, first, found, second, more, rfl, hgiven, hrest, -⟩ := ends_all_cons_iff.1 hall
    obtain ⟨rfl, -⟩ := ends_all_nil_iff.1 hrest
    rw [List.append_nil, List.forall_mem_cons] at hlog
    obtain rfl := eq_isDirectory hlog.1
    rw [hdirectory] at hgiven
    rw [List.append_nil, entered_asked]
    exact entered_below hnames hgiven hlog.2 hdirectory (room_of_le hdirectory le_rfl)
  · refine (pairwise_inOrder found.files).imp fun h heq => ?_
    rw [heq, Path.isBefore_iff] at h
    exact lt_irrefl _ h
  · obtain ⟨y, hy, hsame⟩ := exists_same_inOrder ((hfound x).2 hx)
    have hy' := (hfound y).1 (mem_of_mem_inOrder hy)
    have heq := (hx.under hnames).eq_of_components (hy'.under hnames) (eq_of_beq hsame)
    rwa [heq]

namespace View

/-! ## Entries that lead to the same -/

/-- In the directories that are entered, no two entries of that kind lead to the same. -/
def EachOnce (v : View) (directory : String) (entry : String → String → Prop) : Prop :=
  ∀ inner name inner' name', v.Enters directory inner → v.Enters directory inner' →
    entry inner name → entry inner' name' →
    v.Alike (Path.join inner name) (Path.join inner' name') → v.Alike inner inner' ∧ name = name'

/-- Below the directory no two entries lead to the same, and none leads back to it. -/
structure Unshared (v : View) (directory : String) : Prop where
  back : ∀ inner name, v.Enters directory inner → v.Enterable inner name →
    ¬ v.Alike (Path.join inner name) directory
  directories : v.EachOnce directory v.Enterable
  files : v.EachOnce directory v.IsSource

/-- If no two entries lead to the same directory, no two routes do. -/
theorem Unshared.eq_of_enters {inner inner' : String} (h : v.Unshared directory)
    (hinner : v.Enters directory inner) (hinner' : v.Enters directory inner')
    (halike : v.Alike inner inner') : inner = inner' := by
  induction hinner generalizing inner' with
  | refl =>
    rcases ReflTransGen.cases_tail hinner' with rfl | ⟨outer', houter', name', henterable', rfl⟩
    · rfl
    · exact absurd halike.symm (h.back _ _ houter' henterable')
  | tail houter hinto ih =>
    obtain ⟨name, henterable, rfl⟩ := hinto
    rcases ReflTransGen.cases_tail hinner' with rfl | ⟨outer', houter', name', henterable', rfl⟩
    · exact absurd halike (h.back _ _ houter henterable)
    · obtain ⟨houters, rfl⟩ := h.directories _ _ _ _ houter houter' henterable henterable' halike
      rw [ih houter' houters]

/-- No two entries lead to the same if and only if no two paths do. -/
theorem unshared_iff (hnames : v.tree.WellNamed) (hdirectory : v.isDirectory directory = true) :
    v.Unshared directory ↔
      (∀ a b, v.Enters directory a → v.Enters directory b → v.Alike a b → a = b) ∧
        ∀ a b, v.SourceBelow directory a → v.SourceBelow directory b → v.Alike a b → a = b := by
  constructor
  · intro h
    refine ⟨fun a b => h.eq_of_enters, fun a b ha hb halike => ?_⟩
    obtain ⟨inner, name, henters, hsource, rfl⟩ := sourceBelow_iff_exists.1 ha
    obtain ⟨inner', name', henters', hsource', rfl⟩ := sourceBelow_iff_exists.1 hb
    obtain ⟨hinner, rfl⟩ := h.files _ _ _ _ henters henters' hsource hsource' halike
    rw [h.eq_of_enters henters henters' hinner]
  · rintro ⟨hdirectories, hfiles⟩
    -- A joined path tells its directory, which leads to the same as itself.
    have hjoin : ∀ {inner name inner' name'}, v.Enters directory inner → v.Enters directory inner' →
        v.Holds inner name → v.Holds inner' name' →
        Path.join inner name = Path.join inner' name' → v.Alike inner inner' ∧ name = name' := by
      intro inner name inner' name' hinner hinner' hholds hholds' heq
      obtain ⟨rfl, rfl⟩ := (hinner.under hnames).join_inj (hinner'.under hnames)
        (hholds.allowed hnames) (hholds'.allowed hnames) heq
      exact ⟨alike_self (hinner.isDirectory hdirectory), rfl⟩
    refine ⟨fun inner name hinner henterable halike => ?_, ?_, ?_⟩
    · have heq := hdirectories _ _ (hinner.tail ⟨name, henterable, rfl⟩) .refl halike
      have hunder := hinner.under hnames
      rw [← heq] at hunder
      exact hunder.ne_of_join (henterable.holds.allowed hnames) rfl
    · intro inner name inner' name' hinner hinner' henterable henterable' halike
      exact hjoin hinner hinner' henterable.holds henterable'.holds
        (hdirectories _ _ (hinner.tail ⟨name, henterable, rfl⟩)
          (hinner'.tail ⟨name', henterable', rfl⟩) halike)
    · intro inner name inner' name' hinner hinner' hsource hsource' halike
      exact hjoin hinner hinner' hsource.holds hsource'.holds
        (hfiles _ _ (sourceBelow_iff_exists.2 ⟨_, _, hinner, hsource, rfl⟩)
          (sourceBelow_iff_exists.2 ⟨_, _, hinner', hsource', rfl⟩) halike)

/-- A list that names no path twice names nothing twice if and only if paths that lead to the same are
equal. -/
theorem pairwise_not_alike_iff {l : List String} {S : String → Prop} (hnodup : l.Nodup)
    (hmem : ∀ x, x ∈ l ↔ S x) :
    l.Pairwise (fun a b => ¬ v.Alike a b) ↔ ∀ a b, S a → S b → v.Alike a b → a = b := by
  have hsymm : Std.Symm fun a b => ¬ v.Alike a b := ⟨fun _ _ hnot halike => hnot halike.symm⟩
  constructor
  · intro h a b ha hb halike
    by_contra hne
    exact h.forall ((hmem a).2 ha) ((hmem b).2 hb) hne halike
  · exact fun h => hnodup.pairwise_of_forall_ne fun a ha b hb hne halike =>
      hne (h a b ((hmem a).1 ha) ((hmem b).1 hb) halike)

/-! ## Trees without links -/

/-- The names that lead from the directory to the path lead from the one place to the other. -/
def Straight (v : View) (directory : String) (p : Place) (path : String) : Prop :=
  ∃ names : List String, path = names.foldl Path.join directory ∧
    ∀ q, v.LeadsTo path q → q = p ++ names

theorem Straight.eq_of_alike {path' : String} {p : Place} (h : v.Straight directory p path)
    (h' : v.Straight directory p path') (halike : v.Alike path path') : path = path' := by
  obtain ⟨names, rfl, hplace⟩ := h
  obtain ⟨names', rfl, hplace'⟩ := h'
  obtain ⟨q, hq, hq'⟩ := halike
  have heq := (hplace q hq).symm.trans (hplace' q hq')
  rw [List.append_cancel_left heq]

/-- Without links nothing is met twice. -/
theorem Linkless.unshared (h : v.Linkless directory) (hnames : v.tree.WellNamed)
    (hdirectory : v.isDirectory directory = true) : v.Unshared directory := by
  obtain ⟨p, hp⟩ := isDirectory_iff.1 hdirectory
  have henters : ∀ a, v.Enters directory a → v.Straight directory p a := by
    intro a ha
    obtain ⟨names, rfl, hopens⟩ := ha.opens hnames h hp
    exact ⟨names, rfl, fun q hq => hopens.leadsTo.unique hq⟩
  have hbelow : ∀ a, v.SourceBelow directory a → v.Straight directory p a := by
    intro a ha
    obtain ⟨inner, name, hinner, hsource, rfl⟩ := sourceBelow_iff_exists.1 ha
    obtain ⟨names, rfl, hopens⟩ := hinner.opens hnames h hp
    refine ⟨names ++ [name], by rw [List.foldl_append]; rfl, fun q hq => ?_⟩
    rw [← List.append_assoc]
    exact place_of_leadsTo hopens (hsource.holds.allowed hnames)
      (h _ _ hinner hopens name) hq
  exact (unshared_iff hnames hdirectory).2
    ⟨fun a b ha hb => (henters a ha).eq_of_alike (henters b hb),
      fun a b ha hb => (hbelow a ha).eq_of_alike (hbelow b hb)⟩

end View

end Collect

open Collect (View entered)

/-- A collection of one directory enters no path twice. It enters no directory twice, and no two of its
paths lead to the same file, if and only if no two of the entries that it meets lead to the same; so it
is without links. A run then visits no file twice and tries each snippet of a file once, or not at all
if it has been ended by a fatal failure. -/
theorem collect_once (v : View) (hnames : v.tree.WellNamed) (directory : String)
    (hdirectory : v.isDirectory directory = true) :
    (∀ log found, Ends (collect [directory]) log found → (∀ e ∈ log, v.Answers e) →
      (entered log).Nodup ∧
      (((entered log).Pairwise (fun a b => ¬ v.Alike a b) ∧
        found.files.Pairwise (fun a b => ¬ v.Alike a b)) ↔ v.Unshared directory)) ∧
    (v.Linkless directory → v.Unshared directory) ∧
    ∀ (temporary : String) (o : Options) c log result, o.resolve temporary = .ok c →
      Ends (compileSources temporary o [directory]) log result →
      ∃ a : Compile.Account, result = .ok a.report ∧ log = a.log ∧ a.Sound c [directory] ∧
        ((∀ e ∈ a.collecting, v.Answers e) → v.Unshared directory →
          (a.visits.map Compile.Visit.file).Pairwise (fun a b => ¬ v.Alike a b) ∧
          (∃ rest, a.collected.files = a.visits.map Compile.Visit.file ++ rest ∧
            (a.aborted = false → rest = [])) ∧
          ∀ visit ∈ a.visits, visit.InOrder a.aborted) := by
  have honce : ∀ log found, Ends (collect [directory]) log found → (∀ e ∈ log, v.Answers e) →
      (((entered log).Pairwise (fun a b => ¬ v.Alike a b) ∧
        found.files.Pairwise (fun a b => ¬ v.Alike a b)) ↔ v.Unshared directory) := by
    intro log found he hlog
    obtain ⟨⟨hdirectories, hentered⟩, hfiles, hfound⟩ :=
      Collect.entered_collect hnames hdirectory he hlog
    rw [View.pairwise_not_alike_iff hdirectories hentered, View.pairwise_not_alike_iff hfiles hfound,
      View.unshared_iff hnames hdirectory]
  refine ⟨fun log found he hlog => ⟨?_, honce log found he hlog⟩,
    fun h => h.unshared hnames hdirectory, fun temporary o c log result hresolve he => ?_⟩
  · exact (Collect.entered_collect hnames hdirectory he hlog).1.1
  · obtain ⟨a, hreport, hlog, hsound⟩ := ends_compileSources hresolve he
    refine ⟨a, hreport, hlog, hsound, fun hanswers hunshared => ?_⟩
    obtain ⟨⟨rest, hrest, hall⟩, hvisits⟩ := hsound.walked.order
    refine ⟨?_, ⟨rest, hrest, hall⟩, hvisits⟩
    have hpairwise := ((honce _ _ hsound.collects hanswers).2 hunshared).2
    rw [hrest] at hpairwise
    exact hpairwise.sublist (List.sublist_append_left _ _)

/-- Source files in a directory and in one below it. -/
def nestedTree : FileTree :=
  ⟨[(["d"], .directory), (["d", "a.rs"], .file "sol!(\"\");".toUTF8 false), (["d", "e"], .directory),
    (["d", "e", "b.rs"], .file "".toUTF8 false)]⟩

theorem collect_once_nestedTree :
    (nestedTree.WellNamed ∧ (View.clear nestedTree []).isDirectory "d" = true ∧
      (View.clear nestedTree []).Linkless "d" ∧
      Options.resolve "/tmp" { workspace := some "w" } = .ok (Run.rooted "w")) ∧
    (entered ((collect ["d"]).log Workspace.bare nestedTree)).Pairwise
      (fun a b => ¬ (View.clear nestedTree []).Alike a b) ∧
    ∃ a : Compile.Account, ((compileSources "/tmp" { workspace := some "w" } ["d"]).run
        Workspace.bare nestedTree).1 = .ok a.report ∧
      (a.visits.map Compile.Visit.file).Pairwise
        (fun a b => ¬ (View.clear nestedTree []).Alike a b) := by
  have hnamed : nestedTree.WellNamed := wellNamed_of_entries (by decide +kernel)
  have hdirectory : (View.clear nestedTree []).isDirectory "d" = true := by decide +kernel
  have hlinkless : (View.clear nestedTree []).Linkless "d" := fun _ _ _ _ _ target =>
    not_link_of_entries (t := nestedTree) (by decide +kernel) _ target
  have hanswers := View.answers_log (always_collect ["d"]) (t := nestedTree) (by decide +kernel)
    Workspace.bare
  have hends := Plan.ends_log Workspace.bare (collect ["d"]) nestedTree
  obtain ⟨honce, hunshared, hruns⟩ := collect_once (View.clear nestedTree []) hnamed "d" hdirectory
  obtain ⟨a, hreport, hlog, hsound, hvisits⟩ := hruns "/tmp" { workspace := some "w" }
    (Run.rooted "w") _ _ rfl (Plan.ends_log Workspace.bare _ nestedTree)
  refine ⟨⟨hnamed, hdirectory, hlinkless, rfl⟩,
    ((honce _ _ hends hanswers).2.2 (hunshared hlinkless)).1, a, hreport, ?_⟩
  have hsame : a.collecting = (collect ["d"]).log Workspace.bare nestedTree :=
    (hsound.collecting_eq rfl hlog).1
  exact (hvisits (hsame ▸ hanswers) (hunshared hlinkless)).1

/-- A directory with a source file and a link to itself. -/
def loopTree : FileTree :=
  ⟨[(["d"], .directory), (["d", "a.rs"], .file "sol!(\"\");".toUTF8 false), (["d", "l"], .link ".")]⟩

/-- The link is followed : the directory and the file in it are met again. -/
theorem collect_twice_loopTree :
    (loopTree.WellNamed ∧ (View.clear loopTree []).isDirectory "d" = true) ∧
    ¬ (entered ((collect ["d"]).log Workspace.bare loopTree)).Pairwise
      (fun a b => ¬ (View.clear loopTree []).Alike a b) ∧
    ¬ ((collect ["d"]).run Workspace.bare loopTree).1.files.Pairwise
      (fun a b => ¬ (View.clear loopTree []).Alike a b) := by
  have hnamed : loopTree.WellNamed := wellNamed_of_entries (by decide +kernel)
  have hdirectory : (View.clear loopTree []).isDirectory "d" = true := by decide +kernel
  have hanswers := View.answers_log (always_collect ["d"]) (t := loopTree) (by decide +kernel)
    Workspace.bare
  obtain ⟨⟨hnodup, hentered⟩, hfiles, hfound⟩ := Collect.entered_collect hnamed hdirectory
    (Plan.ends_log Workspace.bare (collect ["d"]) loopTree) hanswers
  have hopens : loopTree.entryAt [] true "d" = .ok (["d"], .directory) := by decide +kernel
  have hlink : loopTree.entryAt [] true "d/l" = .ok (["d"], .directory) := by decide +kernel
  have hinto : (View.clear loopTree []).Enters "d" "d/l" :=
    .single ⟨"l", ⟨⟨["d"], hopens, trivial, rfl⟩, by decide +kernel, by decide +kernel⟩, rfl⟩
  have hfile : (View.clear loopTree []).SourceBelow "d" "d/a.rs" :=
    View.sourceBelow_iff_exists.2 ⟨"d", "a.rs", .refl,
      ⟨⟨["d"], hopens, trivial, rfl⟩, by decide +kernel, by decide +kernel⟩, rfl⟩
  have hfile' : (View.clear loopTree []).SourceBelow "d" "d/l/a.rs" :=
    View.sourceBelow_iff_exists.2 ⟨"d/l", "a.rs", hinto,
      ⟨⟨["d"], hlink, trivial, rfl⟩, by decide +kernel, by decide +kernel⟩, rfl⟩
  refine ⟨⟨hnamed, hdirectory⟩, fun h => ?_, fun h => ?_⟩
  · have heq := (View.pairwise_not_alike_iff hnodup hentered).1 h "d" "d/l" .refl hinto
      ⟨["d"], ⟨_, hopens⟩, ⟨_, hlink⟩⟩
    exact absurd heq (by decide)
  · have heq := (View.pairwise_not_alike_iff hfiles hfound).1 h "d/a.rs" "d/l/a.rs" hfile hfile'
      ⟨["d", "a.rs"],
        ⟨.file "sol!(\"\");".toUTF8 false, by decide +kernel⟩,
        ⟨.file "sol!(\"\");".toUTF8 false, by decide +kernel⟩⟩
    exact absurd heq (by decide)

end EmbeddedSolidity
