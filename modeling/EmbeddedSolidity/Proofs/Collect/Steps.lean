import EmbeddedSolidity.Collect
import EmbeddedSolidity.Proofs.Plan.Log
import Mathlib.Tactic.SplitIfs

/-!
# Steps of a collection

The calls with which a collection ends, and what is collected, told from those of its parts. A directory
is listed once; then its entries are met one after the other, and each is asked for its kind before
anything else is done with it.

* `Collect.met`, `Collect.ends_entries_cons_iff` : the entries of a directory;
* `Collect.ends_below_iff` : a directory;
* `Collect.given`, `Collect.ends_all_cons_iff`, `ends_collect_iff` : the paths that are given.
-/

namespace EmbeddedSolidity

open FileSystem (Fault maxPath)
open Plan (Ends ends_bind_iff ends_pure_iff ends_call_iff)

namespace Collect

variable {enter : String → Plan Collected} {directory name path : String} {names rest : List String}
  {log : List Exchange} {r : Collected} {depth : Nat}

/-- The question whether a path leads to a directory, with its answer. -/
def asked (path : String) (answer : Bool) : Exchange :=
  ⟨.isDirectory path, answer⟩

/-- The question for the names in a directory, with its answer. -/
def listed (path : String) (answer : Except Fault (List String)) : Exchange :=
  ⟨.list path, answer⟩

/-- A plan for a path that depends on its kind, and then a plan for the others. -/
def andRest (path : String) (own : Bool → Plan Collected) (rest : Plan Collected) :
    Plan Collected := do
  let answer ← Plan.isDirectory path
  let found ← own answer
  let more ← rest
  pure (found.append more)

theorem ends_andRest_iff {own : Bool → Plan Collected} {others : Plan Collected} :
    Ends (andRest path own others) log r ↔
      ∃ answer first found second more, log = asked path answer :: (first ++ second) ∧
        Ends (own answer) first found ∧ Ends others second more ∧ r = found.append more := by
  constructor
  · intro he
    obtain ⟨_, answer, behind, rfl, hanswer, hown⟩ := he.of_bind
    obtain rfl := hanswer.of_call
    obtain ⟨first, found, _, rfl, hfound, hothers⟩ := hown.of_bind
    obtain ⟨second, more, last, rfl, hmore, hlast⟩ := hothers.of_bind
    obtain ⟨rfl, rfl⟩ := hlast.of_pure
    exact ⟨answer, first, found, second, more, by rw [List.append_nil]; rfl, hfound, hmore, rfl⟩
  · rintro ⟨answer, first, found, second, more, rfl, hfound, hmore, rfl⟩
    have hlast : Ends (others >>= fun more => pure (found.append more)) second
        (found.append more) := ends_bind_iff.2
      ⟨second, more, [], (List.append_nil second).symm, hmore, Plan.ends_pure _⟩
    have hown : Ends (own answer >>= fun found => others >>= fun more => pure (found.append more))
        (first ++ second) (found.append more) := hfound.bind hlast
    exact (Plan.ends_call (.isDirectory path) answer).bind hown

/-! ## Entries -/

/-- A path that is no directory, as an entry : it counts if it is a source file. -/
def ofFile (path : String) : Collected :=
  { files := if Path.extension? path == some sourceExtension then [path] else [] }

/-- What is done with an entry that is a directory or not. -/
def met (enter : String → Plan Collected) (directory name : String) (answer : Bool) :
    Plan Collected :=
  if answer then
    if isPassedOver name then pure {} else enter (Path.join directory name)
  else pure (ofFile (Path.join directory name))

theorem met_file : met enter directory name false = pure (ofFile (Path.join directory name)) :=
  rfl

theorem met_passedOver (h : isPassedOver name = true) : met enter directory name true = pure {} :=
  if_pos h

theorem met_entered (h : isPassedOver name = false) :
    met enter directory name true = enter (Path.join directory name) :=
  if_neg (Bool.eq_false_iff.1 h)

theorem entries_cons (enter : String → Plan Collected) (directory name : String)
    (rest : List String) : entries enter directory (name :: rest) =
      andRest (Path.join directory name) (met enter directory name) (entries enter directory rest) := by
  refine congrArg (Plan.isDirectory (Path.join directory name) >>= ·) (funext fun answer => ?_)
  cases answer with
  | false => rfl
  | true =>
    unfold met
    rw [if_pos rfl, if_pos rfl]
    split_ifs <;> rfl

theorem ends_entries_nil_iff : Ends (entries enter directory []) log r ↔ log = [] ∧ r = {} :=
  ends_pure_iff

/-- The first entry is met, and then the others. -/
theorem ends_entries_cons_iff : Ends (entries enter directory (name :: rest)) log r ↔
    ∃ answer first found second more,
      log = asked (Path.join directory name) answer :: (first ++ second) ∧
      Ends (met enter directory name answer) first found ∧
      Ends (entries enter directory rest) second more ∧ r = found.append more := by
  rw [entries_cons]
  exact ends_andRest_iff

/-! ## Directories -/

/-- A directory is listed, and then its entries are met. -/
theorem ends_below_iff : Ends (below (depth + 1) directory) log r ↔
    (∃ fault, log = [listed directory (.error fault)] ∧
      r = { diagnostics := [.ofRun (.scan directory fault.text)] }) ∨
    ∃ names more, log = listed directory (.ok names) :: more ∧
      Ends (entries (below depth) directory names) more r := by
  constructor
  · intro he
    obtain ⟨_, answer, more, rfl, hanswer, hmore⟩ := Ends.of_bind he
    obtain rfl := hanswer.of_call
    cases answer with
    | error fault =>
      obtain ⟨rfl, rfl⟩ := hmore.of_pure
      exact Or.inl ⟨fault, rfl, rfl⟩
    | ok names => exact Or.inr ⟨names, more, rfl, hmore⟩
  · rintro (⟨fault, rfl, rfl⟩ | ⟨names, more, rfl, hmore⟩)
    · exact (Plan.ends_call (.list directory) (.error fault)).bind (Plan.ends_pure _)
    · exact (Plan.ends_call (.list directory) (.ok names)).bind hmore

/-! ## Paths -/

/-- What is done with a given path that leads to a directory or not. -/
def given (path : String) (answer : Bool) : Plan Collected :=
  if answer then below maxPath path else pure { files := [path] }

theorem all_cons (path : String) (rest : List String) :
    all (path :: rest) = andRest path (given path) (all rest) := by
  refine congrArg (Plan.isDirectory path >>= ·) (funext fun answer => ?_)
  unfold given
  split_ifs <;> rfl

theorem ends_all_nil_iff : Ends (all []) log r ↔ log = [] ∧ r = {} :=
  ends_pure_iff

/-- The first path is expanded, and then the others. -/
theorem ends_all_cons_iff : Ends (all (path :: rest)) log r ↔
    ∃ answer first found second more, log = asked path answer :: (first ++ second) ∧
      Ends (given path answer) first found ∧ Ends (all rest) second more ∧
      r = found.append more := by
  rw [all_cons]
  exact ends_andRest_iff

end Collect

/-- What was found is put in order at the end. -/
theorem ends_collect_iff {paths : List String} {log : List Exchange} {r : Collect.Collected} :
    Ends (collect paths) log r ↔ ∃ found, Ends (Collect.all paths) log found ∧
      r = { found with files := Collect.inOrder found.files } := by
  constructor
  · intro he
    obtain ⟨first, found, second, rfl, hall, hpure⟩ := he.of_bind
    obtain ⟨rfl, rfl⟩ := hpure.of_pure
    exact ⟨found, (List.append_nil first).symm ▸ hall, rfl⟩
  · rintro ⟨found, hall, rfl⟩
    exact ends_bind_iff.2 ⟨log, found, [], (List.append_nil log).symm, hall, Plan.ends_pure _⟩

end EmbeddedSolidity
