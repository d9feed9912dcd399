import EmbeddedSolidity.FileSystem.Search
import EmbeddedSolidity.Plan.Basic

/-!
# Carrying out plans

A host answers calls on a file tree: it fixes the current directory, where executables are
looked for, and what executables do. Compilers are a part of the host, and nothing is assumed of
them.

* `Host.answer` : the answer to a call and the tree after it;
* `Plan.run` : the result of a plan and the tree after it.
-/

namespace EmbeddedSolidity

open FileSystem

/-- What answers the calls of a plan. -/
structure Host where
  /-- The current directory. -/
  current : Place
  /-- The directories in which executables are looked for. -/
  search : List String
  /-- What happens when a program is run in a directory for at most some seconds. -/
  execute : (program directory : String) → Option Nat → FileTree →
    Except Fault Outcome × FileTree

/-- The answer to a call, and the tree after it. -/
def Host.answer (h : Host) (t : FileTree) : (c : Call) → c.Answer × FileTree
  | .kind path => (t.kind h.current path, t)
  | .isDirectory path => (t.isDirectory h.current path, t)
  | .list path => (t.list h.current path, t)
  | .read path => (t.read h.current path, t)
  | .write path content => t.keeping (t.write h.current path content)
  | .makeDirectories path => t.makeDirectories h.current path
  | .removeFile path => t.keeping (t.removeFile h.current path)
  | .removeTree path => t.removeTree h.current path
  | .locate name => (t.locate h.current h.search name, t)
  | .execute program directory limit => h.execute program directory limit t

/-- The result of a plan, and the tree after it. -/
def Plan.run {α : Type} (h : Host) : Plan α → FileTree → α × FileTree
  | .done a, t => (a, t)
  | .ask c next, t =>
    let (answer, t) := h.answer t c
    (next answer).run h t

theorem Plan.run_bind {α β : Type} (h : Host) (p : Plan α) (f : α → Plan β) (t : FileTree) :
    (p >>= f).run h t = (f (p.run h t).1).run h (p.run h t).2 := by
  change (p.bind f).run h t = _
  induction p generalizing t with
  | done a => rfl
  | ask c next ih => exact ih _ _

end EmbeddedSolidity
