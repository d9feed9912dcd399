import EmbeddedSolidity.FileSystem.Operation
import EmbeddedSolidity.Text.Utf8

/-!
# Plans

What a run asks of the machine that it runs on is a plan: a tree of calls, where the answer to
each call decides how the plan goes on. A plan says nothing about how calls are answered, so the
same plan can be carried out on a file tree, with faults at any call, or step by step between
the calls of another plan.

* `Plan.bind_done`, `Plan.bind_assoc` : plans form a monad.
-/

namespace EmbeddedSolidity

open FileSystem (Fault)
open FileSystem.FileTree (Kind)

/-- How a process ended. -/
inductive Ending where
  | exited (status : Nat)
  /-- By a signal. -/
  | killed
  /-- It was killed because it took too long. -/
  | timedOut
deriving DecidableEq, Repr

/-- What a process leaves behind. -/
structure Outcome where
  ending : Ending
  output : ByteArray := ByteArray.empty
  errors : ByteArray := ByteArray.empty
deriving DecidableEq

/-- A call to the machine. -/
inductive Call where
  /-- The kind of what is at a path; a link is not followed. -/
  | kind (path : String)
  /-- Whether a path leads to a directory. -/
  | isDirectory (path : String)
  /-- The names in a directory. -/
  | list (path : String)
  /-- The content of a file. -/
  | read (path : String)
  /-- Write a file. -/
  | write (path : String) (content : ByteArray)
  /-- Make a directory and those above it. -/
  | makeDirectories (path : String)
  /-- Remove a file or a link. -/
  | removeFile (path : String)
  /-- Remove a directory with all that is in it. -/
  | removeTree (path : String)
  /-- The path of an executable. -/
  | locate (name : String)
  /-- Run an executable in a directory to build what is there, for at most some seconds. -/
  | execute (program directory : String) (limit : Option Nat)
deriving DecidableEq

/-- What answers a call. -/
def Call.Answer : Call → Type
  | .kind _ => Except Fault Kind
  | .isDirectory _ => Bool
  | .list _ => Except Fault (List String)
  | .read _ => Except Fault ByteArray
  | .write _ _ | .makeDirectories _ | .removeFile _ | .removeTree _ => Except Fault Unit
  | .locate _ => Option String
  | .execute _ _ _ => Except Fault Outcome

/-- A tree of calls. -/
inductive Plan (α : Type) where
  | done (a : α)
  | ask (call : Call) (next : call.Answer → Plan α)

namespace Plan

variable {α β γ : Type}

/-- Go on with a plan that depends on the result of another. -/
def bind : Plan α → (α → Plan β) → Plan β
  | done a, f => f a
  | ask call next, f => ask call fun answer => bind (next answer) f

instance : Monad Plan where
  pure := done
  bind := bind

theorem bind_done (a : α) (f : α → Plan β) : (done a).bind f = f a :=
  rfl

theorem done_bind (p : Plan α) : p.bind done = p := by
  induction p with
  | done a => rfl
  | ask call next ih => simp only [bind, ih]

theorem bind_assoc (p : Plan α) (f : α → Plan β) (g : β → Plan γ) :
    (p.bind f).bind g = p.bind fun a => (f a).bind g := by
  induction p with
  | done a => rfl
  | ask call next ih => simp only [bind, ih]

instance : LawfulMonad Plan :=
  .mk' Plan done_bind (fun _ _ => rfl) bind_assoc

/-! ## Calls as plans -/

/-- Ask and give the answer. -/
def call (c : Call) : Plan c.Answer :=
  ask c done

/-- Whether a path leads to a directory. -/
def isDirectory (path : String) : Plan Bool :=
  call (.isDirectory path)

/-- The text of a file; bytes that are no text are a fault. -/
def readText (path : String) : Plan (Except Fault String) := do
  match ← call (.read path) with
  | .ok bytes =>
    match Text.decode? bytes with
    | some text => return .ok text
    | none => return .error .notText
  | .error fault => return .error fault

/-- Write a text to a file. -/
def writeText (path text : String) : Plan (Except Fault Unit) :=
  call (.write path text.toUTF8)

/-- Stop at the first error. -/
def andThen {ε : Type} (p : Plan (Except ε α)) (f : α → Plan (Except ε β)) :
    Plan (Except ε β) := do
  match ← p with
  | .ok a => f a
  | .error e => return .error e

end Plan

end EmbeddedSolidity
