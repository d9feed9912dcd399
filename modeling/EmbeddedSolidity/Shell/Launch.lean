import EmbeddedSolidity.Plan.Host
import EmbeddedSolidity.Shell.Run

/-!
# Processes

A program is started in a directory with variables and arguments, with nothing on its input, and
leaves behind how it ended, what it wrote, and the files.

* `launch` : what a program leaves behind;
* `host` : a machine whose compilers are scripts and utilities.
-/

namespace EmbeddedSolidity.Shell

open FileSystem (Fault FileTree Place)

/-- How many tasks may wait for one another. -/
def maxDepth : Nat := 20000

/-- The names of the utilities. -/
def utilityNames : List String :=
  ["sh", "dash", "bash"] ++ Utility.all.map (·.1)

/-- How a process ended. -/
def ending (jump : Except Jump Unit) (m : Machine) : Ending :=
  match jump with
  | .error (.killed _ _) => .killed
  | .error .timedOut => .timedOut
  | _ => .exited (m.status % 256)

/-- The machine of a process that is started in a directory, with nothing on its input and buffers
for its output and its errors. -/
def Machine.started (tree : FileTree) (current : Place) (program : String)
    (environment : List (String × String)) : Machine :=
  let directory := Bytes.ofText (FileTree.textOf current)
  { tree, current, directory
    name := Bytes.ofText program
    arguments := []
    bindings := environment.map fun (name, value) =>
      (Bytes.ofText name, { value := some (Bytes.ofText value), exported := true })
    opened := #[{ target := .nothing }, { target := .buffer 0 }, { target := .buffer 1 }]
    streams := [(0, 0), (1, 1), (2, 2)]
    buffers := #[ByteArray.empty, ByteArray.empty] }

/-- What a program leaves behind that is started in a directory, and the files behind it. -/
def launch (environment : List (String × String)) (arguments : List String) (current : Place)
    (program directory : String) (tree : FileTree) : Except Fault Outcome × FileTree :=
  match tree.entryAt current true directory with
  | .error fault => (.error fault, tree)
  | .ok (place, .directory) =>
    let words := (program :: arguments).map Bytes.ofText
    match Program.carrier tree place Program.maxPrograms (Bytes.ofText program) words with
    | .error fault => (.error fault, tree)
    | .ok (utility, words) =>
      let environment := environment.filter (·.1 != "PWD") ++ [("PWD", FileTree.textOf place)]
      let m := Machine.started tree place program environment
      let (jump, m) := (run maxDepth (.utility utility words)).run m
      (.ok ⟨ending jump m, m.buffers.getD 0 ByteArray.empty, m.buffers.getD 1 ByteArray.empty⟩,
        m.tree)
  | .ok _ => (.error .notDirectory, tree)

/-- What compilers are asked to do. -/
def compilerArguments : List String :=
  ["build"]

/-- A machine on which programs are scripts and utilities. -/
def host (current : Place) (search : List String) (environment : List (String × String)) : Host where
  current
  search
  execute program directory _ tree :=
    launch (assign "PATH" (":".intercalate search) environment) compilerArguments current program
      directory tree

end EmbeddedSolidity.Shell
