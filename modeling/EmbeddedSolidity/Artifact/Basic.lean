import EmbeddedSolidity.Error
import EmbeddedSolidity.Json.Printer
import EmbeddedSolidity.Json.Reader

/-!
# Artifacts

What the compiler makes of a snippet: the entries of its interface, kept as they are, and its
bytecode. There are two readers of the JSON text of an artifact.

* `Artifact.parse` : text to value to artifact, for the files of the compiler;
* `Artifact.readDirect` : text straight to artifact, for texts kept in a program;
* `Artifact.value` : the artifact as JSON, with these keys and no others.
-/

namespace EmbeddedSolidity

open Json

/-- Compiled code. -/
structure Bytecode where
  object : String
  sourceMap : String
deriving DecidableEq, Repr

/-- What the compiler makes of a snippet. -/
structure Artifact where
  abi : List Value
  bytecode : Bytecode
deriving Repr

namespace Bytecode

/-- The bytecode as JSON. -/
def value (b : Bytecode) : Value :=
  .object [("object", .string b.object), ("sourceMap", .string b.sourceMap)]

end Bytecode

namespace Artifact

/-- The artifact as JSON. -/
def value (a : Artifact) : Value :=
  .object [("abi", .array a.abi), ("bytecode", a.bytecode.value)]

/-! ## From a value -/

/-- A value of another shape than the one expected. -/
def wrongShape (v : Value) (expected : String) : Except Json.Error α :=
  .error ⟨.invalidType v.asUnexpected expected, none⟩

/-- An error of a shape. -/
def shapeError (cause : Cause) : Except Json.Error α :=
  .error ⟨cause, none⟩

/-- The text of a value. -/
def textOfValue : Value → Except Json.Error String
  | .string s => .ok s
  | v => wrongShape v "a string"

/-- The items of a value. -/
def itemsOfValue : Value → Except Json.Error (List Value)
  | .array items => .ok items
  | v => wrongShape v "a sequence"

/-- The fields of a record with two fields, from its members in the order of their keys. Fields
are converted in that order; then the first missing one is reported. -/
def pairOfMembers {α β : Type} (first second : String) (f : Value → Except Json.Error α)
    (g : Value → Except Json.Error β) (members : List (String × Value)) :
    Except Json.Error (α × β) := do
  let a ← (member? first members).mapM f
  let b ← (member? second members).mapM g
  match a, b with
  | some a, some b => .ok (a, b)
  | none, _ => shapeError (.missingField first)
  | some _, none => shapeError (.missingField second)

/-- The fields of a record with two fields, from a list of their values. -/
def pairOfItems {α β : Type} (shape : String) (f : Value → Except Json.Error α)
    (g : Value → Except Json.Error β) : List Value → Except Json.Error (α × β)
  | [] => shapeError (.invalidLength 0 shape)
  | [x] => do
    let _ ← f x
    shapeError (.invalidLength 1 shape)
  | x :: y :: rest => do
    let a ← f x
    let b ← g y
    if rest.isEmpty then .ok (a, b)
    else shapeError (.invalidLength (rest.length + 2) "fewer elements in array")

/-- The bytecode that a value is. -/
def bytecodeOfValue (v : Value) : Except Json.Error Bytecode := do
  let (object, sourceMap) ←
    match v with
    | .object members => pairOfMembers "object" "sourceMap" textOfValue textOfValue members
    | .array items => pairOfItems "struct Bytecode with 2 elements" textOfValue textOfValue items
    | v => wrongShape v "struct Bytecode"
  return ⟨object, sourceMap⟩

/-- The artifact that a value is. -/
def ofValue (v : Value) : Except Json.Error Artifact := do
  let (abi, bytecode) ←
    match v with
    | .object members => pairOfMembers "abi" "bytecode" itemsOfValue bytecodeOfValue members
    | .array items => pairOfItems "struct Artifact with 2 elements" itemsOfValue bytecodeOfValue items
    | v => wrongShape v "struct Artifact"
  return ⟨abi, bytecode⟩

/-- The artifact of a text that was found at `path` for a snippet. -/
def parse (id : Snippet.Id) (path text : String) : Except Error Artifact :=
  match Value.read text with
  | .error e => .error (.artifact id path ("invalid JSON: " ++ e.message))
  | .ok v =>
    match ofValue v with
    | .error e => .error (.artifact id path ("unexpected artifact shape: " ++ e.message))
    | .ok a => .ok a

/-! ## Straight from text -/

/-- The two fields of a record read so far, of the text at the cursor. -/
def stepPair (first second : String) (f : Reader α) (g : Reader β) (state : Option α × Option β)
    (key : String) : Reader (Option α × Option β) := do
  if key == first then return (← readField first state.1 f, state.2)
  else if key == second then return (state.1, ← readField second state.2 g)
  else
    readColon
    skipAny
    return state

/-- A record with two fields. -/
def readPair (depth : Nat) (name first second : String) (f : Reader α) (g : Reader β) :
    Reader (α × β) :=
  readRecord depth name
    (do
      let (a, b) ← readFields (stepPair first second f g) (none, none)
      return (← required first a, ← required second b))
    (do
      let shape := name ++ " with 2 elements"
      let a ← readElement 0 shape f
      let b ← readElement 1 shape g
      return (a, b))

/-- The bytecode at the cursor. -/
def bytecodeReader (depth : Nat) : Reader Bytecode := do
  let (object, sourceMap) ← readPair depth "struct Bytecode" "object" "sourceMap"
    (readText "a string") (readText "a string")
  return ⟨object, sourceMap⟩

/-- The artifact at the cursor. -/
def reader (depth : Nat) : Reader Artifact := do
  let (abi, bytecode) ← readPair depth "struct Artifact" "abi" "bytecode"
    (readElements (depth - 1) "a sequence" (readValue (depth - 2))) (bytecodeReader (depth - 1))
  return ⟨abi, bytecode⟩

/-- The artifact of a text. -/
def readDirect (text : String) : Except Json.Error Artifact :=
  readDocument (reader depthLimit) text

end Artifact

end EmbeddedSolidity
