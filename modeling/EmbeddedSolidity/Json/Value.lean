import EmbeddedSolidity.Json.Shortest

/-!
# JSON values

A document is a value. The members of an object are kept in the order of their keys, each key
once; a member that is put again replaces the one before.

* `Members.put` : the only way in which objects are built from text.
-/

namespace EmbeddedSolidity.Json

/-- An integer between `-2 ^ 63` and `2 ^ 64 - 1`, or a binary floating point number. -/
inductive Number where
  | integer (i : Int)
  | real (x : Binary64)
deriving DecidableEq, Repr

/-- The text of a number. -/
def Number.text : Number → String
  | .integer i => toString i
  | .real x => x.text

/-- A JSON value. -/
inductive Value where
  | null
  | boolean (b : Bool)
  | number (n : Number)
  | string (s : String)
  | array (items : List Value)
  | object (members : List (String × Value))
deriving Repr, Inhabited

/-- Put a member among members that are ordered by key, in the place of one with its key. -/
def putMember (key : String) (value : α) : List (String × α) → List (String × α)
  | [] => [(key, value)]
  | (k, v) :: rest =>
    if key == k then (key, value) :: rest
    else if key < k then (key, value) :: (k, v) :: rest
    else (k, v) :: putMember key value rest

/-- The value under a key. -/
def member? (key : String) (members : List (String × α)) : Option α :=
  (members.find? (·.1 == key)).map (·.2)

/-- The value under a key, of an object. -/
def Value.get? (key : String) : Value → Option Value
  | .object members => member? key members
  | _ => none

end EmbeddedSolidity.Json
