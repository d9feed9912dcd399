import EmbeddedSolidity.Json.Cursor

/-!
# Reading JSON

Two ways to read a text. `Value.read` reads a whole document into a value; of members with one
key the last one stands. A shape can also be read straight from the text, where a wrong shape
is reported where it is met, before the rest of the text is looked at, a key may not be
repeated, and what no key of the shape names is passed over (`skipValue`) without being kept.

* `Value.read` : a document as a value;
* `readFields`, `readElements`, `readText`, `readUnsigned`, `readOptional` : parts of a shape.
-/

namespace EmbeddedSolidity.Json

open Reader

/-- How deep containers may nest, the outermost one included, plus one. -/
def depthLimit : Nat :=
  128

/-! ## Punctuation -/

/-- Another item of a list follows; `first` before the first one. -/
def hasItem (first : Bool) : Reader Bool := do
  match ← peekToken with
  | none => failNext .endInList
  | some ']' => return false
  | some c =>
    if first then return true
    else if c == ',' then
      advance
      match ← peekToken with
      | some ']' => failNext .trailingComma
      | some _ => return true
      | none => failNext .endInValue
    else failNext .expectedListCommaOrEnd

/-- Another member of an object follows, whose quote is next; `first` before the first one. -/
def hasMember (first : Bool) : Reader Bool := do
  match ← peekToken with
  | none => failNext .endInObject
  | some '\x7d' => return false
  | some c =>
    if first then
      if c == '"' then return true else failNext .keyMustBeString
    else if c == ',' then
      advance
      match ← peekToken with
      | some '"' => return true
      | some '\x7d' => failNext .trailingComma
      | some _ => failNext .keyMustBeString
      | none => failNext .endInValue
    else failNext .expectedObjectCommaOrEnd

/-- The end of a list. -/
def endList : Reader Unit := do
  match ← peekToken with
  | some ']' => advance
  | some ',' =>
    advance
    match ← peekToken with
    | some ']' => failNext .trailingComma
    | _ => failNext .trailingCharacters
  | some _ => failNext .trailingCharacters
  | none => failNext .endInList

/-- The end of an object. -/
def endObject : Reader Unit := do
  match ← peekToken with
  | some '\x7d' => advance
  | some ',' => failNext .trailingComma
  | some _ => failNext .trailingCharacters
  | none => failNext .endInObject

/-- The colon behind a key. -/
def readColon : Reader Unit := do
  match ← peekToken with
  | some ':' => advance
  | some _ => failNext .expectedColon
  | none => failNext .endInObject

/-- The key of a member, at its quote. -/
def readKey : Reader String := do
  advance
  readStringBody

/-- The content of a container and its end. An error of the content comes first; one without a
place is placed where the attempt to read the end stopped. -/
def within (body : Reader α) (close : Reader Unit) : Reader α := do
  let result ← attempt body
  let ending ← attempt close
  match result, ending with
  | .ok a, .ok () => return a
  | .error e, _ => located (.error e)
  | .ok _, .error e => throw e

/-- Go into a container, at its bracket. -/
def enter (depth : Nat) : Reader Unit := do
  if depth ≤ 1 then failNext .tooDeep else advance

/-- The items of a list; `fuel` need not exceed the characters left. -/
def readItems (item : Reader α) : Nat → Bool → List α → Reader (List α)
  | 0, _, _ => failNext .endInList
  | fuel + 1, first, before => do
    if ← hasItem first then
      let a ← item
      readItems item fuel false (a :: before)
    else return before.reverse

/-- The members of an object, folded over their keys; `step` is called behind the key. -/
def readMembers (step : σ → String → Reader σ) : Nat → Bool → σ → Reader σ
  | 0, _, _ => failNext .endInObject
  | fuel + 1, first, state => do
    if ← hasMember first then
      let key ← readKey
      let state ← step state key
      readMembers step fuel false state
    else return state

/-- More than the rounds of any loop from here. -/
def fuelHere : Reader Nat := do
  return (← get).rest.length + 1

/-! ## Values -/

/-- A word of JSON, at its first letter. -/
def readRest (letters : String) (a : α) : Reader α := do
  advance
  readWord letters.toList
  return a

/-- A value, at most `depth` containers deep. -/
def readValue : Nat → Reader Value
  | 0 => failNext .tooDeep
  | depth + 1 => do
    match ← peekToken with
    | none => failNext .endInValue
    | some 'n' => readRest "ull" .null
    | some 't' => readRest "rue" (.boolean true)
    | some 'f' => readRest "alse" (.boolean false)
    | some '-' => advance; return .number (← readNumber false)
    | some '"' => advance; return .string (← readStringBody)
    | some '[' =>
      enter (depth + 1)
      let fuel ← fuelHere
      return .array (← within (readItems (readValue depth) fuel true []) endList)
    | some '\x7b' =>
      enter (depth + 1)
      let fuel ← fuelHere
      let put members key := do
        readColon
        return putMember key (← readValue depth) members
      return .object (← within (readMembers put fuel true []) endObject)
    | some c =>
      if c.isDigit then return .number (← readNumber true) else failNext .expectedValue

/-- Only space may follow. -/
def endDocument : Reader Unit := do
  match ← peekToken with
  | some _ => failNext .trailingCharacters
  | none => return ()

/-- Read a whole text. -/
def readDocument (r : Reader α) (text : String) : Except Error α :=
  (runFrom (do let a ← r; endDocument; return a) (Cursor.start text)).1

/-- The value of a document. -/
def Value.read (text : String) : Except Error Value :=
  readDocument (readValue depthLimit) text

/-! ## Passing over values -/

/-- Pass a string, behind its opening quote. -/
def skipStringBody : Nat → Reader Unit
  | 0 => failHere .endInString
  | fuel + 1 => do
    match ← peek with
    | none => failHere .endInString
    | some '"' => advance
    | some '\\' =>
      advance
      let c ← get
      match ← next with
      | none => failHere .endInString
      | some 'u' =>
        let _ ← readHex4
        skipStringBody fuel
      | some letter =>
        if (simpleEscape? letter).isSome then skipStringBody fuel
        else throw ⟨.invalidEscape, some (c.place.afterByte letter)⟩
    | some c =>
      if c.toNat < 32 then failHere .controlCharacter
      else
        advance
        skipStringBody fuel

/-- Pass an exponent, at its letter. -/
def skipExponent : Reader Unit := do
  advance
  let sign ← peek
  if sign == some '+' || sign == some '-' then advance
  match ← peek with
  | some d => if d.isDigit then let _ ← skipDigits else failNext .invalidNumber
  | none => failHere .invalidNumber

/-- Pass what follows the digits of an integer. -/
def skipTail : Reader Unit := do
  match ← peek with
  | some '.' =>
    advance
    if (← skipDigits) == 0 then failNext .invalidNumber
    match ← peek with
    | some 'e' | some 'E' => skipExponent
    | _ => return ()
  | some 'e' | some 'E' => skipExponent
  | _ => return ()

/-- Pass a number, behind its sign. -/
def skipNumber : Reader Unit := do
  match ← peek with
  | none => failHere .invalidNumber
  | some '0' =>
    advance
    match ← peek with
    | some d => if d.isDigit then failNext .invalidNumber else skipTail
    | none => return ()
  | some d =>
    if d.isDigit then
      let _ ← skipDigits
      skipTail
    else failNext .invalidNumber

mutual

/-- Pass a value of any depth. Every round passes a character, so that `fuel` need not exceed
twice the characters left. -/
def skipValue : Nat → Reader Unit
  | 0 => failNext .endInValue
  | fuel + 1 => do
    match ← peekToken with
    | none => failNext .endInValue
    | some 'n' => readRest "ull" ()
    | some 't' => readRest "rue" ()
    | some 'f' => readRest "alse" ()
    | some '-' => advance; skipNumber
    | some '"' => advance; skipStringBody (← fuelHere)
    | some '[' =>
      advance
      match ← peekToken with
      | none => failNext .endInList
      | some ']' => advance
      | some _ => skipItems fuel
    | some '\x7b' =>
      advance
      match ← peekToken with
      | none => failNext .endInObject
      | some '\x7d' => advance
      | some _ => skipMembers fuel
    | some c => if c.isDigit then skipNumber else failNext .expectedValue

/-- Pass the items of a list and its end. -/
def skipItems : Nat → Reader Unit
  | 0 => failNext .endInList
  | fuel + 1 => do
    skipValue fuel
    match ← peekToken with
    | none => failNext .endInList
    | some ',' => advance; skipItems fuel
    | some ']' => advance
    | some _ => failNext .expectedListCommaOrEnd

/-- Pass the members of an object and its end. -/
def skipMembers : Nat → Reader Unit
  | 0 => failNext .endInObject
  | fuel + 1 => do
    match ← peekToken with
    | none => failNext .endInObject
    | some '"' => advance; skipStringBody (← fuelHere)
    | some _ => failNext .keyMustBeString
    readColon
    skipValue fuel
    match ← peekToken with
    | none => failNext .endInObject
    | some ',' => advance; skipMembers fuel
    | some '\x7d' => advance
    | some _ => failNext .expectedObjectCommaOrEnd

end

/-- Pass a value. -/
def skipAny : Reader Unit := do
  skipValue (2 * (← fuelHere))

/-! ## Shapes -/

/-- Report what is next as something else than `expected`. A scalar is read first, and its own
errors come before; a container is reported at its bracket. -/
def refuse (expected : String) : Reader α := do
  let report (found : Unexpected) : Reader α := failHere (.invalidType found expected)
  match ← peek with
  | some 'n' => readRest "ull" (); report .null
  | some 't' => readRest "rue" (); report (.boolean true)
  | some 'f' => readRest "alse" (); report (.boolean false)
  | some '-' => advance; report (.number (← readNumber false))
  | some '"' => advance; report (.string (← readStringBody))
  | some '[' => report .sequence
  | some '\x7b' => report .map
  | some c =>
    if c.isDigit then report (.number (← readNumber true)) else failNext .expectedValue
  | none => failNext .expectedValue

/-- A string. -/
def readText (expected : String) : Reader String := do
  match ← peekToken with
  | none => failNext .endInValue
  | some '"' => advance; readStringBody
  | some _ => refuse expected

/-- An integer from zero to `2 ^ 64 - 1`. -/
def readUnsigned (expected : String) : Reader Nat := do
  let check (n : Number) : Reader Nat :=
    match n with
    | .integer (.ofNat n) => return n
    | .integer i => failHere (.invalidValue (.number (.integer i)) expected)
    | .real x => failHere (.invalidType (.number (.real x)) expected)
  match ← peekToken with
  | none => failNext .endInValue
  | some '-' => advance; check (← readNumber false)
  | some c => if c.isDigit then check (← readNumber true) else refuse expected

/-- Nothing for `null`, else what `r` reads. -/
def readOptional (r : Reader α) : Reader (Option α) := do
  match ← peekToken with
  | some 'n' => readRest "ull" none
  | _ => return some (← r)

/-- The items of a list. -/
def readElements (depth : Nat) (expected : String) (item : Reader α) : Reader (List α) := do
  match ← peekToken with
  | none => failNext .endInValue
  | some '[' =>
    enter depth
    let fuel ← fuelHere
    within (readItems item fuel true []) endList
  | some _ => refuse expected

/-- The next of the items that a list must have; `index` of them were read. -/
def readElement (index : Nat) (expected : String) (item : Reader α) : Reader α := do
  if ← hasItem (index == 0) then item else failBare (.invalidLength index expected)

/-- A record, written as an object or as the list of its fields. -/
def readRecord (depth : Nat) (expected : String) (ofMembers ofItems : Reader α) : Reader α := do
  match ← peekToken with
  | none => failNext .endInValue
  | some '[' => enter depth; within ofItems endList
  | some '\x7b' => enter depth; within ofMembers endObject
  | some _ => refuse expected

/-- The members of an object, folded over their keys. -/
def readFields (step : σ → String → Reader σ) (state : σ) : Reader σ := do
  let fuel ← fuelHere
  readMembers step fuel true state

/-- The value of a field that must not have been read before. -/
def readField (name : String) (before : Option α) (r : Reader α) : Reader (Option α) := do
  if before.isSome then failBare (.duplicateField name)
  readColon
  return some (← r)

/-- A field that must have been read. -/
def required (name : String) (field : Option α) : Reader α :=
  match field with
  | some a => return a
  | none => failBare (.missingField name)

end EmbeddedSolidity.Json
