import EmbeddedSolidity.Json.Error

/-!
# Reading characters

A cursor stands between the characters of a text and knows its place. A reader moves the cursor
and gives a result or an error; the cursor stays where the error arose.

* `Reader` : readers, with errors at the cursor (`failHere`) or just behind the next byte
  (`failNext`);
* `readStringBody`, `readWord`, `readNumber` : the tokens of JSON.
-/

namespace EmbeddedSolidity.Json

/-- The characters that are left, and the place reached. -/
structure Cursor where
  rest : List Char
  place : Place
deriving Repr

/-- The start of a text. -/
def Cursor.start (s : String) : Cursor :=
  ⟨s.toList, ⟨1, 0⟩⟩

/-- The place behind a character. -/
def Place.after (p : Place) (c : Char) : Place :=
  if c == '\n' then ⟨p.line + 1, 0⟩ else ⟨p.line, p.column + c.utf8Size⟩

/-- The place behind the first byte of a character. -/
def Place.afterByte (p : Place) (c : Char) : Place :=
  if c == '\n' then ⟨p.line + 1, 0⟩ else ⟨p.line, p.column + 1⟩

/-- The place `n` bytes into the characters. -/
def Place.afterBytes (p : Place) : Nat → List Char → Place
  | 0, _ => p
  | _, [] => p
  | n + 1, c :: rest =>
    if c.utf8Size ≤ n + 1 then (p.after c).afterBytes (n + 1 - c.utf8Size) rest
    else ⟨p.line, p.column + (n + 1)⟩

/-- The place behind the next byte, or the place itself at the end. -/
def Cursor.nextPlace (c : Cursor) : Place :=
  match c.rest with
  | [] => c.place
  | ch :: _ => c.place.afterByte ch

/-- A computation over a cursor that can fail. -/
abbrev Reader :=
  ExceptT Error (StateM Cursor)

namespace Reader

/-- Run a reader from a cursor. -/
def runFrom (r : Reader α) (c : Cursor) : Except Error α × Cursor :=
  r.run c

/-- Fail at the cursor. -/
def failHere (cause : Cause) : Reader α := do
  let c ← get
  throw ⟨cause, some c.place⟩

/-- Fail behind the next byte. -/
def failNext (cause : Cause) : Reader α := do
  let c ← get
  throw ⟨cause, some c.nextPlace⟩

/-- Fail without a place; the enclosing value supplies it. -/
def failBare (cause : Cause) : Reader α :=
  throw ⟨cause, none⟩

/-- The next character, which stays. -/
def peek : Reader (Option Char) := do
  return (← get).rest.head?

/-- Pass the next character. -/
def advance : Reader Unit :=
  modify fun c =>
    match c.rest with
    | [] => c
    | ch :: rest => ⟨rest, c.place.after ch⟩

/-- Pass the next character and give it. -/
def next : Reader (Option Char) := do
  let ch ← peek
  advance
  return ch

/-- Give an error without a place the place of the cursor. -/
def located (result : Except Error α) : Reader α := do
  match result with
  | .ok a => return a
  | .error ⟨cause, none⟩ => failHere cause
  | .error e => throw e

/-- The result of a reader as a value. -/
def attempt (r : Reader α) : Reader (Except Error α) :=
  fun c =>
    let (result, c) := r.run c
    (.ok result, c)

end Reader

open Reader

/-- The space of JSON. -/
def isSpace (c : Char) : Bool :=
  c == ' ' || c == '\n' || c == '\t' || c == '\r'

/-- Pass the characters that satisfy `p`. -/
def Cursor.skipWhile (p : Char → Bool) : List Char → Place → Cursor
  | [], place => ⟨[], place⟩
  | c :: rest, place => if p c then skipWhile p rest (place.after c) else ⟨c :: rest, place⟩

/-- Pass space, then show the next character. -/
def peekToken : Reader (Option Char) := do
  modify fun c => Cursor.skipWhile isSpace c.rest c.place
  peek

/-- The characters of a word must follow. -/
def readWord : List Char → Reader Unit
  | [] => return ()
  | expected :: word => do
    let c ← get
    match ← next with
    | none => failHere .endInValue
    | some found =>
      if found == expected then readWord word
      else throw ⟨.expectedWord, some (c.place.afterByte found)⟩

/-! ## Strings -/

/-- The value of a hexadecimal digit. -/
def hexValue? (c : Char) : Option Nat :=
  if '0' ≤ c && c ≤ '9' then some (c.toNat - 48)
  else if 'a' ≤ c && c ≤ 'f' then some (c.toNat - 87)
  else if 'A' ≤ c && c ≤ 'F' then some (c.toNat - 55)
  else none

/-- The bytes of characters. -/
def byteLength (cs : List Char) : Nat :=
  (cs.map Char.utf8Size).foldl (· + ·) 0

/-- Four hexadecimal digits. -/
def readHex4 : Reader Nat := do
  let c ← get
  match c.rest with
  | w :: x :: y :: z :: rest =>
    match hexValue? w, hexValue? x, hexValue? y, hexValue? z with
    | some w, some x, some y, some z =>
      set (⟨rest, ⟨c.place.line, c.place.column + 4⟩⟩ : Cursor)
      return ((w * 16 + x) * 16 + y) * 16 + z
    | _, _, _, _ => throw ⟨.invalidEscape, some (c.place.afterBytes 4 c.rest)⟩
  | short =>
    if 4 ≤ byteLength short then throw ⟨.invalidEscape, some (c.place.afterBytes 4 short)⟩
    else throw ⟨.endInString, some (c.place.afterBytes (byteLength short) short)⟩

/-- The character of an escape by one letter. -/
def simpleEscape? (c : Char) : Option Char :=
  match c with
  | '"' => some '"'
  | '\\' => some '\\'
  | '/' => some '/'
  | 'b' => some '\x08'
  | 'f' => some '\x0c'
  | 'n' => some '\n'
  | 'r' => some '\r'
  | 't' => some '\t'
  | _ => none

/-- One of two characters that pair a surrogate with the next one must follow. -/
def expectPair (expected : Char) : Reader Unit := do
  match ← peek with
  | none => failHere .endInString
  | some found => if found == expected then advance else failNext .endOfHexEscape

/-- The character of an escape `\u`, behind its letter. -/
def readUnicodeEscape : Reader Char := do
  let n ← readHex4
  if 0xDC00 ≤ n && n ≤ 0xDFFF then failHere .loneSurrogate
  else if n < 0xD800 || n > 0xDBFF then return Char.ofNat n
  else
    expectPair '\\'
    expectPair 'u'
    let low ← readHex4
    if low < 0xDC00 || low > 0xDFFF then failHere .loneSurrogate
    else return Char.ofNat ((n - 0xD800) * 1024 + (low - 0xDC00) + 0x10000)

/-- The character of an escape, behind the backslash. -/
def readEscape : Reader Char := do
  let c ← get
  match ← next with
  | none => failHere .endInString
  | some 'u' => readUnicodeEscape
  | some letter =>
    match simpleEscape? letter with
    | some ch => return ch
    | none => throw ⟨.invalidEscape, some (c.place.afterByte letter)⟩

/-- The characters of a string up to its closing quote, behind `before`, last first. Each round
passes a character, so that `fuel` need not exceed the characters left. -/
def readStringChars : Nat → List Char → Reader (List Char)
  | 0, _ => failHere .endInString
  | fuel + 1, before => do
    match ← peek with
    | none => failHere .endInString
    | some '"' => advance; return before.reverse
    | some '\\' => advance; let c ← readEscape; readStringChars fuel (c :: before)
    | some c =>
      if c.toNat < 32 then failNext .controlCharacter
      else advance; readStringChars fuel (c :: before)

/-- A string, behind its opening quote. -/
def readStringBody : Reader String := do
  let fuel := (← get).rest.length + 1
  return String.ofList (← readStringChars fuel [])

/-! ## Numbers -/

/-- The largest integer of a document. -/
def maxInteger : Nat :=
  1 <<< 64 - 1

/-- Pass the digits, and tell how many they were. -/
def skipDigits : Reader Nat := do
  let c ← get
  let digits := c.rest.takeWhile Char.isDigit
  set (⟨c.rest.drop digits.length, ⟨c.place.line, c.place.column + digits.length⟩⟩ : Cursor)
  return digits.length

/-- Pass digits while the number they continue fits; gives the number, how many digits were
passed, and whether a further digit would make it too large. -/
def accumulate (limit : Nat) : List Char → Nat → Nat → Nat × Nat × Bool
  | [], n, count => (n, count, false)
  | c :: rest, n, count =>
    if c.isDigit then
      let n' := n * 10 + (c.toNat - 48)
      if n' > limit then (n, count, true) else accumulate limit rest n' (count + 1)
    else (n, count, false)

/-- Run `accumulate` at the cursor. -/
def readDigits (limit n : Nat) : Reader (Nat × Nat × Bool) := do
  let c ← get
  let (n, count, exceeds) := accumulate limit c.rest n 0
  set (⟨c.rest.drop count, ⟨c.place.line, c.place.column + count⟩⟩ : Cursor)
  return (n, count, exceeds)

/-- Divide by `10 ^ 308` while the exponent is out of the table; gives the quotient and the
exponent that is left, `none` if the number is too large. -/
def scaleDown : Nat → Binary64 → Int → Option (Binary64 × Int)
  | 0, x, e => some (x, e)
  | fuel + 1, x, e =>
    if e.natAbs ≤ 308 then some (x, e)
    else if x.significand == 0 then some (x, 0)
    else if e > 0 then none
    else (x.div? (Binary64.powerOfTen 308)).bind fun x => scaleDown fuel x (e + 308)

/-- `significand · 10 ^ exponent`, by one rounded product or quotient with a power of ten. -/
def realOfParts? (positive : Bool) (significand : Nat) (exponent : Int) : Option Binary64 := do
  let x ← Binary64.ofRatio? false significand 1
  let (x, e) ← scaleDown 8 x exponent
  let x ← if x.significand == 0 then some x
    else if 0 ≤ e then x.mul? (Binary64.powerOfTen e.natAbs)
    else x.div? (Binary64.powerOfTen e.natAbs)
  return { x with negative := !positive }

/-- The number of a significand and an exponent, unless it is too large. -/
def readParts (positive : Bool) (significand : Nat) (exponent : Int) : Reader Number := do
  match realOfParts? positive significand exponent with
  | some x => return .real x
  | none => failHere .numberOutOfRange

/-- The exponent of a number, at its letter. -/
def readExponent (positive : Bool) (significand : Nat) (start : Int) : Reader Number := do
  advance
  let sign ← peek
  if sign == some '+' || sign == some '-' then advance
  let c ← get
  match ← next with
  | none => failHere .endInValue
  | some d =>
    if !d.isDigit then throw ⟨.invalidNumber, some (c.place.afterByte d)⟩
    let (e, _, exceeds) ← readDigits (1 <<< 31 - 1) (d.toNat - 48)
    if exceeds then
      advance
      if significand != 0 && sign != some '-' then failHere .numberOutOfRange
      else
        let _ ← skipDigits
        return .real (Binary64.zero !positive)
    else
      let e : Int := if sign == some '-' then start - e else start + e
      readParts positive significand e

/-- What follows the last digit of a number: its exponent, if it has one. -/
def readBehindDigits (positive : Bool) (significand : Nat) (exponent : Int) : Reader Number := do
  match ← peek with
  | some 'e' | some 'E' => readExponent positive significand exponent
  | _ => readParts positive significand exponent

/-- The fraction of a number, at its point. -/
def readFraction (positive : Bool) (significand : Nat) (start : Int) : Reader Number := do
  advance
  let (significand, count, exceeds) ← readDigits maxInteger significand
  if exceeds then let _ ← skipDigits
  else if count == 0 then
    match ← peek with
    | some _ => failNext .invalidNumber
    | none => failNext .endInValue
  readBehindDigits positive significand (start - count)

/-- A number behind its integer digits, which `dropped` digits of the integer follow that did
not fit. -/
def readTail (positive : Bool) (significand : Nat) (dropped : Option Nat) : Reader Number := do
  match ← peek, dropped with
  | some '.', _ => readFraction positive significand (dropped.getD 0)
  | some 'e', _ | some 'E', _ => readExponent positive significand (dropped.getD 0)
  | _, some count => readParts positive significand count
  | _, none =>
    if positive then return .integer significand
    else if significand == 0 || significand > 1 <<< 63 then readParts false significand 0
    else return .integer (-significand)

/-- A number, behind its sign. -/
def readNumber (positive : Bool) : Reader Number := do
  let c ← get
  match ← next with
  | none => failHere .endInValue
  | some '0' =>
    match ← peek with
    | some d => if d.isDigit then failNext .invalidNumber else readTail positive 0 none
    | none => readTail positive 0 none
  | some d =>
    if !d.isDigit then throw ⟨.invalidNumber, some (c.place.afterByte d)⟩
    let (n, _, exceeds) ← readDigits maxInteger (d.toNat - 48)
    if exceeds then
      let count ← skipDigits
      readTail positive n (some count)
    else readTail positive n none

end EmbeddedSolidity.Json
