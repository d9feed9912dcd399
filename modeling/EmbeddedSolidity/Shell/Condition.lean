import EmbeddedSolidity.FileSystem.Search
import EmbeddedSolidity.Shell.Arithmetic
import EmbeddedSolidity.Shell.Bytes

/-!
# Conditions

What `test` decides about texts, numbers and files. Which words are signs depends on how many
words there are, and on whether a sign between two operands follows.

* `Condition.holds` : whether a condition holds, if it is one.
-/

namespace EmbeddedSolidity.Shell.Condition

open FileSystem (FileTree Place)

/-- What a word is for the words around it. -/
inductive Kind where
  | unary
  | binary
  | not
  | both
  | either
  | opening
  | closing
deriving DecidableEq

/-- The kind of a sign. -/
def kind? (word : String) : Option Kind :=
  if ["-r", "-w", "-x", "-e", "-f", "-d", "-c", "-b", "-p", "-u", "-g", "-k", "-s", "-t", "-z",
      "-n", "-h", "-O", "-G", "-L", "-S"].contains word then some .unary
  else if ["=", "!=", "<", ">", "-eq", "-ne", "-ge", "-gt", "-le", "-lt", "-nt", "-ot",
      "-ef"].contains word then some .binary
  else if word == "!" then some .not
  else if word == "-a" then some .both
  else if word == "-o" then some .either
  else if word == "(" then some .opening
  else if word == ")" then some .closing
  else none

/-- The kind of the first word, unless it is an operand or missing. -/
def kindAt : List String → Option Kind
  | [] => none
  | word :: rest =>
    match kind? word, rest with
    | some .unary, [] => none
    | some .unary, next :: _ :: _ => if kind? next == some .binary then none else some .unary
    | some .opening, [] => none
    | kind, _ => kind

/-- The complaint that a text is no number. -/
def illegal (text : String) : String :=
  "Illegal number: " ++ text

/-- The decimal number that a text is. -/
def number (text : String) : Except String Int :=
  match Arithmetic.whole? Arithmetic.decimal? text with
  | some x => .ok x
  | none => .error (illegal text)

/-- Compare two numbers. -/
def compareNumbers (f : Int → Int → Bool) (a b : String) : Except String Bool := do
  let x ← number a
  let y ← number b
  return f x y

/-- Compare two texts by a sign. -/
def between (t : FileTree) (current : Place) (a sign b : String) : Except String Bool :=
  match sign with
  | "=" => .ok (a == b)
  | "!=" => .ok (a != b)
  | "<" => .ok (decide (a < b))
  | ">" => .ok (decide (b < a))
  | "-eq" => compareNumbers (· == ·) a b
  | "-ne" => compareNumbers (· != ·) a b
  | "-ge" => compareNumbers (fun x y => decide (y ≤ x)) a b
  | "-gt" => compareNumbers (fun x y => decide (y < x)) a b
  | "-le" => compareNumbers (fun x y => decide (x ≤ y)) a b
  | "-lt" => compareNumbers (fun x y => decide (x < y)) a b
  | "-ef" =>
    match t.entryAt current true (Bytes.toText a), t.entryAt current true (Bytes.toText b) with
    | .ok (p, _), .ok (q, _) => .ok (p == q)
    | _, _ => .ok false
  | _ => .ok false

/-- What a letter decides about a text. -/
def about (t : FileTree) (current : Place) (sign text : String) : Except String Bool :=
  let found := t.entryAt current true (Bytes.toText text)
  match sign with
  | "-n" => .ok (!text.isEmpty)
  | "-z" => .ok text.isEmpty
  | "-e" | "-r" | "-w" | "-O" | "-G" => .ok found.isOk
  | "-f" => .ok (match found with | .ok (_, .file _ _) => true | _ => false)
  | "-d" => .ok (match found with | .ok (_, .directory) => true | _ => false)
  | "-x" => .ok (match found with
    | .ok (_, .directory) => true
    | .ok (_, .file _ executable) => executable
    | _ => false)
  | "-s" => .ok (match found with
    | .ok (_, .directory) => true
    | .ok (_, .file content _) => content.size != 0
    | _ => false)
  | "-L" | "-h" => .ok (match t.entryAt current false (Bytes.toText text) with
    | .ok (_, .link _) => true
    | _ => false)
  | "-t" => (number text).map fun _ => false
  | _ => .ok false

/-- How tightly the parts of a condition are bound. -/
inductive Level where
  | either
  | both
  | not
  | one
deriving DecidableEq

/-- Decide the condition that begins at the first word, which is an operand if `operand` is set.
Gives the words from its last one on. The number bounds the recursion. -/
def decideAt (t : FileTree) (current : Place) :
    Nat → Level → Bool → List String → Except String (Bool × List String)
  | 0, _, _, words => .ok (false, words)
  | n + 1, .either, operand, words => do
    let (first, words) ← decideAt t current n .both operand words
    if kindAt (words.drop 1) == some .either then
      let (second, words) ← decideAt t current n .either false (words.drop 2)
      return (first || second, words)
    return (first, words)
  | n + 1, .both, operand, words => do
    let (first, words) ← decideAt t current n .not operand words
    if kindAt (words.drop 1) == some .both then
      let (second, words) ← decideAt t current n .both false (words.drop 2)
      return (first && second, words)
    return (first, words)
  | n + 1, .not, operand, words => do
    if !operand && kindAt words == some .not then
      let rest := if (words.drop 1).isEmpty then words else words.drop 1
      if (words.drop 1).isEmpty then return (true, rest)
      let (value, words) ← decideAt t current n .not false rest
      return (!value, words)
    decideAt t current n .one operand words
  | n + 1, .one, operand, words =>
    match words with
    | [] => .ok (false, [])
    | first :: rest =>
      match (if operand then none else kindAt words) with
      | some .opening =>
        if kindAt rest == some .closing then .ok (false, rest)
        else do
          let (value, words) ← decideAt t current n .either false rest
          if kindAt (words.drop 1) != some .closing then .error "closing paren expected"
          else return (value, words.drop 1)
      | some .unary =>
        match rest with
        | [] => .error (first ++ ": argument expected")
        | text :: _ => (about t current first text).map fun value => (value, rest)
      | _ =>
        match kindAt rest, rest with
        | some .binary, sign :: b :: more =>
          (between t current first sign b).map fun value => (value, b :: more)
        | some .binary, [sign] => .error (sign ++ ": argument expected")
        | _, _ => .ok (!first.isEmpty, words)

/-- Decide a whole condition, in which the first word is an operand if `operand` is set. -/
def decideAll (t : FileTree) (current : Place) (operand : Bool) (words : List String) :
    Except String Bool := do
  let (value, rest) ← decideAt t current (8 * words.length + 8) .either operand words
  match rest with
  | word :: _ :: _ =>
    .error (if word.isEmpty then "unexpected operator" else word ++ ": unexpected operator")
  | _ => return value

/-- Whether a condition holds. Nothing at all does not. -/
def holds (t : FileTree) (current : Place) : List String → Except String Bool
  | [] => .ok false
  | [a, sign, b] =>
    if kind? sign == some .binary then decideAll t current true [a, sign, b]
    else shorter t current [a, sign, b]
  | [a, b, c, d] => shorter t current [a, b, c, d]
  | words => decideAll t current false words
where
  /-- A condition of three or four words, perhaps in parentheses or behind a negation. -/
  shorter (t : FileTree) (current : Place) (words : List String) : Except String Bool :=
    match words with
    | "(" :: rest =>
      if rest.getLast? == some ")" then decideAll t current false rest.dropLast
      else decideAll t current false words
    | ["!", a, sign, b] =>
      (if kind? sign == some .binary then decideAll t current true [a, sign, b]
        else
          match a, b with
          | "(", ")" => decideAll t current false [sign]
          | "!", _ => (decideAll t current false [sign, b]).map (!·)
          | _, _ => decideAll t current false [a, sign, b]).map (!·)
    | ["!", a, b] => (decideAll t current false [a, b]).map (!·)
    | _ => decideAll t current false words

end EmbeddedSolidity.Shell.Condition
