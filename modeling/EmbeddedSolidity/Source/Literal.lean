import EmbeddedSolidity.Source.Token
import EmbeddedSolidity.Text.Identifier

/-!
# Literals

The literals of the host language at the front of a text: strings, byte strings and the
NUL-terminated strings of foreign functions, each written cooked (with escapes) or raw (between hashes), single characters and bytes, and
numbers. Any literal may end in a suffix, which is a word.

* `cooked`, `raw` : the value of a string from behind its opening quote on;
* `literal?` : the literal at the front of a text and what follows it.
-/

namespace EmbeddedSolidity.Source

open EmbeddedSolidity.Text (isIdentifierStart isIdentifierContinue)

/-- The three kinds of string literals, which differ in the characters and escapes they allow:
bytes are ASCII characters, and the strings of foreign functions have no NUL. -/
inductive StringKind where
  | text
  | bytes
  | foreign
deriving DecidableEq, Repr

namespace StringKind

/-- The character may stand for itself. -/
def allows (kind : StringKind) (c : Char) : Bool :=
  match kind with
  | text => true
  | bytes => c.toNat < 128
  | foreign => c != '\x00'

end StringKind

/-! ## Escapes -/

/-- The value of a hexadecimal digit. -/
def hexValue? (c : Char) : Option Nat :=
  if '0' ≤ c ∧ c ≤ '9' then some (c.toNat - 48)
  else if 'a' ≤ c ∧ c ≤ 'f' then some (c.toNat - 87)
  else if 'A' ≤ c ∧ c ≤ 'F' then some (c.toNat - 55)
  else none

/-- The character of a code point; surrogates and numbers beyond the last plane have none. -/
def charOf? (n : Nat) : Option Char :=
  if n.isValidChar then some (Char.ofNat n) else none

/-- The character between braces and the number of characters up to the closing brace; `count`
digits with the value `value` have been read. A low line may separate digits. -/
def codePoint? (count value : Nat) : List Char → Option (Char × Nat)
  | [] => none
  | c :: rest =>
    if c = '\x7d' ∧ 0 < count then (charOf? value).map (·, 1)
    else if c = '_' ∧ 0 < count then
      (codePoint? count value rest).map fun (found, taken) => (found, taken + 1)
    else
      match hexValue? c with
      | some digit =>
        if count = 6 then none
        else (codePoint? (count + 1) (value * 16 + digit) rest).map fun (found, taken) =>
          (found, taken + 1)
      | none => none

/-- The number of blanks that a line continuation skips. A carriage return counts only before
a line feed, and the text must not end in the blanks. -/
def continuation? : List Char → Option Nat
  | [] => none
  | '\r' :: '\n' :: rest => (continuation? rest).map (· + 2)
  | '\r' :: _ => none
  | c :: rest =>
    if c = ' ' ∨ c = '\t' ∨ c = '\n' then (continuation? rest).map (· + 1) else some 0

/-- The character of an escape of one letter. -/
def shortEscape? : Char → Option Char
  | 'n' => some '\n'
  | 'r' => some '\r'
  | 't' => some '\t'
  | '\\' => some '\\'
  | '0' => some '\x00'
  | '\'' => some '\''
  | '"' => some '"'
  | _ => none

/-- The character of two hexadecimal digits. In texts it is an ASCII character. -/
def twoDigits? (kind : StringKind) (high low : Char) : Option Char := do
  let value := (← hexValue? high) * 16 + (← hexValue? low)
  if kind = .text ∧ 128 ≤ value then none else charOf? value

/-- The character of an escape behind its backslash, and how many characters it is written
with. -/
def charEscape? (kind : StringKind) : List Char → Option (Char × Nat)
  | 'x' :: high :: low :: _ => (twoDigits? kind high low).map (·, 3)
  | 'u' :: '\x7b' :: rest =>
    if kind = .bytes then none
    else (codePoint? 0 0 rest).map fun (c, taken) => (c, taken + 2)
  | c :: _ => (shortEscape? c).map (·, 1)
  | [] => none

/-- An escape in a string: the characters it stands for, and how many it is written with. -/
def escape? (kind : StringKind) : List Char → Option (List Char × Nat)
  | [] => none
  | c :: rest =>
    if c = '\n' ∨ c = '\r' then (continuation? (c :: rest)).map ([], ·)
    else
      match charEscape? kind (c :: rest) with
      | some (e, taken) => if kind = .foreign ∧ e = '\x00' then none else some ([e], taken)
      | none => none

/-! ## Strings -/

/-- Put characters in front of a value that has been read. -/
def onto (cs : List Char) (found : List Char × List Char) : List Char × List Char :=
  (cs ++ found.1, found.2)

/-- The value of a cooked string from behind its opening quote on, and what follows its closing
quote; the first `skip` characters belong to an escape that has been read. A line end is a line
feed however it is written. -/
def cooked (kind : StringKind) : Nat → List Char → Option (List Char × List Char)
  | _, [] => none
  | skip + 1, _ :: rest => cooked kind skip rest
  | 0, c :: rest =>
    if c = '"' then some ([], rest)
    else if c = '\r' then
      match rest with
      | '\n' :: _ => (cooked kind 1 rest).map (onto ['\n'])
      | _ => none
    else if c = '\\' then
      match escape? kind rest with
      | some (cs, taken) => (cooked kind taken rest).map (onto cs)
      | none => none
    else if kind.allows c then (cooked kind 0 rest).map (onto [c])
    else none

/-- The text begins with a number of hashes. -/
def startsWithHashes : Nat → List Char → Bool
  | 0, _ => true
  | n + 1, '#' :: rest => startsWithHashes n rest
  | _ + 1, _ => false

/-- The value of a raw string from behind its opening quote on, and what follows its closing
quote and hashes. Every character stands for itself. -/
def raw (kind : StringKind) (hashes : Nat) : List Char → Option (List Char × List Char)
  | [] => none
  | '"' :: rest =>
    if startsWithHashes hashes rest then some ([], rest.drop hashes)
    else (raw kind hashes rest).map (onto ['"'])
  | '\r' :: '\n' :: rest => (raw kind hashes rest).map (onto ['\r', '\n'])
  | '\r' :: _ => none
  | c :: rest => if kind.allows c then (raw kind hashes rest).map (onto [c]) else none

/-- The most hashes that a raw string may have. -/
def maxHashes : Nat := 255

/-- A raw string from its hashes on. -/
def rawString? (kind : StringKind) (cs : List Char) : Option (List Char × List Char) :=
  let hashes := (cs.takeWhile (· == '#')).length
  match cs.drop hashes with
  | '"' :: rest => if hashes ≤ maxHashes then raw kind hashes rest else none
  | _ => none

/-- A string of any kind. -/
def string? : List Char → Option (StringKind × List Char × List Char)
  | '"' :: rest => (cooked .text 0 rest).map (.text, ·)
  | 'r' :: rest => (rawString? .text rest).map (.text, ·)
  | 'b' :: '"' :: rest => (cooked .bytes 0 rest).map (.bytes, ·)
  | 'b' :: 'r' :: rest => (rawString? .bytes rest).map (.bytes, ·)
  | 'c' :: '"' :: rest => (cooked .foreign 0 rest).map (.foreign, ·)
  | 'c' :: 'r' :: rest => (rawString? .foreign rest).map (.foreign, ·)
  | _ => none

/-! ## Single characters -/

/-- What follows the closing quote of a single character. -/
def closeQuote? : List Char → Option (List Char)
  | '\'' :: rest => some rest
  | _ => none

/-- What follows a literal of one character, from behind its opening quote on. -/
def character? (kind : StringKind) : List Char → Option (List Char)
  | [] => none
  | c :: rest =>
    if c = '\\' then
      match charEscape? kind rest with
      | some (_, taken) => closeQuote? (rest.drop taken)
      | none => none
    else if kind.allows c then closeQuote? rest
    else none

/-! ## Numbers -/

/-- Cut off the word at the front; the first part is empty if there is none. -/
def splitWord : List Char → List Char × List Char
  | [] => ([], [])
  | c :: rest =>
    if isIdentifierStart c then
      (c :: rest.takeWhile isIdentifierContinue, rest.dropWhile isIdentifierContinue)
    else ([], c :: rest)

/-- Add the suffix to a number. A number must not run into a character that could go on a
word. -/
def withSuffix? (written rest : List Char) : Option (List Char × List Char) :=
  let (suffix, rest) := splitWord rest
  match rest with
  | c :: _ => if isIdentifierContinue c then none else some (written ++ suffix, rest)
  | [] => some (written ++ suffix, rest)

/-- The digits of an integer in a base up to sixteen: how many characters they take, or nothing
if there is no digit or one too large. Letters that are no digits of the base end the number;
a low line may separate digits, and also precede the first after a base mark. -/
def digitCount? (base : Nat) (found : Bool) : List Char → Option Nat
  | [] => if found then some 0 else none
  | c :: rest =>
    if c = '_' then
      if !found && base = 10 then none else (digitCount? base found rest).map (· + 1)
    else
      match hexValue? c with
      | some digit =>
        if digit < base then (digitCount? base true rest).map (· + 1)
        else if c.isDigit then none
        else if found then some 0 else none
      | none => if found then some 0 else none

/-- The base of an integer and the length of the mark that names it. -/
def baseOf : List Char → Nat × Nat
  | '0' :: 'x' :: _ => (16, 2)
  | '0' :: 'o' :: _ => (8, 2)
  | '0' :: 'b' :: _ => (2, 2)
  | _ => (10, 0)

/-- An integer: the text it is written with, and the rest. -/
def integer? (cs : List Char) : Option (List Char × List Char) := do
  let (base, mark) := baseOf cs
  let count ← digitCount? base false (cs.drop mark)
  withSuffix? (cs.take (mark + count)) (cs.drop (mark + count))

/-- The value of digits in a base; low lines do not count. -/
def digitsValue (base : Nat) (cs : List Char) : Nat :=
  (cs.filterMap hexValue?).foldl (fun value digit => value * base + digit) 0

/-- The most that the position of a field can be. -/
def maxIndex : Nat := 4294967295

/-- What is wrong with an integer as the position of a field. -/
def indexFault? (negative : Bool) (written : List Char) : Option String :=
  let (base, mark) := baseOf written
  match digitCount? base false (written.drop mark) with
  | none => some "expected integer literal"
  | some count =>
    if mark + count < written.length then some "expected unsuffixed integer"
    else if negative then some "invalid digit found in string"
    else if maxIndex < digitsValue base ((written.drop mark).take count) then
      some "number too large to fit in target type"
    else none

/-- A digit or a low line. -/
def isDigitOrLine (c : Char) : Bool :=
  c.isDigit || c == '_'

/-- The length of an exponent behind its letter. A sign may stand before the first digit. -/
def exponentCount? (signed found : Bool) : List Char → Option Nat
  | [] => if found then some 0 else none
  | c :: rest =>
    if c = '+' ∨ c = '-' then
      if found then some 0
      else if signed then none
      else (exponentCount? true found rest).map (· + 1)
    else if c.isDigit then (exponentCount? signed true rest).map (· + 1)
    else if c = '_' then (exponentCount? signed found rest).map (· + 1)
    else if found then some 0 else none

/-- The length of an exponent with its letter. -/
def exponent? : List Char → Option Nat
  | c :: rest =>
    if c = 'e' ∨ c = 'E' then (exponentCount? false false rest).map (· + 1) else none
  | [] => none

/-- A point may be part of a number only if neither another point nor a word follows. -/
def endsAtPoint : List Char → Bool
  | [] => true
  | c :: _ => c != '.' && !isIdentifierStart c

/-- The length of a number with a point or an exponent. -/
def floatCount? (cs : List Char) : Option Nat :=
  match cs with
  | c :: _ =>
    if c.isDigit then
      let whole := (cs.takeWhile isDigitOrLine).length
      match cs.drop whole with
      | '.' :: rest =>
        if endsAtPoint rest then
          let part := (rest.takeWhile isDigitOrLine).length
          some (whole + 1 + part + (exponent? (rest.drop part)).getD 0)
        else none
      | rest => (exponent? rest).map (whole + ·)
    else none
  | [] => none

/-- A number with a point or an exponent: the text it is written with, and the rest. -/
def float? (cs : List Char) : Option (List Char × List Char) := do
  let count ← floatCount? cs
  withSuffix? (cs.take count) (cs.drop count)

/-! ## Any literal -/

/-- A character or byte literal. -/
def single? : List Char → Option (List Char)
  | 'b' :: '\'' :: rest => character? .bytes rest
  | '\'' :: rest => character? .text rest
  | _ => none

/-- The literal at the front of a text, and what follows it. -/
def literal? (cs : List Char) : Option (Literal × List Char) :=
  match string? cs with
  | some (kind, value, rest) =>
    some (if kind = .text then .string value else .other, (splitWord rest).2)
  | none =>
    match single? cs with
    | some rest => some (.other, (splitWord rest).2)
    | none =>
      match float? cs with
      | some (written, rest) => some (.float written, rest)
      | none => (integer? cs).map fun (written, rest) => (.integer written, rest)

end EmbeddedSolidity.Source
