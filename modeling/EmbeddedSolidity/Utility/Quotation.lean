import EmbeddedSolidity.Shell.Bytes

/-!
# Names in complaints

How utilities show the names of files and other arguments: a name that a shell would read as it
is stands for itself, and any other one is put between quotes, with its control characters and
the bytes that are no text written as escapes.

* `Quotation.path` : a name, in quotes if it needs them;
* `Quotation.quotedPath` : a name in quotes;
* `Quotation.word` : an argument in the quotes of a printed text.
-/

namespace EmbeddedSolidity.Utility.Quotation

open Shell

/-! ## Characters -/

/-- A part of a text: bytes that are shown as they are, or a byte that is not. -/
inductive Part where
  | shown (cs : List Char)
  | hidden (c : Char)

/-- How many bytes behind `c` belong to a character that is not ASCII, if they follow. -/
def following? (c : Char) (rest : List Char) : Option Nat := do
  let (n, low, high) ← Text.leading (Bytes.byte c)
  let next := rest.take n
  let isFirst := next.head?.any fun d => low ≤ Bytes.byte d && Bytes.byte d ≤ high
  let isRest := (next.drop 1).all fun d => Text.isContinuation (Bytes.byte d)
  if next.length == n && isFirst && isRest then some n else none

/-- The parts of a text. The number is at least its length. -/
def parts : Nat → List Char → List Part
  | 0, _ | _, [] => []
  | n + 1, c :: rest =>
    if c.toNat < 128 then
      (if c.toNat < 32 || c.toNat == 127 then .hidden c else .shown [c]) :: parts n rest
    else
      match following? c rest with
      | some k => .shown (c :: rest.take k) :: parts n (rest.drop k)
      | none => .hidden c :: parts n rest

/-- The escape for a byte. -/
def escape (c : Char) : List Char :=
  let letter? := [('\x07', 'a'), ('\x08', 'b'), ('\t', 't'), ('\n', 'n'), ('\x0b', 'v'),
    ('\x0c', 'f'), ('\r', 'r')].lookup c
  match letter? with
  | some letter => ['\\', letter]
  | none =>
    let digit (n : Nat) : Char := Char.ofNat (48 + c.toNat / n % 8)
    ['\\', digit 64, digit 8, digit 1]

/-! ## Names of files -/

/-- The character has a meaning in shells wherever it stands. -/
def isSpecial (c : Char) : Bool :=
  " !\"$&'()*;<=>?[\\^`|".toList.contains c

/-- A text that a shell reads as it is. -/
def isPlain (cs : List Char) : Bool :=
  !cs.isEmpty && !cs.any isSpecial && cs != ['{'] && cs != ['}'] &&
    cs.head? != some '#' && cs.head? != some '~' &&
    (parts cs.length cs).all fun
      | .shown _ => true
      | .hidden _ => false

/-- Parts within quotes; `open'` is set behind an escape. -/
def inside (escaped : Bool) : List Part → List Char
  | [] => []
  | .hidden c :: rest => (if escaped then [] else "'$'".toList) ++ escape c ++ inside true rest
  | .shown ['\''] :: rest => "'\\''".toList ++ inside false rest
  | .shown cs :: rest => (if escaped then "''".toList else []) ++ cs ++ inside false rest

/-- A quote can stand between double quotes with such a character. -/
def isHarmless (c : Char) : Bool :=
  c == ' ' || c == '\'' || c.isAlphanum || "%+,-./:]_#~\x7b\x7d".toList.contains c

/-- A name in quotes. -/
def quotedPath (s : String) : String :=
  let cs := s.toList
  String.ofList <|
    if cs.contains '\'' && cs.all isHarmless then '"' :: cs ++ ['"']
    else '\'' :: inside false (parts cs.length cs) ++ ['\'']

/-- A name, in quotes if it needs them. -/
def path (s : String) : String :=
  if isPlain s.toList then s else quotedPath s

/-- A name in front of a colon, in quotes if it needs them. -/
def label (s : String) : String :=
  if isPlain s.toList && !s.toList.contains ':' then s else quotedPath s

/-! ## Arguments -/

/-- An argument in the quotes of a printed text. -/
def word (s : String) : String :=
  let cs := s.toList
  let body := (parts cs.length cs).flatMap fun
    | .shown ['\\'] => ['\\', '\\']
    | .shown cs => cs
    | .hidden c => escape c
  Bytes.ofText "‘" ++ String.ofList body ++ Bytes.ofText "’"

end EmbeddedSolidity.Utility.Quotation
