import EmbeddedSolidity.Json.Binary64
import EmbeddedSolidity.Shell.Arithmetic

/-!
# Formats

What `echo` and `printf` write: texts in which a backslash begins an escape, and formats with
fields that arguments fill. Texts are texts of bytes.

* `Format.fill` : what a format and arguments give;
* `Format.expand` : a text with escapes.
-/

namespace EmbeddedSolidity.Shell.Format

open Json (Binary64)

/-! ## Escapes -/

/-- The digit is octal. -/
def isOctal (c : Char) : Bool :=
  '0' ≤ c && c ≤ '7'

/-- The byte that octal digits name. -/
def octal (cs : List Char) : Char :=
  Char.ofNat ((cs.foldl (fun value c => value * 8 + (c.toNat - 48)) 0) % 256)

/-- What a letter behind a backslash stands for. -/
def escapeLetter? : Char → Option Char
  | 'a' => some '\x07'
  | 'b' => some '\x08'
  | 'f' => some '\x0c'
  | 'n' => some '\n'
  | 'r' => some '\r'
  | 't' => some '\t'
  | 'v' => some '\x0b'
  | '\\' => some '\\'
  | _ => none

/-- What stands behind a backslash, and the text behind it. -/
def escape (cs : List Char) : Char × List Char :=
  match cs with
  | [] => ('\\', [])
  | c :: rest =>
    if isOctal c then
      let digits := (cs.take 3).takeWhile isOctal
      (octal digits, cs.drop digits.length)
    else
      match escapeLetter? c with
      | some b => (b, rest)
      | none => ('\\', cs)

/-- A text with escapes behind what has been found, last first, and whether one of them asks for
nothing to follow. A zero may stand in front of octal digits. The first argument is at least the
length of the text. -/
def expand : Nat → List Char → List Char → List Char × Bool
  | 0, found, _ | _, found, [] => (found.reverse, false)
  | _ + 1, found, '\\' :: 'c' :: _ => (found.reverse, true)
  | n + 1, found, '\\' :: rest =>
    let rest :=
      match rest with
      | '0' :: d :: more => if isOctal d then d :: more else rest
      | _ => rest
    let (c, rest) := escape rest
    expand n (c :: found) rest
  | n + 1, found, c :: rest => expand n (c :: found) rest

/-- What `echo` writes. -/
def echo (arguments : List String) : String :=
  let (silent, words) :=
    match arguments with
    | "-n" :: words => (true, words)
    | words => (false, words)
  let text := " ".intercalate words
  let (cs, stops) := expand text.length [] text.toList
  String.ofList (if silent || stops then cs else cs ++ ['\n'])

/-! ## Fields -/

/-- A field of a format. -/
structure Field where
  left : Bool := false
  zeros : Bool := false
  plus : Bool := false
  space : Bool := false
  alternate : Bool := false
  width : Nat := 0
  precision : Option Nat := none
  conversion : Char

/-- Fill a text up to the width of a field. -/
def pad (f : Field) (zeros : Bool) (sign body : List Char) : List Char :=
  let missing := f.width - (sign.length + body.length)
  if f.left then sign ++ body ++ List.replicate missing ' '
  else if zeros then sign ++ List.replicate missing '0' ++ body
  else List.replicate missing ' ' ++ sign ++ body

/-- A text in a field. -/
def textField (f : Field) (cs : List Char) : List Char :=
  pad f false [] ((f.precision.map fun p => cs.take p).getD cs)

/-- The sign in front of a number. -/
def signOf (f : Field) (negative : Bool) : List Char :=
  if negative then ['-'] else if f.plus then ['+'] else if f.space then [' '] else []

/-- A whole number in a field. -/
def integerField (f : Field) (value : Int) : List Char :=
  let signed := f.conversion == 'd' || f.conversion == 'i'
  let magnitude := if signed then value.natAbs else (value % (1 <<< 64 : Nat)).toNat
  let sign := if signed then signOf f (value < 0) else []
  let base := if f.conversion == 'o' then 8 else if ['x', 'X'].contains f.conversion then 16 else 10
  let digits := Nat.toDigits base magnitude
  let digits := if magnitude == 0 && f.precision == some 0 then [] else digits
  let digits := List.replicate (f.precision.getD 0 - digits.length) '0' ++ digits
  let digits :=
    if f.alternate && base == 8 && digits.head? != some '0' then '0' :: digits else digits
  let mark := if f.alternate && base == 16 && magnitude != 0 then ['0', 'x'] else []
  let all := pad f (f.zeros && f.precision.isNone) (sign ++ mark) digits
  if f.conversion == 'X' then all.map Char.toUpper else all

/-! ## Numbers with fractions -/

/-- A number that a text may be. -/
inductive Real where
  | finite (x : Binary64)
  | infinite (negative : Bool)
  | none (negative : Bool)

/-- A quotient of naturals over a power of ten, rounded. -/
def scaled (num den : Nat) (places : Int) : Nat :=
  if 0 ≤ places then Binary64.roundQuotient (num * Nat.pow 10 places.toNat) den
  else Binary64.roundQuotient num (den * Nat.pow 10 (-places).toNat)

/-- A natural number with a point in front of its last digits. -/
def withPoint (places : Nat) (keepsPoint : Bool) (n : Nat) : List Char :=
  let digits := Nat.toDigits 10 n
  let digits := List.replicate (places + 1 - digits.length) '0' ++ digits
  let whole := digits.take (digits.length - places)
  if places == 0 then (if keepsPoint then whole ++ ['.'] else whole)
  else whole ++ '.' :: digits.drop (digits.length - places)

/-- The exponent of the first digit of a quotient that is not zero. -/
def exponentOf (num den : Nat) : Int :=
  if den ≤ num then (Nat.toDigits 10 (num / den)).length - 1
  else
    let guess := (Nat.toDigits 10 (den / num)).length
    if den ≤ num * Nat.pow 10 (guess - 1) then -((guess - 1 : Nat) : Int) else -(guess : Int)

/-- The digits of a quotient behind a first one, rounded, and the exponent of the first one. -/
def scientific (places : Nat) (num den : Nat) : Nat × Int :=
  if num == 0 then (0, 0)
  else
    let e := exponentOf num den
    let m := scaled num den (places - e)
    if Nat.pow 10 (places + 1) ≤ m then (scaled num den (places - e - 1), e + 1) else (m, e)

/-- The text of an exponent. -/
def exponentText (e : Int) : List Char :=
  let digits := Nat.toDigits 10 e.natAbs
  'e' :: (if e < 0 then '-' else '+') :: (List.replicate (2 - digits.length) '0' ++ digits)

/-- A text with a point without zeros at its end. -/
def trimmed (cs : List Char) : List Char :=
  let shorter := cs.reverse.dropWhile (· == '0')
  (if shorter.head? == some '.' then shorter.drop 1 else shorter).reverse

/-- A text with a point and an exponent from digits. -/
def scientificText (f : Field) (short : Bool) (places : Nat) (digits : Nat) (e : Int) : List Char :=
  let body := withPoint places f.alternate digits
  (if short && places != 0 then trimmed body else body) ++ exponentText e

/-- The text of the absolute value of a finite number. -/
def finiteText (f : Field) (num den : Nat) : List Char :=
  let p := f.precision.getD 6
  match f.conversion.toLower with
  | 'f' => withPoint p f.alternate (scaled num den p)
  | 'e' =>
    let (digits, e) := scientific p num den
    scientificText f false p digits e
  | _ =>
    let p := max p 1
    let (digits, e) := scientific (p - 1) num den
    if -4 ≤ e && e < p then
      let places := (p - 1 - e).toNat
      let body := withPoint places f.alternate (scaled num den places)
      if f.alternate || places == 0 then body else trimmed body
    else scientificText f (!f.alternate) (p - 1) digits e

/-- A number in a field. -/
def realField (f : Field) (x : Real) : List Char :=
  let all :=
    match x with
    | .infinite negative => pad f false (signOf f negative) ['i', 'n', 'f']
    | .none negative => pad f false (signOf f negative) ['n', 'a', 'n']
    | .finite x => pad f f.zeros (signOf f x.negative) (finiteText f x.numerator x.denominator)
  if f.conversion.isUpper then all.map Char.toUpper else all

/-! ## Arguments -/

/-- How much of a text is a number. -/
inductive Extent where
  | all
  | some
  | nothing
  /-- All of it, but the number is too large, or too small to be kept as it is. -/
  | beyond
deriving DecidableEq

/-- How much of a text is a number if `rest` is left of it. -/
def extent (text : List Char) (rest : List Char) : Extent :=
  if rest.isEmpty then .all else if rest.length == text.length then .nothing else .some

/-- The byte behind a quotation mark. -/
def quotedByte? : List Char → Option Nat
  | '\'' :: rest | '"' :: rest => Option.some ((rest.head?.map Char.toNat).getD 0)
  | _ => Option.none

/-- The whole number that an argument is, with how much of it is one. -/
def integer (signed : Bool) (argument : String) : Int × Extent :=
  let text := argument.toList
  match quotedByte? text with
  | some b => (b, .all)
  | none =>
    let (negative, cs) := Arithmetic.sign (text.dropWhile Arithmetic.isSpace)
    match Arithmetic.natural? cs with
    | none => (0, extent text text)
    | some (n, rest) =>
      let x : Int := if negative then -n else n
      let low : Int := if signed then -(1 <<< 63 : Nat) else -(1 <<< 64 - 1 : Nat)
      let high : Int := if signed then (1 <<< 63 - 1 : Nat) else (1 <<< 64 - 1 : Nat)
      if low ≤ x && x ≤ high then (x, extent text rest)
      else
        (if signed then Arithmetic.clamp x else (1 <<< 64 - 1 : Nat),
          if rest.isEmpty then .beyond else .some)

/-- The digits at the front of a text as a number, how many there are, and what follows. -/
def digitRun (base : Nat) (cs : List Char) : Nat × Nat × List Char :=
  let (ds, rest) := Arithmetic.digits base cs
  (Arithmetic.ofDigits base ds, ds.length, rest)

/-- The exponent behind a letter, and what follows it; zero if there is none. -/
def exponent (letter : Char) (cs : List Char) : Int × List Char :=
  match cs with
  | c :: rest =>
    if c.toLower == letter then
      let (negative, behind) := Arithmetic.sign rest
      match digitRun 10 behind with
      | (_, 0, _) => (0, cs)
      | (n, _, rest) => (if negative then -(n : Int) else n, rest)
    else (0, cs)
  | [] => (0, [])

/-- The mantissa and the exponent of a number in a base, and what follows; `none` if there is no
digit. -/
def mantissa? (base : Nat) (letter : Char) (cs : List Char) :
    Option (Nat × Nat × Int × List Char) :=
  let (whole, count, rest) := digitRun base cs
  let (fraction, places, rest) :=
    match rest with
    | '.' :: behind =>
      let (fraction, places, behind) := digitRun base behind
      if count + places == 0 then (0, 0, rest) else (fraction, places, behind)
    | _ => (0, 0, rest)
  if count + places == 0 then none
  else
    let (e, rest) := exponent letter rest
    some (whole * Nat.pow base places + fraction, places, e, rest)

/-- The text begins with a word, whatever its case; gives what follows. -/
def word? (word : String) (cs : List Char) : Option (List Char) :=
  if (cs.take word.length).map Char.toLower == word.toList then some (cs.drop word.length) else none

/-- A mantissa times a power, rounded, and whether it is kept as well as numbers are. -/
def power (negative : Bool) (base : Nat) (m : Nat) (e : Int) : Real × Bool :=
  let zero := Real.finite (Binary64.zero negative)
  if m == 0 then (zero, true)
  else if 5000 < e then (.infinite negative, false)
  else if e < -5000 then (zero, false)
  else
    let num := if 0 ≤ e then m * Nat.pow base e.toNat else m
    let den := if 0 ≤ e then 1 else Nat.pow base (-e).toNat
    match Binary64.ofRatio? negative num den with
    | none => (.infinite negative, false)
    | some x =>
      (.finite x, 1 <<< 52 ≤ x.significand || x.numerator * den == num * x.denominator)

/-- The number that an argument is, with how much of it is one. -/
def real (argument : String) : Real × Extent :=
  let text := argument.toList
  match quotedByte? text with
  | some b => (.finite ((Binary64.ofRatio? false b 1).getD (Binary64.zero false)), .all)
  | none =>
    let (negative, cs) := Arithmetic.sign (text.dropWhile Arithmetic.isSpace)
    let finish (x : Real × Bool) (rest : List Char) : Real × Extent :=
      (x.1, if rest.isEmpty && !x.2 then .beyond else extent text rest)
    let hexadecimal :=
      match cs with
      | '0' :: x :: rest => if x.toLower == 'x' then mantissa? 16 'p' rest else none
      | _ => none
    match hexadecimal, mantissa? 10 'e' cs with
    | some (m, places, e, rest), _ => finish (power negative 2 m (e - 4 * places)) rest
    | none, some (m, places, e, rest) => finish (power negative 10 m (e - places)) rest
    | none, none =>
      match word? "infinity" cs, word? "inf" cs, word? "nan" cs with
      | some rest, _, _ | none, some rest, _ => (.infinite negative, extent text rest)
      | none, none, some rest => (.none negative, extent text rest)
      | none, none, none => (.finite (Binary64.zero false), extent text text)

/-! ## Filling -/

/-- How a format is filled: what has been written, last first, the arguments that are left, the
complaints about them, last first, and how it ended. -/
structure Filling where
  written : List Char := []
  arguments : List String
  complaints : List (String × Extent) := []
  stops : Bool := false
  /-- What is wrong with the format. -/
  fault : Option String := none

namespace Filling

/-- Take an argument. -/
def take (s : Filling) : Option String × Filling :=
  (s.arguments.head?, { s with arguments := s.arguments.drop 1 })

/-- Write characters. -/
def write (s : Filling) (cs : List Char) : Filling :=
  { s with written := cs.reverse ++ s.written }

/-- Note how much of an argument was a number. -/
def note (s : Filling) (argument : String) (e : Extent) : Filling :=
  if e == .all then s else { s with complaints := (argument, e) :: s.complaints }

/-- Take a whole number. -/
def takeInteger (s : Filling) (signed : Bool) : Int × Filling :=
  match s.take with
  | (none, s) => (0, s)
  | (some a, s) =>
    let (x, e) := integer signed a
    (x, s.note a e)

end Filling

/-- The count at the front of a text, which a star takes from the arguments; what is left. -/
def count (cs : List Char) (s : Filling) : Option Int × List Char × Filling :=
  match cs with
  | '*' :: rest =>
    let (x, s) := s.takeInteger true
    (some (Int.bmod x (1 <<< 32)), rest, s)
  | _ =>
    let digits := cs.takeWhile Char.isDigit
    (if digits.isEmpty then none else some (Arithmetic.ofDigits 10 (digits.map (·.toNat - 48))),
      cs.drop digits.length, s)

/-- Fill a field by an argument. -/
def fillField (f : Field) (directive : String) (s : Filling) : Filling :=
  match f.conversion with
  | 's' =>
    let (a, s) := s.take
    s.write (textField f (a.getD "").toList)
  | 'b' =>
    let (a, s) := s.take
    let text := (a.getD "").toList
    let (cs, stops) := expand text.length [] text
    { s.write (textField f cs) with stops }
  | 'c' =>
    let (a, s) := s.take
    s.write (pad f false [] [(a.bind (·.toList.head?)).getD '\x00'])
  | 'd' | 'i' =>
    let (x, s) := s.takeInteger true
    s.write (integerField f x)
  | 'o' | 'u' | 'x' | 'X' =>
    let (x, s) := s.takeInteger false
    s.write (integerField f x)
  | 'e' | 'E' | 'f' | 'F' | 'g' | 'G' =>
    match s.take with
    | (none, s) => s.write (realField f (.finite (Binary64.zero false)))
    | (some a, s) =>
      let (x, e) := real a
      (s.note a e).write (realField f x)
  | _ => { s with fault := some (directive ++ ": invalid directive") }

/-- Fill a field behind a percent sign; gives what follows. -/
def field (cs : List Char) (s : Filling) : List Char × Filling :=
  let flags := cs.takeWhile (['#', '-', '+', ' ', '0'].contains ·)
  let (width, behind, s) := count (cs.drop flags.length) s
  let (precision, behind, s) :=
    match behind with
    | '.' :: behind =>
      let (p, behind, s) := count behind s
      (some (p.getD 0), behind, s)
    | _ => (none, behind, s)
  match behind with
  | [] => ([], { s with fault := some "missing format character" })
  | conversion :: rest =>
    let f : Field :=
      { left := flags.contains '-' || width.any (· < 0), zeros := flags.contains '0'
        plus := flags.contains '+', space := flags.contains ' '
        alternate := flags.contains '#', width := (width.getD 0).natAbs
        precision := precision.bind fun p => if p < 0 then none else some p.toNat
        conversion }
    let directive := '%' :: (cs.take (cs.length - rest.length))
    (rest, fillField f (String.ofList directive) s)

/-- Fill a format once. The first argument is at least its length. -/
def once : Nat → List Char → Filling → Filling
  | 0, _, s | _, [], s => s
  | n + 1, '%' :: '%' :: rest, s => once n rest (s.write ['%'])
  | n + 1, '%' :: rest, s =>
    let (rest, s) := field rest s
    if s.stops || s.fault.isSome then s else once n rest s
  | n + 1, '\\' :: rest, s =>
    let (c, rest) := escape rest
    once n rest (s.write [c])
  | n + 1, c :: rest, s => once n rest (s.write [c])

/-- Fill a format again and again as long as it takes arguments and some are left. The first
argument bounds how often. -/
def again (format : List Char) : Nat → Filling → Filling
  | 0, s => s
  | n + 1, s =>
    let t := once format.length format s
    if t.stops || t.fault.isSome || t.arguments.isEmpty || t.arguments.length == s.arguments.length
    then t
    else again format n t

/-- Fill a format by arguments. -/
def fill (format : String) (arguments : List String) : Filling :=
  again format.toList (arguments.length + 1) { arguments }

end EmbeddedSolidity.Shell.Format
