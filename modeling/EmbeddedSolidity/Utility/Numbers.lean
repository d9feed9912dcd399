import EmbeddedSolidity.Shell.Format
import EmbeddedSolidity.Utility.Basic
import EmbeddedSolidity.Utility.Regular

/-!
# Numbers

Counting from one number to another one, and the values of expressions.
-/

namespace EmbeddedSolidity.Utility.Numbers

open Shell

/-! ## Counting -/

/-- A decimal number: its digits as a whole number, and how many of them are behind the point. -/
structure Decimal where
  digits : Int
  places : Nat

/-- The decimal number that a text is. -/
def decimal? (text : String) : Option Decimal :=
  let (negative, cs) := match text.toList with
    | '-' :: rest => (true, rest)
    | '+' :: rest => (false, rest)
    | cs => (false, cs)
  let whole := cs.takeWhile Char.isDigit
  let (fraction, rest) := match cs.drop whole.length with
    | '.' :: more => (more.takeWhile Char.isDigit, more.dropWhile Char.isDigit)
    | rest => ([], rest)
  let value : Nat := (whole ++ fraction).foldl (fun n c => n * 10 + (c.toNat - 48)) 0
  let signed (n : Nat) : Int := if negative then -(n : Int) else n
  if whole.isEmpty && fraction.isEmpty then none
  else
    match rest with
    | [] => some ⟨signed value, fraction.length⟩
    | e :: more =>
      let digits := match more with
        | '+' :: ds => ds
        | ds => ds
      if e.toLower == 'e' && !digits.isEmpty && digits.all Char.isDigit then
        let power : Nat := digits.foldl (fun n c => n * 10 + (c.toNat - 48)) 0
        if 400 < power then none
        else some ⟨signed (value * Nat.pow 10 (power - fraction.length)), fraction.length - power⟩
      else none

/-- The digits of a number with more places. -/
def Decimal.scaled (d : Decimal) (places : Nat) : Int :=
  d.digits * Int.pow 10 (places - d.places)

/-- A number over a power of ten as a text. -/
def shown (places : Nat) (n : Int) : List Char :=
  (if n < 0 then ['-'] else []) ++ Format.withPoint places false n.natAbs

/-- A number with zeros in front up to a width. -/
def widened (width : Nat) (cs : List Char) : List Char :=
  let zeros := List.replicate (width - cs.length) '0'
  match cs with
  | '-' :: rest => '-' :: zeros ++ rest
  | _ => zeros ++ cs

/-- Arguments with a sign in front of the first one that is a number and no option. -/
def guarded : List String → List String
  | [] => []
  | [word] => if isNegative word then ["--", word] else [word]
  | word :: next :: rest =>
    if word == "--" then word :: next :: rest
    else if isNegative word then "--" :: word :: next :: rest
    else if word == "-s" || word == "-f" then word :: next :: guarded rest
    else if word.toList.head? == some '-' then word :: guarded (next :: rest)
    else word :: next :: rest
where
  /-- The text is a number behind a dash. -/
  isNegative (word : String) : Bool :=
    match word.toList with
    | '-' :: d :: _ => d.isDigit || d == '.'
    | _ => false

/-- Numbers, one on a line. -/
def seq (c : Call) : Action Nat := do
  let c := { c with arguments := guarded c.arguments }
  c.read [⟨'s', "separator", true, false⟩, ⟨'w', "equal-width", false, false⟩,
      ⟨'f', "format", true, false⟩] (fun chosen words => do
    if words.isEmpty then return ← c.missing
    if let some word := words[3]? then return ← c.extra word
    match words.find? fun word => (decimal? word).isNone with
    | some word => c.misused ("invalid floating point argument: " ++ Quotation.word word)
    | none =>
      let one : Decimal := ⟨1, 0⟩
      let (first, step, final) := match words.filterMap decimal? with
        | [a, b, c] => (a, b, c)
        | [a, c] => (a, one, c)
        | [c] => (one, one, c)
        | _ => (one, one, one)
      if step.digits == 0 then
        return ← c.misused ("invalid Zero increment value: " ++ Quotation.word ((words[1]?).getD ""))
      let places := max first.places step.places
      let fine := max places final.places
      let (a, b, z) := (first.scaled fine, step.scaled fine, final.scaled fine)
      let size := (Int.fdiv (z - a) b + 1).toNat
      let values := (List.range size).map fun (i : Nat) =>
        first.scaled places + step.scaled places * (i : Int)
      let separator := ((Chosen.last? 's' chosen).getD "\n").toList
      let width := max (shown places (first.scaled places)).length
        (shown places (if final.places ≤ places then final.scaled places
          else Int.tdiv final.digits (Int.pow 10 (final.places - places)))).length
      match Chosen.last? 'f' chosen with
      | some format =>
        if !format.toList.contains '%' then
          return ← c.refuse ("format " ++ Quotation.word format ++ " has no % directive")
        let texts := values.map fun n =>
          (Format.fill format [String.ofList (shown places n)]).written.reverse
        put separator texts
      | none =>
        let texts := values.map (shown places)
        put separator (if Chosen.has 'w' chosen then texts.map (widened width) else texts)) 1 false
where
  put (separator : List Char) (texts : List (List Char)) : Action Nat := do
    if !texts.isEmpty then say (String.ofList (separator.intercalate texts ++ ['\n']))
    return 0

/-! ## Expressions -/

/-- What is wrong with an expression. -/
inductive Wrong where
  | notNumber
  | zero
  | missingBehind (word : String)
  | unexpected (word : String)
  | unclosed (word : String)
  | strayParenthesis
  | badExpression (message : String)

/-- What is said of a wrong expression. -/
def Wrong.message : Wrong → String
  | notNumber => "non-integer argument"
  | zero => "division by zero"
  | missingBehind word => "syntax error: missing argument after " ++ Quotation.word word
  | unexpected word => "syntax error: unexpected argument " ++ Quotation.word word
  | unclosed word => "syntax error: expecting ')' after " ++ Quotation.word word
  | strayParenthesis => "syntax error: unexpected ')'"
  | badExpression message => message

/-- The words that are left, and the last one that was read. -/
structure Words where
  rest : List String
  last : String := ""

/-- What evaluates an expression. -/
abbrev Evaluation := StateT Words (Except Wrong)

/-- The whole number that a text is. -/
def whole? (text : String) : Option Int :=
  let (negative, cs) := match text.toList with
    | '-' :: rest => (true, rest)
    | cs => (false, cs)
  if cs.isEmpty || !cs.all Char.isDigit then none
  else
    let n : Nat := cs.foldl (fun n c => n * 10 + (c.toNat - 48)) 0
    some (if negative then -(n : Int) else n)

/-- The text counts as nothing. -/
def isNull (text : String) : Bool :=
  text.isEmpty || whole? text == some 0

/-- Read the next word if it is one of some. -/
def oneOf (words : List String) : Evaluation (Option String) := do
  let s ← get
  match s.rest with
  | word :: rest =>
    if words.contains word then
      set { s with rest, last := word }
      return some word
    return none
  | [] => return none

/-- The number that a value is. -/
def asNumber (text : String) : Evaluation Int := do
  match whole? text with
  | some n => return n
  | none => throw .notNumber

/-- What an expression matches at the front of a text: its first group, or how long it is. -/
def matchOf (text pattern : String) : Evaluation String := do
  match Regular.parse {} (Regular.decode pattern.toList) with
  | .error message => throw (.badExpression message)
  | .ok (e, groups) =>
    let found := e.longest {} { front := [], rest := Regular.decode text.toList }
    match found with
    | none => return if groups == 0 then "0" else ""
    | some s =>
      let size := (Regular.decode text.toList).length - s.rest.length
      if groups == 0 then return toString size
      return String.ofList (Regular.encode ((s.groups.lookup 1).getD []))

mutual

/-- Read a word, a function, or an expression in parentheses. -/
def primary : Nat → Evaluation String
  | 0 => throw .notNumber
  | n + 1 => do
    let s ← get
    match s.rest with
    | [] => throw (.missingBehind s.last)
    | word :: rest =>
      set { s with rest, last := word }
      match word with
      | "(" =>
        let value ← alternatives n
        match ← oneOf [")"] with
        | some _ => return value
        | none =>
          let s ← get
          match s.rest with
          | [] => throw (.unclosed s.last)
          | next :: _ => throw (.unexpected next)
      | ")" => throw .strayParenthesis
      | "+" =>
        match rest with
        | [] => throw (.missingBehind word)
        | next :: rest =>
          set { s with rest, last := next }
          return next
      | "match" => matchOf (← primary n) (← primary n)
      | "length" => return toString (Regular.decode (← primary n).toList).length
      | "index" =>
        let text ← primary n
        let wanted ← primary n
        return toString ((text.toList.findIdx? wanted.toList.contains).map (· + 1) |>.getD 0)
      | "substr" =>
        let text ← primary n
        let start ← primary n
        let size ← primary n
        match whole? start, whole? size with
        | some i, some k =>
          if i ≤ 0 || k ≤ 0 then return ""
          let cs := (Regular.decode text.toList).drop (i.toNat - 1)
          return String.ofList (Regular.encode (cs.take k.toNat))
        | _, _ => return ""
      | _ => return word

/-- Go on with operators of a tightness behind a value. -/
def operations : Nat → Nat → String → Evaluation String
  | 0, _, _ => throw .notNumber
  | n + 1, level, a => do
    let words := match level with
      | 0 => ["|"]
      | 1 => ["&"]
      | 2 => ["<", "<=", "=", "==", "!=", ">=", ">"]
      | 3 => ["+", "-"]
      | 4 => ["*", "/", "%"]
      | _ => [":"]
    match ← oneOf words with
    | none => return a
    | some op =>
      let b ← operand n (level + 1)
      let value ← match op with
        | "|" => pure (if !isNull a then a else if !isNull b then b else "0")
        | "&" => pure (if isNull a || isNull b then "0" else a)
        | "+" => do pure (toString ((← asNumber a) + (← asNumber b)))
        | "-" => do pure (toString ((← asNumber a) - (← asNumber b)))
        | "*" => do pure (toString ((← asNumber a) * (← asNumber b)))
        | "/" | "%" => do
          let x ← asNumber a
          let y ← asNumber b
          if y == 0 then throw .zero
          pure (toString (if op == "/" then Int.tdiv x y else Int.tmod x y))
        | ":" => matchOf a b
        | _ =>
          let order : Ordering := match whole? a, whole? b with
            | some x, some y => compare x y
            | _, _ => compare a b
          let holds : Bool := match op with
            | "<" => order == .lt
            | "<=" => order != .gt
            | "!=" => order != .eq
            | ">=" => order != .lt
            | ">" => order == .gt
            | _ => order == .eq
          pure (if holds then "1" else "0")
      operations n level value

/-- Read an operand of operators of a tightness. -/
def operand : Nat → Nat → Evaluation String
  | 0, _ => throw .notNumber
  | n + 1, level =>
    if 5 < level then primary n
    else do
      let a ← operand n (level + 1)
      operations n level a

/-- Read a whole expression. -/
def alternatives : Nat → Evaluation String
  | 0 => throw .notNumber
  | n + 1 => operand n 0

end

/-- The value of an expression. -/
def expr (c : Call) : Action Nat := do
  let words := match c.arguments with
    | "--" :: rest => rest
    | words => words
  if words.isEmpty then return ← c.missing 2
  match (alternatives (12 * words.length + 12)).run { rest := words } with
  | .error wrong => c.refuse wrong.message 2
  | .ok (value, s) =>
    match s.rest with
    | word :: _ => c.refuse (Wrong.unexpected word).message 2
    | [] =>
      say (value ++ "\n")
      return if isNull value then 1 else 0

end EmbeddedSolidity.Utility.Numbers
