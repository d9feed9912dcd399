import EmbeddedSolidity.Shell.Syntax

/-!
# Arithmetic

The value of an expression on whole numbers of 64 bits: numbers, variables and assignments to
them, the operators of arithmetic, of bits, of comparison and of logic, choices and parentheses.

* `Arithmetic.evaluate` : the value of an expression, with the variables that it changes;
* `Arithmetic.number?` : the whole number that a text is.

The numbers among the arguments bound the recursion; the number of characters of the expression
is always enough.
-/

namespace EmbeddedSolidity.Shell.Arithmetic

/-- A number in 64 bits. -/
def wrap (x : Int) : Int :=
  Int.bmod x (1 <<< 64)

/-- The nearest number in 64 bits. -/
def clamp (x : Int) : Int :=
  max (-(1 <<< 63 : Nat)) (min x (1 <<< 63 - 1 : Nat))

/-- One for yes and zero for no. -/
def truth (b : Bool) : Int :=
  if b then 1 else 0

/-! ## Numbers -/

/-- The value of a digit. -/
def digit? (base : Nat) (c : Char) : Option Nat :=
  let value :=
    if c.isDigit then c.toNat - 48
    else if c.isAlpha then c.toLower.toNat - 87
    else base
  if value < base then some value else none

/-- The digits in a base at the front, and what follows them. -/
def digits (base : Nat) (cs : List Char) : List Nat × List Char :=
  let found := cs.takeWhile fun c => (digit? base c).isSome
  (found.filterMap (digit? base), cs.drop found.length)

/-- The number of some digits. -/
def ofDigits (base : Nat) (ds : List Nat) : Nat :=
  ds.foldl (fun value d => value * base + d) 0

/-- The number at the front of a text, and what follows it; `none` if there is none. A number
behind `0x` is hexadecimal, and one behind a zero is octal. -/
def natural? (cs : List Char) : Option (Nat × List Char) :=
  let decimal :=
    match digits 10 cs with
    | ([], _) => none
    | (ds, rest) => some (ofDigits 10 ds, rest)
  match cs with
  | '0' :: x :: rest =>
    let (octal, behind) := digits 8 (x :: rest)
    if x == 'x' || x == 'X' then
      match digits 16 rest with
      | ([], _) => some (0, x :: rest)
      | (ds, rest) => some (ofDigits 16 ds, rest)
    else some (ofDigits 8 octal, behind)
  | _ => decimal

/-- The sign in front of a number, and what follows it. -/
def sign : List Char → Bool × List Char
  | '-' :: rest => (true, rest)
  | '+' :: rest => (false, rest)
  | rest => (false, rest)

/-- A character that may stand around a number. -/
def isSpace (c : Char) : Bool :=
  c == ' ' || (9 ≤ c.toNat && c.toNat ≤ 13)

/-- The whole number that a text is, with a reader of what stands behind its sign. -/
def whole? (read : List Char → Option (Nat × List Char)) (text : String) : Option Int :=
  let (negative, cs) := sign (text.toList.dropWhile isSpace)
  match read cs with
  | none => none
  | some (n, rest) =>
    let x : Int := if negative then -n else n
    if rest.all isSpace && clamp x == x then some x else none

/-- The whole number that the text of a variable is; an empty text is zero. -/
def number? (text : String) : Option Int :=
  if text.toList.all isSpace then some 0 else whole? natural? text

/-- The decimal number at the front of a text. -/
def decimal? (cs : List Char) : Option (Nat × List Char) :=
  match digits 10 cs with
  | ([], _) => none
  | (ds, rest) => some (ofDigits 10 ds, rest)

/-! ## Symbols -/

/-- An operator between two values. -/
inductive Operator where
  | times | divided | modulo | plus | minus | left | right
  | less | atMost | greater | atLeast | equal | unequal
  | and | xor | or
deriving DecidableEq

/-- How loosely an operator binds. -/
def Operator.looseness : Operator → Nat
  | times | divided | modulo => 0
  | plus | minus => 1
  | left | right => 2
  | less | atMost | greater | atLeast => 3
  | equal | unequal => 4
  | and => 5
  | xor => 6
  | or => 7

/-- What an operator makes of two values; `none` for a division by zero. -/
def Operator.apply (op : Operator) (a b : Int) : Option Int :=
  match op with
  | times => some (wrap (a * b))
  | divided => if b == 0 then none else some (wrap (Int.tdiv a b))
  | modulo => if b == 0 then none else some (Int.tmod a b)
  | plus => some (wrap (a + b))
  | minus => some (wrap (a - b))
  | left => some (wrap (a * (1 <<< (b % 64).toNat : Nat)))
  | right => some (Int.fdiv a (1 <<< (b % 64).toNat : Nat))
  | less => some (truth (decide (a < b)))
  | atMost => some (truth (decide (a ≤ b)))
  | greater => some (truth (decide (b < a)))
  | atLeast => some (truth (decide (b ≤ a)))
  | equal => some (truth (a == b))
  | unequal => some (truth (a != b))
  | and => some ((Int64.ofInt a &&& Int64.ofInt b).toInt)
  | xor => some ((Int64.ofInt a ^^^ Int64.ofInt b).toInt)
  | or => some ((Int64.ofInt a ||| Int64.ofInt b).toInt)

/-- A part of an expression. -/
inductive Symbol where
  | finish
  | bad
  | number (value : Int)
  | name (name : String)
  | binary (op : Operator)
  /-- An assignment, perhaps of what an operator makes of the old value. -/
  | assign (op : Option Operator)
  | opening | closing | both | either | not | complement | question | colon
deriving DecidableEq

/-- The signs of operators, the longer ones first. -/
def signs : List (String × Symbol) :=
  [("<<=", .assign (some .left)), (">>=", .assign (some .right)), ("<<", .binary .left),
    (">>", .binary .right), ("<=", .binary .atMost), (">=", .binary .atLeast),
    ("==", .binary .equal), ("!=", .binary .unequal), ("&&", .both), ("||", .either),
    ("*=", .assign (some .times)), ("/=", .assign (some .divided)), ("%=", .assign (some .modulo)),
    ("+=", .assign (some .plus)), ("-=", .assign (some .minus)), ("&=", .assign (some .and)),
    ("^=", .assign (some .xor)), ("|=", .assign (some .or)), ("*", .binary .times),
    ("/", .binary .divided), ("%", .binary .modulo), ("+", .binary .plus), ("-", .binary .minus),
    ("<", .binary .less), (">", .binary .greater), ("&", .binary .and), ("^", .binary .xor),
    ("|", .binary .or), ("=", .assign none), ("(", .opening), (")", .closing), ("!", .not),
    ("~", .complement), ("?", .question), (":", .colon)]

/-- The first part of a text, and what follows it. -/
def symbol (cs : List Char) : Symbol × List Char :=
  let cs := cs.dropWhile fun c => c == ' ' || c == '\t' || c == '\n'
  match cs with
  | [] => (.finish, [])
  | c :: _ =>
    if c.isDigit then
      match natural? cs with
      | some (n, rest) => (.number (clamp n), rest)
      | none => (.bad, cs)
    else if c.isAlpha || c == '_' then
      let name := cs.takeWhile isNameChar
      (.name (String.ofList name), cs.drop name.length)
    else
      match signs.find? fun s => s.1.toList.isPrefixOf cs with
      | some (sign, found) => (found, cs.drop sign.length)
      | none => (.bad, cs)

/-! ## Values -/

/-- Why an expression has no value. -/
inductive Fault where
  | malformed (message : String)
  | illegal (text : String)
  | readOnly (name : String)

/-- What is known of variables. -/
structure Scope where
  value : String → String
  isFixed : String → Bool

/-- What is left of an expression, its next part, and the values that were assigned, the last
one first. -/
structure State where
  rest : List Char
  next : Symbol := .finish
  assigned : List (String × Int) := []

/-- An evaluation of an expression. -/
abbrev Evaluation := ExceptT Fault (StateM State)

/-- Read the next part. -/
def advance : Evaluation Unit :=
  modify fun s =>
    let (next, rest) := symbol s.rest
    { s with next, rest }

/-- The expression is not one. -/
def refuse {α : Type} (message : String) : Evaluation α :=
  throw (.malformed message)

/-- The value of a variable. -/
def valueOf (scope : Scope) (name : String) : Evaluation Int := do
  match (← get).assigned.lookup name with
  | some value => return value
  | none =>
    let text := scope.value name
    match number? text with
    | some value => return value
    | none => throw (.illegal text)

/-- What an operator makes of two values. -/
def combine (op : Operator) (a b : Int) : Evaluation Int := do
  match op.apply a b with
  | some value => return value
  | none => refuse "division by zero"

mutual

/-- A value with the signs in front of it. -/
def primary (scope : Scope) (idle : Bool) : Nat → Evaluation Int
  | 0 => refuse "expecting primary"
  | n + 1 => do
    let next := (← get).next
    match next with
    | .opening =>
      advance
      let value ← assignment scope idle n
      if (← get).next != .closing then refuse "expecting ')'"
      advance
      return value
    | .number value =>
      advance
      return value
    | .name name =>
      advance
      if idle then return 0 else valueOf scope name
    | .binary .plus =>
      advance
      primary scope idle n
    | .binary .minus =>
      advance
      return wrap (-(← primary scope idle n))
    | .not =>
      advance
      return truth ((← primary scope idle n) == 0)
    | .complement =>
      advance
      return -(← primary scope idle n) - 1
    | _ => refuse "expecting primary"

/-- What follows a first value and an operator that has been read, up to an operator that binds
as loosely as `limit` or more. -/
def operations (scope : Scope) (idle : Bool) (a : Int) (op : Operator) (limit : Nat) :
    Nat → Evaluation Int
  | 0 => refuse "expecting primary"
  | n + 1 => do
    let b ← primary scope idle n
    let b ←
      match (← get).next with
      | .binary next =>
        if next.looseness < op.looseness then do
          advance
          operations scope idle b next op.looseness n
        else pure b
      | _ => pure b
    let a ← if idle then pure b else combine op a b
    match (← get).next with
    | .binary next =>
      if limit ≤ next.looseness then return a
      advance
      operations scope idle a next limit n
    | _ => return a

/-- Values joined by `&&`. -/
def conjunction (scope : Scope) (idle : Bool) : Nat → Evaluation Int
  | 0 => refuse "expecting primary"
  | n + 1 => do
    let a ← primary scope idle n
    let a ←
      match (← get).next with
      | .binary op => do
        advance
        operations scope idle a op 8 n
      | _ => pure a
    if (← get).next != .both then return a
    advance
    let b ← conjunction scope (idle || a == 0) n
    return truth (a != 0 && b != 0)

/-- Values joined by `||`. -/
def disjunction (scope : Scope) (idle : Bool) : Nat → Evaluation Int
  | 0 => refuse "expecting primary"
  | n + 1 => do
    let a ← conjunction scope idle n
    if (← get).next != .either then return a
    advance
    let b ← disjunction scope (idle || a != 0) n
    return truth (a != 0 || b != 0)

/-- A choice between two values by a third. -/
def choice (scope : Scope) (idle : Bool) : Nat → Evaluation Int
  | 0 => refuse "expecting primary"
  | n + 1 => do
    let a ← disjunction scope idle n
    if (← get).next != .question then return a
    advance
    let b ← assignment scope (idle || a == 0) n
    if (← get).next != .colon then refuse "expecting ':'"
    advance
    let c ← choice scope (idle || a != 0) n
    return if a != 0 then b else c

/-- An assignment, or a value. -/
def assignment (scope : Scope) (idle : Bool) : Nat → Evaluation Int
  | 0 => refuse "expecting primary"
  | n + 1 => do
    match (← get).next, (symbol (← get).rest).1 with
    | .name name, .assign op =>
      advance
      advance
      let value ← assignment scope idle n
      if idle then return value
      let value ←
        match op with
        | some op => do combine op (← valueOf scope name) value
        | none => pure value
      if scope.isFixed name then throw (.readOnly name)
      modify fun s => { s with assigned := (name, value) :: s.assigned }
      return value
    | _, _ => choice scope idle n

end

/-- The value of an expression, and the values that variables get, the last one first. -/
def evaluate (scope : Scope) (expression : String) :
    Except Fault Int × List (String × Int) :=
  let cs := expression.toList
  let whole : Evaluation Int := do
    advance
    let value ← assignment scope false (8 * cs.length + 16)
    if (← get).next != .finish then refuse "expecting EOF"
    return value
  let (result, s) := whole.run.run { rest := cs }
  (result, s.assigned)

end EmbeddedSolidity.Shell.Arithmetic
