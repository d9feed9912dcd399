import EmbeddedSolidity.Grammar.Operator
import EmbeddedSolidity.Grammar.Pattern
import EmbeddedSolidity.Source.Lexer

/-!
# Expressions

An operand is an atom with calls, fields, indices and question marks behind it, perhaps with
unary operators in front; operands are joined by binary operators.

* `Readers.operand` : an operand;
* `Readers.operatorsFrom` : the binary operators behind an expression;
* `Readers.statementExpression` : an expression at the beginning of a statement, where a
  construct that ends in a block is complete.
-/

namespace EmbeddedSolidity.Grammar

open Grammar.Parser

variable {o : List Outline}

namespace Readers

/-! ## Lists of expressions -/

/-- Expressions with commas between them, up to the end of the scope. -/
def expressions (g : Readers o) : Parser o (Found o) :=
  separated "," g.expressionFound

/-- Expressions in parentheses: nothing, one, or a tuple. -/
def parenthesized (g : Readers o) : Parser o (Expression o) := do
  return { found := ← within .parenthesis g.expressions }

/-- An array, given by its elements or by one element and their number. -/
def array (g : Readers o) : Parser o (Expression o) :=
  within .bracket do
    if ← atEnd then return {}
    let first ← g.expressionFound
    if ← atEnd then return { found := first }
    if ← sign? "," then return { found := first ++ (← g.expressions) }
    if ← sign? ";" then return { found := first ++ (← g.expressionFound) }
    fail "expected \x60,\x60 or \x60;\x60"

/-! ## Constructs with blocks -/

/-- A label and its colon, if there is one. -/
def label? : Parser o Unit := do
  if ← lifetime? then sign ":"

/-- A condition, whose braces do not begin the fields of a structure. -/
def condition (g : Readers o) : Parser o (Found o) := do
  return (← g.expression false).found

/-- A conditional with its alternatives. -/
def conditional (g : Readers o) : Parser o (Expression o) := do
  let (found, _) ← (extend · (([] : Found o), true)) fun (found, more) => do
    if !more then return none
    keyword "if"
    let condition ← g.condition
    let found := found ++ condition ++ (← g.block)
    if !(← keyword? "else") then return some (found, false)
    if ← sees (.keyword "if") then return some (found, true)
    if ← sees (.group .brace) then return some (found ++ (← g.block), false)
    failExpecting [.keyword "if", .group .brace]
  return { shape := .block, found }

/-- A loop with a condition. -/
def whileLoop (g : Readers o) : Parser o (Expression o) := do
  label?
  keyword "while"
  let condition ← g.condition
  let (attributes, statements) ← g.body
  return { shape := .block, found := attributes ++ condition ++ statements }

/-- A loop over the elements of a value. -/
def forLoop (g : Readers o) : Parser o (Expression o) := do
  label?
  keyword "for"
  let pattern ← g.alternativesFound
  keyword "in"
  let values ← g.condition
  let (attributes, statements) ← g.body
  return { shape := .block, found := attributes ++ pattern ++ values ++ statements }

/-- A loop without a condition. -/
def endlessLoop (g : Readers o) : Parser o (Expression o) := do
  label?
  keyword "loop"
  let (attributes, statements) ← g.body
  return { shape := .block, found := attributes ++ statements }

/-- A block as an expression. -/
def blockExpression (g : Readers o) : Parser o (Expression o) := do
  label?
  let (attributes, statements) ← g.body
  return { shape := .block, found := attributes ++ statements }

/-- A labelled loop or block. -/
def labelled (g : Readers o) : Parser o (Expression o) := do
  lifetime
  sign ":"
  if ← sees (.keyword "while") then g.whileLoop
  else if ← sees (.keyword "for") then g.forLoop
  else if ← sees (.keyword "loop") then g.endlessLoop
  else if ← sees (.group .brace) then g.blockExpression
  else fail "expected loop or block expression"

/-- A block behind a keyword. -/
def keywordBlock (g : Readers o) (name : String) : Parser o (Expression o) := do
  keyword name
  let (attributes, statements) ← g.body
  return { shape := .block, found := attributes ++ statements }

/-- A block whose failures end it. -/
def tryBlock (g : Readers o) : Parser o (Expression o) := do
  keyword "try"
  return { shape := .block, found := ← g.block }

/-- A block that runs later. -/
def asyncBlock (g : Readers o) : Parser o (Expression o) := do
  keyword "async"
  let _ ← keyword? "move"
  return { found := ← g.block }

/-! ## Closures -/

/-- An argument of a closure, perhaps with its type. -/
def closureArgument (g : Readers o) : Parser o (Found o) := do
  let attributes ← g.outerAttributes
  let pattern ← g.pattern
  if ← sign? ":" then
    let type ← g.typeFound
    return attributes ++ pattern.found ++ type
  return if pattern.takesAttributes then attributes ++ pattern.found else pattern.found

/-- A closure. With a result type its body is a block. -/
def closure (g : Readers o) (fields : Bool) : Parser o (Expression o) := do
  let quantified ← g.binder
  let _ ← keyword? "const"
  let _ ← keyword? "static"
  let _ ← keyword? "async"
  let _ ← keyword? "move"
  sign "|"
  let inputs ← separatedUntil (sees (.sign "|")) "," g.closureArgument
  sign "|"
  let front := quantified.getD [] ++ inputs
  if ← sign? "->" then
    let output ← g.typeFound
    return { found := front ++ output ++ (← g.block) }
  return { found := front ++ (← g.expression fields).found }

/-! ## Jumps -/

/-- A sign comes next that is not the beginning of certain longer ones. -/
def seesOnly (text : String) (longer : List String) : Parser o Bool := do
  return (← sees (.sign text)) && !(← seesAny (longer.map Look.sign))

/-- What comes next may begin the value of a jump. The keyword of a cast does not: it casts the
jump itself. -/
def seesValue : Parser o Bool := do
  if ← sees (.keyword "as") then return false
  if ← seesAny [.word, .group .parenthesis, .group .bracket, .group .brace, .literal,
      .sign "..", .sign "::", .lifetime, .sign "#"] then
    return true
  return (← seesOnly "!" ["!="]) || (← seesOnly "-" ["-=", "->"]) || (← seesOnly "*" ["*="]) ||
    (← seesOnly "|" ["|="]) || (← seesOnly "&" ["&="]) || (← seesOnly "<" ["<=", "<<="])

/-- The value of a jump, if it has one. -/
def jumpValue (g : Readers o) : Parser o (Found o) := do
  if ← seesValue then g.expressionFound else return []

/-- The end of a loop or block with its label and its value. A labelled construct as the value
needs parentheses. -/
def breakJump (g : Readers o) (fields : Bool) : Parser o (Expression o) := do
  keyword "break"
  if (← sees .lifetime) && (← sees2 (.sign ":")) then
    let _ ← g.expression
    failWith "parentheses required"
  let _ ← lifetime?
  if !fields && (← sees (.group .brace)) then return {}
  return { found := ← g.jumpValue }

/-- A jump that takes a value. -/
def valueJump (g : Readers o) (name : String) : Parser o (Expression o) := do
  keyword name
  return { found := ← g.jumpValue }

/-! ## Ranges -/

/-- The signs that end a range without an upper bound. -/
def openEnds : List Look :=
  [.sign ",", .sign ";", .sign "?", .sign "=>", .sign "=", .sign "+", .sign "/", .sign "%",
    .sign "^", .sign ">", .sign "<=", .sign "!=", .sign "-=", .sign "*=", .sign "&=",
    .sign "|=", .sign "<<=", .keyword "as"]

/-- What comes next cannot be the upper bound of a range. -/
def seesOpenEnd (fields : Bool) : Parser o Bool := do
  return (← atEnd) || (← seesAny openEnds) ||
    ((← sees (.sign ".")) && !(← sees (.sign ".."))) ||
    (!fields && (← sees (.group .brace)))

/-- The right operand of an operator: operators that bind tighter belong to it, and so does a
further assignment behind an assignment. -/
def rightOperand (g : Readers o) (fields : Bool) (precedence : Precedence) :
    Parser o (Expression o) := do
  (extend · (← g.unary fields)) fun right => do
    let next ← seesPrecedence
    if precedence.rank < next.rank || (next == .assign && precedence == .assign) then
      let before := (← rest).length
      let right ← g.operators fields next right
      if (← rest).length == before then return none
      return some right
    return none

/-- The upper bound of a range behind its dots. -/
def upperBound (g : Readers o) (fields : Bool) (dots : Dots) : Parser o (Found o) := do
  if !dots.closed && (← seesOpenEnd fields) then return []
  return (← g.rightOperand fields .range).found

/-- A range without a lower bound. -/
def rangeExpression (g : Readers o) (fields : Bool) : Parser o (Expression o) := do
  let dots ← dots
  return { shape := .range, found := ← g.upperBound fields dots }

/-! ## Paths, invocations and structures -/

/-- A field of a structure with its value; without a value it is a binding of that name. -/
def fieldValue (g : Readers o) : Parser o (Found o) := do
  let attributes ← g.outerAttributes
  let named ← member
  if !named || (← sees (.sign ":")) then
    sign ":"
    return attributes ++ (← g.expressionFound)
  return attributes

/-- The fields of a structure; behind two dots stands the value that the others come from. -/
def structureFields (g : Readers o) : Parser o (Found o) :=
  within .brace do
    let (found, _) ← (extend · (([] : Found o), true)) fun (found, more) => do
      if !more || (← atEnd) then return none
      if ← sign? ".." then
        if ← atEnd then return some (found, false)
        return some (found ++ (← g.expressionFound), false)
      let field ← g.fieldValue
      if !(← atEnd) then sign ","
      return some (found ++ field, true)
    return found

/-- An expression that begins with a path: an invocation, a structure or the path itself. -/
def pathExpression (g : Readers o) (fields : Bool) : Parser o (Expression o) := do
  let p ← g.qualifiedPath true
  if !p.qualified && p.plain && (← seesBang) then
    let i ← invocation p
    return { shape := .invocation (i.1.delimiter == .brace), found := [i] }
  if fields && (← sees (.group .brace)) then
    return { found := p.found ++ (← g.structureFields) }
  return { found := p.found }

/-- A binding as a condition. -/
def letCondition (g : Readers o) (fields : Bool) : Parser o (Expression o) := do
  keyword "let"
  let pattern ← g.alternativesFound
  sign "="
  let left ← g.unary fields
  return { found := pattern ++ (← g.operators fields .compare left).found }

/-! ## Matches -/

/-- An arm of a match. -/
def arm (g : Readers o) : Parser o (Found o) := do
  let attributes ← g.outerAttributes
  let pattern ← g.alternativesFound
  let guard ← if ← keyword? "if" then g.expressionFound else pure []
  sign "=>"
  let result ← g.statementExpression
  if result.needsComma && !(← atEnd) then sign ","
  else
    let _ ← sign? ","
  return attributes ++ pattern ++ guard ++ result.found

/-- A match with its arms. -/
def matching (g : Readers o) : Parser o (Expression o) := do
  keyword "match"
  let value ← g.condition
  let (attributes, arms) ← within .brace do
    let attributes ← g.innerAttributes
    return (attributes, ← toEnd g.arm)
  return { shape := .block, found := attributes ++ value ++ arms }

/-! ## Operands -/

/-- What begins a closure. -/
def seesClosure : Parser o Bool := do
  return (← seesAny [.sign "|", .keyword "move", .keyword "static"]) || (← seesBinder) ||
    ((← sees (.keyword "const")) && !(← sees2 (.group .brace))) ||
    ((← sees (.keyword "async")) && ((← sees2 (.sign "|")) || (← sees2 (.keyword "move"))))

/-- What begins a block that runs later. -/
def seesAsyncBlock : Parser o Bool := do
  return (← sees (.keyword "async")) && ((← sees2 (.group .brace)) ||
    ((← sees2 (.keyword "move")) && (← sees3 (.group .brace))))

/-- What begins an expression with a path. -/
def seesPathExpression : Parser o Bool := do
  return (← seesAny pathStarts) ||
    ((← sees (.keyword "try")) && ((← sees2 (.sign "!")) || (← sees2 (.sign "::"))))

/-- An atom: an expression without anything that is joined to it. -/
def atom (g : Readers o) (fields : Bool) : Parser o (Expression o) := do
  if ← sees .literal then
    literal
    return {}
  if ← seesAsyncBlock then return ← g.asyncBlock
  if (← sees (.keyword "try")) && (← sees2 (.group .brace)) then return ← g.tryBlock
  if ← seesClosure then return ← g.closure fields
  if ← seesBuiltin then
    builtin
    return .uninterpreted
  if ← seesPathExpression then return ← g.pathExpression fields
  if ← sees (.group .parenthesis) then return ← g.parenthesized
  if ← sees (.keyword "break") then return ← g.breakJump fields
  if ← keyword? "continue" then
    let _ ← lifetime?
    return {}
  if ← sees (.keyword "return") then return ← g.valueJump "return"
  if ← keyword? "become" then
    let _ ← g.expression
    return .uninterpreted
  if ← sees (.group .bracket) then return ← g.array
  if ← sees (.keyword "let") then return ← g.letCondition fields
  if ← sees (.keyword "if") then return ← g.conditional
  if ← sees (.keyword "while") then return ← g.whileLoop
  if ← sees (.keyword "for") then return ← g.forLoop
  if ← sees (.keyword "loop") then return ← g.endlessLoop
  if ← sees (.keyword "match") then return ← g.matching
  if ← sees (.keyword "yield") then return ← g.valueJump "yield"
  if ← sees (.keyword "unsafe") then return ← g.keywordBlock "unsafe"
  if ← sees (.keyword "const") then return ← g.keywordBlock "const"
  if ← sees (.group .brace) then return ← g.blockExpression
  if ← sees (.sign "..") then return ← g.rangeExpression fields
  if ← keyword? "_" then return {}
  if ← sees .lifetime then return ← g.labelled
  fail "expected an expression"

/-- What is wrong with a text as the position of a field. -/
def positionFault? (written : List Char) : Option String :=
  match Source.trees? written with
  | none => some Source.unreadable
  | some trees =>
    match (position : Parser (outlines trees) Unit).whole with
    | .ok _ => none
    | .error message => some message

/-- Positions of fields that are written as one number with points between them, of which each
is read by itself. Says whether the last point has no position behind it. -/
def positions : Parser o Bool := do
  let negative ← sign? "-"
  let written ← number
  let trailing := written.getLast? == some '.'
  let written := (if negative then ['-'] else []) ++ if trailing then written.dropLast else written
  match (written.splitOn '.').findSome? positionFault? with
  | some fault => failWith fault
  | none => return trailing

/-- What follows the point behind an operand: a field, an awaited value or a method call. -/
def selection (g : Readers o) (e : Expression o) : Parser o (Expression o) := do
  sign "."
  if ← sees .float then
    if !(← positions) then return { found := e.found }
  if ← keyword? "await" then return { found := e.found }
  let named ← member
  let generic ← if named && (← sees (.sign "::")) then some <$> g.methodArguments else pure none
  if named && (generic.isSome || (← sees (.group .parenthesis))) then
    let arguments ← within .parenthesis g.expressions
    return { found := e.found ++ generic.getD [] ++ arguments }
  return { found := e.found }

/-- Calls, fields, indices and question marks behind an operand. -/
def trailers (g : Readers o) (e : Expression o) : Parser o (Expression o) :=
  (extend · e) fun e => do
    if ← sees (.group .parenthesis) then
      return some { found := e.found ++ (← within .parenthesis g.expressions) }
    if e.shape != .range && (← sees (.sign ".")) && !(← sees (.sign "..")) then
      return some (← g.selection e)
    if ← sees (.group .bracket) then
      return some { found := e.found ++ (← within .bracket g.expressionFound) }
    if e.shape != .range && (← sees (.sign "?")) then
      sign "?"
      return some { found := e.found }
    return none

/-- The sign of a reference, or the keywords of a raw one. -/
def referenceSign : Parser o Unit := do
  sign "&"
  if (← sees (.keyword "raw")) && ((← sees2 (.keyword "mut")) || (← sees2 (.keyword "const"))) then
    keyword "raw"
    if !(← keyword? "mut") then keyword "const"
  else
    let _ ← keyword? "mut"

/-- A unary operator of one sign, if one comes next. -/
def unarySign? : Parser o Bool := do
  if ← sign? "*" then return true
  if ← sign? "!" then return true
  sign? "-"

/-- An operand with the unary operators in front of it. -/
def operand (g : Readers o) (fields : Bool) : Parser o (Expression o) := do
  let attributed ← sees (.sign "#")
  let attributes ← g.outerAttributes
  if ← sees (.sign "&") then
    referenceSign
    return { found := attributes ++ (← g.unary fields).found }
  if ← unarySign? then return { found := attributes ++ (← g.unary fields).found }
  let e ← g.trailers (← g.atom fields)
  if attributed && e.shape == .range then
    failWith "attributes are not allowed on range expressions starting with `..`"
  return e.withAttributes attributes

/-! ## Binary operators -/

/-- A cast must not be followed by what would apply to its type. -/
def endCast : Parser o Unit := do
  let refuse (what : String) : Parser o Unit := fail ("casts cannot be followed by " ++ what)
  if (← sees (.sign ".")) && !(← sees (.sign "..")) then
    if ← sees2 (.keyword "await") then refuse "`.await`"
    else if (← sees2 .identifier) &&
        ((← sees3 (.group .parenthesis)) || (← sees3 (.sign "::"))) then
      refuse "a method call"
    else refuse "a field access"
  else if ← sees (.sign "?") then refuse "`?`"
  else if ← sees (.group .bracket) then refuse "indexing"
  else if ← sees (.group .parenthesis) then refuse "a function call"

/-- One operator that binds at least as tightly as `base`, behind an expression. -/
def operatorStep (g : Readers o) (fields : Bool) (base : Precedence) (left : Expression o) :
    Parser o (Option (Expression o)) := do
  if left.shape == .range then return none
  let joined (shape : Shape) (found : Found o) : Expression o :=
    { shape, found := left.found ++ found, takesAttributes := left.takesAttributes }
  if let some (op, precedence) ← seesOperator then
    if precedence.rank < base.rank then return none
    if precedence == .compare && left.shape == .comparison then
      fail "comparison operators cannot be chained"
    sign op
    let right ← g.rightOperand fields precedence
    let shape := if precedence == .compare then Shape.comparison else .other
    return some (joined shape right.found)
  if base.rank ≤ Precedence.assign.rank && (← sees (.sign "=")) && !(← sees (.sign "=>")) then
    sign "="
    return some (joined .other (← g.rightOperand fields .assign).found)
  if base.rank ≤ Precedence.range.rank && (← sees (.sign "..")) then
    let dots ← dots
    let found ← g.upperBound fields dots
    return some { shape := .range, found := left.found ++ found }
  if base.rank ≤ Precedence.cast.rank && (← sees (.keyword "as")) then
    keyword "as"
    let type ← g.typeFound false
    endCast
    return some (joined .other type)
  return none

/-- The operators behind an expression that bind at least as tightly as `base`. -/
def operatorsFrom (g : Readers o) (fields : Bool) (base : Precedence) (left : Expression o) :
    Parser o (Expression o) :=
  extend (g.operatorStep fields base) left

/-! ## Expressions as statements -/

/-- A construct that ends in a block, if one comes next. -/
def construct? (g : Readers o) : Parser o (Option (Expression o)) := do
  if ← sees (.keyword "if") then return some (← g.conditional)
  if ← sees (.keyword "while") then return some (← g.whileLoop)
  if (← sees (.keyword "for")) && !(← seesBinder) then return some (← g.forLoop)
  if ← sees (.keyword "loop") then return some (← g.endlessLoop)
  if ← sees (.keyword "match") then return some (← g.matching)
  if (← sees (.keyword "try")) && (← sees2 (.group .brace)) then return some (← g.tryBlock)
  if ← sees (.keyword "unsafe") then return some (← g.keywordBlock "unsafe")
  if (← sees (.keyword "const")) && (← sees2 (.group .brace)) then
    return some (← g.keywordBlock "const")
  if ← sees (.group .brace) then return some (← g.blockExpression)
  if ← sees .lifetime then return some (← g.labelled)
  return none

/-- An expression at the beginning of a statement or of the body of an arm. A construct that
ends in a block is complete there, unless a point or a question mark follows. -/
def statementForm (g : Readers o) : Parser o (Expression o) := do
  let attributes ← g.outerAttributes
  let e ←
    match ← g.construct? with
    | some e =>
      if ((← sees (.sign ".")) && !(← sees (.sign ".."))) || (← sees (.sign "?")) then g.trailers e
      else return e.withAttributes attributes
    | none => g.operand true
  g.operatorsFrom true .jump (e.withAttributes attributes)

end Readers

end EmbeddedSolidity.Grammar
