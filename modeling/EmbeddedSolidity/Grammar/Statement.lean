import EmbeddedSolidity.Grammar.Expression

/-!
# Statements

A block is a list of statements: bindings, items, invocations and expressions. An expression
that does not end in a block needs a semicolon before the next statement.
-/

namespace EmbeddedSolidity.Grammar

open Grammar.Parser
open EmbeddedSolidity.Source (Delimiter)

variable {o : List Outline}

namespace Readers

/-! ## Bindings -/

/-- Read with a parser and say whether the last tree that it read is a group in braces. -/
def endingInBrace {α : Type} (p : Parser o α) : Parser o (α × Bool) := do
  let before ← rest
  let a ← p
  let after ← rest
  let read := before.take (before.length - after.length)
  return (a, read.getLast?.any fun t => (Look.group .brace).sees [t])

/-- A binding with its type, its value, and the block for values that do not match. -/
def binding (g : Readers o) : Parser o (Found o) := do
  keyword "let"
  let pattern ← g.pattern
  let type ← if ← sign? ":" then g.typeFound else pure []
  let mut value : Found o := []
  if ← sign? "=" then
    let (found, braced) ← endingInBrace g.expressionFound
    value := found
    if !braced && (← sees (.keyword "else")) then
      keyword "else"
      value := found ++ (← g.block)
  sign ";"
  return pattern.found ++ type ++ value

/-! ## Statements -/

/-- How a statement begins that begins with a path and an exclamation mark. -/
inductive Opening where
  /-- Not with one. -/
  | other
  /-- It defines something by an invocation with a name. -/
  | definition
  /-- It is an invocation in braces. -/
  | invocation
deriving DecidableEq

/-- How the next statement begins. An invocation in braces is the operand of an expression if a
point or a question mark follows. -/
def seesOpening : Parser o Opening := do
  let found ← attempt <| ahead do
    let _ ← plainPath
    if !(← sees (.sign "!")) then return Opening.other
    if (← sees2 .identifier) || (← sees2 (.keyword "try")) then return .definition
    if (← sees2 (.group .brace)) && !(((← sees3 (.sign ".")) && !(← sees3 (.sign ".."))) ||
        (← sees3 (.sign "?"))) then
      return .invocation
    return .other
  return found.getD .other

/-- A static variable comes next, not a closure. -/
def seesStatic : Parser o Bool := do
  if !(← sees (.keyword "static")) then return false
  if ← sees2 (.keyword "mut") then return true
  return (← sees2 .identifier) && !((← sees2 (.keyword "async")) &&
    ((← sees3 (.keyword "move")) || (← sees3 (.sign "|"))))

/-- A constant or a constant function comes next, not a block or a closure. -/
def seesConstantItem : Parser o Bool := do
  if !(← sees (.keyword "const")) then return false
  let function := (← sees3 (.keyword "unsafe")) || (← sees3 (.keyword "extern")) ||
    (← sees3 (.keyword "fn"))
  return !((← sees2 (.group .brace)) || (← sees2 (.keyword "static")) ||
    ((← sees2 (.keyword "async")) && !function) || (← sees2 (.keyword "move")) ||
    (← sees2 (.sign "|")))

/-- An item comes next that begins with one of its keywords. -/
def seesItem : Parser o Bool := do
  if ← seesAny (["pub", "extern", "use", "fn", "mod", "type", "struct", "enum", "trait", "impl",
      "macro"].map Look.keyword) then
    return true
  if (← seesStatic) || (← seesConstantItem) then return true
  let function := (← sees2 (.keyword "unsafe")) || (← sees2 (.keyword "extern")) ||
    (← sees2 (.keyword "fn"))
  return ((← sees (.keyword "crate")) && !(← sees2 (.sign "::"))) ||
    ((← sees (.keyword "unsafe")) && !(← sees2 (.group .brace))) ||
    ((← sees (.keyword "async")) && function) ||
    ((← sees (.keyword "union")) && (← sees2 .identifier)) ||
    ((← sees (.keyword "auto")) && (← sees2 (.keyword "trait"))) ||
    ((← sees (.keyword "default")) && ((← sees2 (.keyword "unsafe")) || (← sees2 (.keyword "impl"))))

/-- One statement; also says whether it needs a semicolon before the next one. An item reads
its attributes itself. -/
def statement (g : Readers o) : Parser o (Found o × Bool) := do
  let start ← get
  let attributes ← g.outerAttributes
  let begins ← seesOpening
  if begins == .invocation then
    let i ← invocation (← plainPath)
    let _ ← sign? ";"
    return (attributes ++ [i], false)
  if ← sees (.keyword "let") then
    return (attributes ++ (← g.binding), false)
  if (← seesItem) || begins == .definition then
    set start
    return (← g.item, false)
  let e := (← g.statementForm).withAttributes attributes
  let ended ← sign? ";"
  return (e.found, !ended && e.needsSemicolon)

/-- Statements up to the end of the scope. Semicolons alone are statements. -/
def statementList (g : Readers o) : Parser o (Found o) :=
  collect do
    if ← atEnd then return none
    if ← sign? ";" then return some []
    let (found, needsSemicolon) ← g.statement
    if needsSemicolon && !(← atEnd) then fail "unexpected token, expected \x60;\x60"
    return some found

end Readers

end EmbeddedSolidity.Grammar
