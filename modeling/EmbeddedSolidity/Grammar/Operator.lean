import EmbeddedSolidity.Grammar.Basic

/-!
# Operators

The binary operators and how tightly they bind. A longer operator is tried before the shorter
ones that begin it.
-/

namespace EmbeddedSolidity.Grammar

open Grammar.Parser

variable {o : List Outline}

/-- The binary operators in the order in which they are tried. -/
def binaryOperators : List (String × Precedence) :=
  [("+=", .assign), ("-=", .assign), ("*=", .assign), ("/=", .assign), ("%=", .assign),
    ("^=", .assign), ("&=", .assign), ("|=", .assign), ("<<=", .assign), (">>=", .assign),
    ("&&", .and), ("||", .or), ("<<", .shift), (">>", .shift), ("==", .compare),
    ("<=", .compare), ("!=", .compare), (">=", .compare), ("+", .sum), ("-", .sum),
    ("*", .product), ("/", .product), ("%", .product), ("^", .bitXor), ("&", .bitAnd),
    ("|", .bitOr), ("<", .compare), (">", .compare)]

/-- The binary operator that comes next. -/
def seesOperator : Parser o (Option (String × Precedence)) := fun s =>
  .ok (binaryOperators.find? fun op => (Look.sign op.1).sees s.rest, s)

/-- How tightly what comes next binds to the left; anything but an operator binds least. -/
def seesPrecedence : Parser o Precedence := do
  if let some (_, precedence) ← seesOperator then return precedence
  if (← sees (.sign "=")) && !(← sees (.sign "=>")) then return .assign
  if ← sees (.sign "..") then return .range
  if ← sees (.keyword "as") then return .cast
  return .jump

end EmbeddedSolidity.Grammar
