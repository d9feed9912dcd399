import EmbeddedSolidity.Grammar.Parser

/-!
# What the grammar finds

The grammar of the host language, as far as it decides which texts are programs and where the
macro invocations of a program are. Reading a construct gives the invocations in it, in the
order in which its parts are visited, together with the few facts about its shape on which the
reading of what encloses it depends.

Some constructs are accepted but not interpreted; no invocation is found in them.

Constructs contain each other, so the readers of the constructs that can enclose themselves are
the fields of one record, `Readers`, and each is defined by the readers one level below.
-/

namespace EmbeddedSolidity.Grammar

open EmbeddedSolidity.Source (Delimiter)

variable {o : List Outline}

/-- Where a macro invocation is: the number of the word or mark that its path begins with, the words
of the path, and the kind and the number of the group it is applied to. -/
structure Site where
  place : Option Nat
  path : List String
  delimiter : Delimiter
  body : Nat
deriving DecidableEq, Repr

/-- The invocation is one of the outlines `o`. -/
def Site.Of (o : List Outline) (s : Site) : Prop :=
  s.body ∈ groupNumbers o

/-- Invocations of the outlines that are read, in the order of the visit. -/
abbrev Found (o : List Outline) := List {s : Site // s.Of o}

/-- What the shape of an expression decides about the trees around it. -/
inductive Shape where
  /-- A range, to which no operator applies. -/
  | range
  /-- A comparison, which cannot be compared again. -/
  | comparison
  /-- A construct that ends in a block and is a statement by itself. -/
  | block
  /-- A macro invocation. -/
  | invocation (braced : Bool)
  | other
deriving DecidableEq, Repr

/-- An expression. `takesAttributes` says whether attributes in front of it are kept. -/
structure Expression (o : List Outline) where
  shape : Shape := .other
  found : Found o := []
  takesAttributes : Bool := true

namespace Expression

/-- Put attributes in front of an expression. -/
def withAttributes (attributes : Found o) (e : Expression o) : Expression o :=
  if e.takesAttributes then { e with found := attributes ++ e.found } else e

/-- An expression that is accepted without being interpreted. -/
def uninterpreted : Expression o :=
  { takesAttributes := false }

/-- As a statement the expression needs a semicolon before the next one. -/
def needsSemicolon (e : Expression o) : Bool :=
  match e.shape with
  | .block => false
  | .invocation braced => !braced
  | _ => true

/-- As the body of a match arm the expression needs a comma before the next arm. -/
def needsComma (e : Expression o) : Bool :=
  e.shape != .block

end Expression

/-- What the shape of a type decides about the trees around it. -/
inductive TypeShape where
  /-- A path without a qualified self type; `simple` if it is one segment without a leading
  sign. -/
  | path (simple : Bool)
  /-- Bounds without a keyword; `single` if there is one. -/
  | bounds (single : Bool)
  | parenthesized
  | other
deriving DecidableEq, Repr

/-- A type. -/
structure TypeExpression (o : List Outline) where
  shape : TypeShape := .other
  found : Found o := []

/-- What the shape of a pattern decides about the trees around it. -/
inductive PatternShape where
  /-- Two dots that stand for any number of elements. -/
  | rest
  /-- A range without one of its ends. -/
  | openRange
  | other
deriving DecidableEq, Repr

/-- A pattern. `takesAttributes` says whether attributes in front of it are kept. -/
structure Pattern (o : List Outline) where
  shape : PatternShape := .other
  found : Found o := []
  takesAttributes : Bool := true

/-- The kind of a bound. -/
inductive BoundKind where
  | trait
  | lifetime
  | captured
  /-- Accepted without being interpreted. -/
  | uninterpreted
deriving DecidableEq, Repr

/-- A bound of a type. -/
structure Bound (o : List Outline) where
  kind : BoundKind
  found : Found o := []

/-- How tightly an operator binds. -/
inductive Precedence where
  | jump
  | assign
  | range
  | or
  | and
  | compare
  | bitOr
  | bitXor
  | bitAnd
  | shift
  | sum
  | product
  | cast
deriving DecidableEq, Repr

/-- The number of looser classes of operators. -/
def Precedence.rank : Precedence → Nat
  | jump => 0
  | assign => 1
  | range => 2
  | or => 3
  | and => 4
  | compare => 5
  | bitOr => 6
  | bitXor => 7
  | bitAnd => 8
  | shift => 9
  | sum => 10
  | product => 11
  | cast => 12

/-- The readers of the constructs that can enclose themselves.

`type` is told whether bounds may be joined, `bound` whether it may list captured parameters
and whether it may be constant, and `unary` and `operators` whether a brace may begin the fields
of a structure. `operators` goes on behind an expression with the operators that bind at least
as tightly as a precedence. `statementExpression` reads an expression where a construct that
ends in a block is complete. -/
structure Readers (o : List Outline) where
  type : (plus : Bool) → Parser o (TypeExpression o)
  bound : (capture constant : Bool) → Parser o (Bound o)
  pattern : Parser o (Pattern o)
  unary : (fields : Bool) → Parser o (Expression o)
  operators : (fields : Bool) → Precedence → Expression o → Parser o (Expression o)
  statementExpression : Parser o (Expression o)
  statements : Parser o (Found o)
  item : Parser o (Found o)

namespace Readers

/-- The readers below all levels. -/
def exhausted : Readers o where
  type _ := Parser.failWith "nested too deeply"
  bound _ _ := Parser.failWith "nested too deeply"
  pattern := Parser.failWith "nested too deeply"
  unary _ := Parser.failWith "nested too deeply"
  operators _ _ _ := Parser.failWith "nested too deeply"
  statementExpression := Parser.failWith "nested too deeply"
  statements := Parser.failWith "nested too deeply"
  item := Parser.failWith "nested too deeply"

/-- An expression with all operators. -/
def expression (g : Readers o) (fields : Bool := true) : Parser o (Expression o) := do
  g.operators fields .jump (← g.unary fields)

/-- The invocations in a type. -/
def typeFound (g : Readers o) (plus : Bool := true) : Parser o (Found o) := do
  return (← g.type plus).found

/-- The invocations in an expression. -/
def expressionFound (g : Readers o) : Parser o (Found o) := do
  return (← g.expression).found

end Readers

end EmbeddedSolidity.Grammar
