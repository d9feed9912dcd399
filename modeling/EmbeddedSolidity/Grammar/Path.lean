import EmbeddedSolidity.Grammar.Basic

/-!
# Paths and attributes

A path is a list of words joined by `::`. In types and expressions a segment may have generic
arguments, and a path may begin with a self type in angle brackets. An attribute holds a plain
path, perhaps with a group of trees or with a value; only a value can contain invocations.
-/

namespace EmbeddedSolidity.Grammar

open Grammar.Parser

variable {o : List Outline}

/-- A path. `place` is the number of the word or mark that it begins with. -/
structure Path (o : List Outline) where
  place : Option Nat
  segments : List String
  found : Found o := []
  /-- It begins with a self type. -/
  qualified : Bool := false
  /-- It begins with the joining sign. -/
  leading : Bool := false
  /-- No segment has arguments. -/
  plain : Bool := true
  /-- The last segment has no arguments, or an empty list of them in angle brackets. -/
  bare : Bool := true

/-- The words that may begin a segment of a plain path. -/
def plainStarts : List Look :=
  [.identifier, .keyword "super", .keyword "self", .keyword "Self", .keyword "crate"]

/-- A path without arguments. -/
def plainPath : Parser o (Path o) := do
  let place ← here
  let leading ← sign? "::"
  let (segments, more) ← (extend · (([] : List String), true)) fun (segments, more) => do
    if !more then return none
    if !(← seesAny plainStarts) then return none
    let segment ← word
    return some (segments ++ [segment], ← sign? "::")
  if segments.isEmpty then
    let _ ← identifier
  if more then fail "expected path segment after \x60::\x60"
  return { place, segments, leading }

/-! ## Attributes -/

namespace Readers

/-- What stands between the brackets of an attribute. -/
def attributeBody (g : Readers o) : Parser o (Found o) := do
  if !(← keyword? "unsafe") then
    let _ ← plainPath
  if ← seesAny [.group .parenthesis, .group .bracket, .group .brace] then
    let _ ← anyGroup
    return []
  if (← sees (.sign "=")) && !(← seesAny [.sign "==", .sign "=>"]) then
    sign "="
    let alone ← attempt do
      literal
      if !(← atEnd) then failWith ""
    if alone.isSome then return []
    if (← sees (.sign "#")) && (← sees2 (.group .bracket)) then
      fail "unexpected attribute inside of attribute"
    g.expressionFound
  else
    return []

/-- The attributes in front of a construct. -/
def outerAttributes (g : Readers o) : Parser o (Found o) :=
  collect do
    if !(← sign? "#") then return none
    return some (← within .bracket g.attributeBody)

/-- The attributes at the beginning of a body, which belong to what the body is part of. -/
def innerAttributes (g : Readers o) : Parser o (Found o) :=
  collect do
    if !((← sees (.sign "#")) && (← sees2 (.sign "!"))) then return none
    sign "#"
    sign "!"
    return some (← within .bracket g.attributeBody)

/-- A block that may begin with attributes: these, and the statements. -/
def body (g : Readers o) : Parser o (Found o × Found o) :=
  within .brace do
    let attributes ← g.innerAttributes
    return (attributes, ← g.statements)

/-- A block of statements. -/
def block (g : Readers o) : Parser o (Found o) :=
  within .brace g.statements

/-! ## Generic arguments -/

/-- A constant as a generic argument. -/
def constantArgument (g : Readers o) : Parser o (Found o) := do
  if ← sees .literal then
    literal
    return []
  if ← sees .identifier then
    let _ ← identifier
    return []
  if ← sees (.group .brace) then
    let (attributes, statements) ← g.body
    return attributes ++ statements
  failExpecting []

/-- A literal or a block comes next. -/
def seesConstant : Parser o Bool :=
  seesAny [.literal, .group .brace]

/-- A generic argument: a lifetime, a constant, a type, a named type or constant, or bounds of a
named type. -/
def genericArgument (g : Readers o) : Parser o (Found o) := do
  if (← sees .lifetime) && !(← sees2 (.sign "+")) then
    lifetime
    return []
  if ← seesConstant then return ← g.constantArgument
  let argument ← g.type true
  if argument.shape != .path true then return argument.found
  if ← sign? "=" then
    if ← seesConstant then return argument.found ++ (← g.constantArgument)
    return argument.found ++ (← g.typeFound)
  if ← sign? ":" then
    let bounds ← joinedUntil (seesAny [.sign ",", .sign ">"]) "+" do
      return (← g.bound false true).found
    return argument.found ++ bounds
  return argument.found

/-- Generic arguments in angle brackets; also says whether there is none. -/
def genericArguments (g : Readers o) : Parser o (Found o × Bool) := do
  sign "<"
  let isEmpty ← sees (.sign ">")
  let found ← separatedUntil (sees (.sign ">")) "," g.genericArgument
  sign ">"
  return (found, isEmpty)

/-- Generic arguments of a method, with the joining sign in front. -/
def methodArguments (g : Readers o) : Parser o (Found o) := do
  sign "::"
  return (← g.genericArguments).1

/-! ## Paths with arguments -/

/-- Add a segment to a path. Among expressions a smaller-than sign is an operator, so generic
arguments need the joining sign in front. -/
def segment (g : Readers o) (inExpression : Bool) (p : Path o) : Parser o (Path o) := do
  if ← seesAny [.keyword "super", .keyword "self", .keyword "crate", .keyword "try"] then
    let name ← word
    return { p with segments := p.segments ++ [name], bare := true }
  let name ← if ← sees (.keyword "Self") then word else identifier
  let p := { p with segments := p.segments ++ [name] }
  let inBrackets := !inExpression && (← sees (.sign "<")) && !(← sees (.sign "<=")) &&
    !(← sees (.sign "<<="))
  if inBrackets || ((← sees (.sign "::")) && (← sees3 (.sign "<"))) then
    let _ ← sign? "::"
    let (found, isEmpty) ← g.genericArguments
    return { p with found := p.found ++ found, plain := false, bare := isEmpty }
  return { p with bare := true }

/-- Further segments of a path. -/
def moreSegments (g : Readers o) (inExpression : Bool) (p : Path o) : Parser o (Path o) :=
  (extend · p) fun p => do
    if !((← sees (.sign "::")) && !(← sees3 (.group .parenthesis))) then return none
    sign "::"
    return some (← g.segment inExpression p)

/-- A path without a self type. -/
def path (g : Readers o) (inExpression : Bool) : Parser o (Path o) := do
  let place ← here
  let leading ← sign? "::"
  g.moreSegments inExpression (← g.segment inExpression { place, segments := [], leading })

/-- A path that may begin with a self type in angle brackets, perhaps as a trait. -/
def qualifiedPath (g : Readers o) (inExpression : Bool) : Parser o (Path o) := do
  if !(← sees (.sign "<")) then return ← g.path inExpression
  let place ← here
  sign "<"
  let self ← g.typeFound
  let asTrait ← if ← keyword? "as" then (·.found) <$> g.path false else pure []
  sign ">"
  sign "::"
  let start : Path o := { place, segments := [], found := self ++ asTrait, qualified := true }
  let (p, _) ← (extend · (start, true)) fun (p, more) => do
    if !more then return none
    let p ← g.segment inExpression p
    return some (p, ← sign? "::")
  return p

/-- The type behind an arrow, if there is one. -/
def returnType (g : Readers o) (plus : Bool) : Parser o (Option (TypeExpression o)) := do
  if ← sign? "->" then return some (← g.type plus)
  return none

/-- Arguments in parentheses come next; only the path of a bound may have them. -/
def seesApplication : Parser o Bool := do
  return (← sees (.group .parenthesis)) ||
    ((← sees (.sign "::")) && (← sees3 (.group .parenthesis)))

/-- Argument types in parentheses and a result type. -/
def application (g : Readers o) : Parser o (Found o) := do
  let _ ← sign? "::"
  let inputs ← within .parenthesis (separated "," g.typeFound)
  let output ← g.returnType false
  return inputs ++ (output.map (·.found)).getD []

end Readers

/-! ## Invocations -/

/-- The exclamation mark of an invocation comes next. -/
def seesBang : Parser o Bool := do
  return (← sees (.sign "!")) && !(← sees (.sign "!="))

/-- The invocation of the macro at a path with the trees of a group. -/
def Path.invocation (p : Path o) (delimiter : Source.Delimiter)
    (body : {n : Nat // n ∈ groupNumbers o}) : {s : Site // s.Of o} :=
  ⟨⟨p.place, p.segments, delimiter, body⟩, body.2⟩

/-- The exclamation mark and the group behind the path of an invocation. -/
def invocation (p : Path o) : Parser o {s : Site // s.Of o} := do
  sign "!"
  let (delimiter, body) ← anyGroup
  return p.invocation delimiter body

end EmbeddedSolidity.Grammar
