import EmbeddedSolidity.Grammar.Generics

/-!
# Types

Paths, invocations, tuples, arrays, pointers, references, functions and bounds as types.
-/

namespace EmbeddedSolidity.Grammar

open Grammar.Parser

variable {o : List Outline}

namespace Readers

/-! ## Functions -/

/-- The calling convention behind the keyword, which comes next. -/
def convention : Parser o Unit := do
  keyword "extern"
  if ← sees .string then
    let _ ← string

/-- The calling convention, if there is one. -/
def convention? : Parser o Unit := do
  if ← sees (.keyword "extern") then convention

/-- A name before a colon, or the placeholder for it. -/
def seesName : Parser o Bool :=
  seesAny [.identifier, .keyword "_"]

/-- The type of an argument of a function type, perhaps with a name. The receiver of a method
is accepted without being interpreted. -/
def functionArgument (g : Readers o) (first : Bool) : Parser o (Found o) := do
  let attributes ← g.outerAttributes
  let mutSelf := first && (← sees (.keyword "mut")) && (← sees2 (.keyword "self"))
  if mutSelf then keyword "mut"
  let name ← seesName
  let isSelf := !name && first && (← sees (.keyword "self"))
  let named := (name || isSelf) && (← sees2 (.sign ":")) && !(← sees2 (.sign "::"))
  if named then
    let _ ← word
    sign ":"
  if first && !(named && isSelf) && (← sees (.keyword "mut")) && (← sees2 (.keyword "self")) then
    keyword "mut"
    keyword "self"
    return attributes
  if mutSelf && !named then
    keyword "self"
    return attributes
  let type ← g.typeFound
  return if mutSelf then attributes else attributes ++ type

/-- Three dots come next, perhaps behind a name. -/
def seesDots : Parser o Bool := do
  return (← sees (.sign "...")) ||
    ((← seesName) && (← sees2 (.sign ":")) && (← sees3 (.sign "...")))

/-- The arguments of a function type. -/
def functionArguments (g : Readers o) : Parser o (Found o) := do
  let (found, _) ← (extend · (([] : Found o), some true)) fun (found, next) => do
    let some first := next | return none
    if ← atEnd then return none
    let attributes ← g.outerAttributes
    if ← seesDots then
      if ← seesName then
        let _ ← word
        sign ":"
      sign "..."
      let _ ← sign? ","
      return some (found ++ attributes, none)
    let argument ← g.functionArgument first
    if !(← atEnd) then sign ","
    return some (found ++ attributes ++ argument, some false)
  return found

/-- A function type. -/
def functionType (g : Readers o) : Parser o (Found o) := do
  let _ ← keyword? "unsafe"
  convention?
  keyword "fn"
  let inputs ← within .parenthesis g.functionArguments
  let output ← g.returnType false
  return inputs ++ (output.map (·.found)).getD []

/-! ## Constructs of the compiler -/

/-- A construct of the compiler comes next. -/
def seesBuiltin : Parser o Bool := do
  return (← sees (.keyword "builtin")) && (← sees2 (.sign "#"))

/-- A construct of the compiler, a type or an expression, which is not interpreted. -/
def builtin : Parser o Unit := do
  keyword "builtin"
  sign "#"
  let _ ← identifier
  within .parenthesis skipAll

/-! ## Bounds as types -/

/-- Bounds of which one must be a trait. -/
def objectBounds (g : Readers o) (plus : Bool) : Parser o (Found o) := do
  let bounds ← g.joinedBounds plus false false
  if !bounds.any (·.kind == .trait) then
    failWith "at least one trait is required for an object type"
  return foundIn bounds

/-- Further bounds behind plus signs. -/
def furtherBounds (g : Readers o) : Parser o (Found o) :=
  collect do
    if !(← sign? "+") then return none
    return some (← g.singleBound false false).found

/-- What parentheses hold. -/
inductive Inside where
  /-- A complete type with them. -/
  | complete
  /-- A bound. -/
  | bound
  /-- A type that may be the first of several bounds. -/
  | first
deriving DecidableEq

/-- The inside of parentheses. -/
def insideParentheses (g : Readers o) : Parser o (Inside × TypeExpression o) := do
  if ← atEnd then return (.complete, {})
  if ← sees .lifetime then
    return (.complete, { shape := .parenthesized, found := ← g.objectBounds true })
  if ← sees (.sign "?") then return (.bound, { found := (← g.traitBound false).found })
  let first ← g.type true
  if ← sign? "," then
    return (.complete, { found := first.found ++ (← separated "," g.typeFound) })
  return (.first, first)

/-- A type in parentheses, a tuple of types, or a bound in parentheses and further bounds. -/
def parenthesizedType (g : Readers o) (plus : Bool) : Parser o (TypeExpression o) := do
  let (inside, type) ← within .parenthesis g.insideParentheses
  let joins ← sees (.sign "+")
  match inside, type.shape with
  | .complete, _ => return type
  | .bound, _ =>
    return { shape := .bounds !joins, found := type.found ++ (← g.furtherBounds) }
  | .first, .path _ | .first, .bounds true =>
    if plus && joins then
      return { shape := .bounds false, found := type.found ++ (← g.furtherBounds) }
    return { shape := .parenthesized, found := type.found }
  | .first, _ => return { shape := .parenthesized, found := type.found }

/-! ## Any type -/

/-- What may begin a type. -/
def typeStarts : List Look :=
  [.keyword "for", .group .parenthesis, .keyword "fn", .keyword "unsafe", .keyword "extern",
    .identifier, .sign "::", .sign "<", .keyword "dyn", .group .bracket, .sign "*", .sign "&",
    .sign "!", .keyword "impl", .keyword "_", .lifetime]

/-- What may begin a type that is quantified. -/
def quantifiedStarts : List Look :=
  [.identifier, .keyword "fn", .keyword "unsafe", .keyword "extern", .keyword "super",
    .keyword "self", .keyword "Self", .keyword "crate"]

/-- What begins a path. -/
def pathStarts : List Look :=
  [.identifier, .keyword "super", .keyword "self", .keyword "Self", .keyword "crate",
    .sign "::", .sign "<"]

/-- What may begin a further bound behind a path. -/
def furtherStarts : List Look :=
  [.word, .sign "::", .sign "?", .lifetime, .group .parenthesis]

/-- A type that begins with a path. -/
def pathOrBounds (g : Readers o) (quantified : Option (Found o)) (plus : Bool) :
    Parser o (TypeExpression o) := do
  let p ← g.qualifiedPath false
  if p.qualified then return { found := p.found }
  if p.plain && (← seesBang) then return { found := [← invocation p] }
  if quantified.isNone && !(plus && (← sees (.sign "+"))) then
    return { shape := .path (p.segments.length == 1 && !p.leading), found := p.found }
  let start := quantified.getD [] ++ p.found
  if plus && (← sees (.sign "+")) then
    sign "+"
    let stop := do return !(← seesAny furtherStarts)
    let found ← joinedUntil stop "+" do return (← g.singleBound false false).found
    return { shape := .bounds false, found := start ++ found }
  return { shape := .bounds true, found := start }

/-- A pointer. -/
def pointerType (g : Readers o) : Parser o (Found o) := do
  sign "*"
  if !(← keyword? "const") then
    if ← sees (.keyword "mut") then keyword "mut"
    else failExpecting [.keyword "const", .keyword "mut"]
  g.typeFound false

/-- A reference. -/
def referenceType (g : Readers o) : Parser o (Found o) := do
  sign "&"
  let _ ← lifetime?
  let _ ← keyword? "mut"
  g.typeFound false

/-- An array or a slice. -/
def arrayType (g : Readers o) : Parser o (Found o) :=
  within .bracket do
    let element ← g.typeFound
    if ← sign? ";" then return element ++ (← g.expressionFound)
    return element

/-- Bounds behind the keyword of an unnamed type. -/
def unnamedType (g : Readers o) (plus : Bool) : Parser o (Found o) := do
  keyword "impl"
  let bounds ← g.joinedBounds plus true true
  if !bounds.any (fun b => b.kind == .trait || b.kind == .uninterpreted) then
    failWith "at least one trait must be specified"
  return foundIn bounds

/-- A type; `plus` allows bounds to be joined. -/
def typeExpression (g : Readers o) (plus : Bool) : Parser o (TypeExpression o) := do
  let quantified ← g.binder
  if quantified.isSome && !(← seesAny quantifiedStarts) then failExpecting quantifiedStarts
  if ← sees (.group .parenthesis) then g.parenthesizedType plus
  else if ← seesAny [.keyword "fn", .keyword "unsafe", .keyword "extern"] then
    return { found := quantified.getD [] ++ (← g.functionType) }
  else if ← seesBuiltin then
    builtin
    return {}
  else if ← seesAny pathStarts then g.pathOrBounds quantified plus
  else if ← keyword? "dyn" then
    let uninterpreted ← sign? "*"
    let found ← g.objectBounds plus
    return { found := if uninterpreted then [] else found }
  else if ← sees (.group .bracket) then return { found := ← g.arrayType }
  else if ← sees (.sign "*") then return { found := ← g.pointerType }
  else if ← sees (.sign "&") then return { found := ← g.referenceType }
  else if ← sign? "!" then return {}
  else if ← sees (.keyword "impl") then return { found := ← g.unnamedType plus }
  else if ← keyword? "_" then return {}
  else if ← sees .lifetime then return { shape := .bounds false, found := ← g.objectBounds true }
  else failExpecting typeStarts

end Readers

end EmbeddedSolidity.Grammar
