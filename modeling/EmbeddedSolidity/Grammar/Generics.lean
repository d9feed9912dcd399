import EmbeddedSolidity.Grammar.Path

/-!
# Generic parameters and bounds

The parameters of a definition in angle brackets, the bounds that restrict a type, and the
clause that bounds further types.
-/

namespace EmbeddedSolidity.Grammar

open Grammar.Parser

variable {o : List Outline}

/-- The angle bracket that comes next begins parameters, not a self type. -/
def seesParameters : Parser o Bool := do
  if !(← sees (.sign "<")) then return false
  let named := (← sees2 .lifetime) || (← sees2 .identifier)
  let ends := (← sees3 (.sign ">")) || (← sees3 (.sign ",")) ||
    ((← sees3 (.sign ":")) && !(← sees3 (.sign "::"))) || (← sees3 (.sign "="))
  return (← sees2 (.sign ">")) || (← sees2 (.sign "#")) || (named && ends) ||
    (← sees2 (.keyword "const"))

/-- A keyword comes next, and parameters behind it. -/
def seesBinder : Parser o Bool := do
  if ← sees (.keyword "for") then
    ahead do
      keyword "for"
      seesParameters
  else
    return false

/-- A single colon comes next. -/
def seesColon : Parser o Bool := do
  return (← sees (.sign ":")) && !(← sees (.sign "::"))

namespace Readers

/-! ## Parameters -/

/-- A lifetime parameter with the lifetimes it outlives. -/
def lifetimeParameter (g : Readers o) : Parser o (Found o) := do
  let attributes ← g.outerAttributes
  lifetime
  if ← sign? ":" then
    let stop := do return (← atEnd) || (← seesAny [.sign ",", .sign ">"])
    let _ ← joinedUntil stop "+" (do lifetime; return ([] : Found o))
  return attributes

/-- A type parameter with its bounds and its default. -/
def typeParameter (g : Readers o) : Parser o (Found o) := do
  let attributes ← g.outerAttributes
  let _ ← identifier
  let bounds ←
    if ← sign? ":" then
      let stop := do return (← atEnd) || (← seesAny [.sign ",", .sign ">", .sign "="])
      joinedUntil stop "+" do return (← g.bound false true).found
    else pure []
  let default ← if ← sign? "=" then g.typeFound else pure []
  return attributes ++ bounds ++ default

/-- A constant parameter with its type and its default. -/
def constantParameter (g : Readers o) : Parser o (Found o) := do
  let attributes ← g.outerAttributes
  keyword "const"
  let _ ← identifier
  sign ":"
  let type ← g.typeFound
  let default ← if ← sign? "=" then g.constantArgument else pure []
  return attributes ++ type ++ default

/-- A parameter of a definition. -/
def parameter (g : Readers o) : Parser o (Found o) := do
  let attributes ← g.outerAttributes
  if ← sees .lifetime then return attributes ++ (← g.lifetimeParameter)
  if ← sees .identifier then return attributes ++ (← g.typeParameter)
  if ← sees (.keyword "const") then return attributes ++ (← g.constantParameter)
  if ← sees (.keyword "_") then
    let _ ← word
    return attributes
  failExpecting [.lifetime, .identifier, .keyword "const"]

/-- The parameters of a definition, if it has any. -/
def parameters (g : Readers o) : Parser o (Option (Found o)) := do
  if !(← sign? "<") then return none
  let found ← separatedUntil (sees (.sign ">")) "," g.parameter
  sign ">"
  return some found

/-- A parameter that a type is quantified over. -/
def boundParameter (g : Readers o) : Parser o (Found o) := do
  let attributes ← g.outerAttributes
  if ← sees .identifier then return attributes ++ (← g.typeParameter)
  if ← sees .lifetime then return attributes ++ (← g.lifetimeParameter)
  if ← sees (.keyword "const") then return attributes ++ (← g.constantParameter)
  failExpecting [.identifier, .lifetime, .keyword "const"]

/-- The parameters that a type is quantified over, if there are any. -/
def binder (g : Readers o) : Parser o (Option (Found o)) := do
  if !(← keyword? "for") then return none
  sign "<"
  let found ← separatedUntil (sees (.sign ">")) "," g.boundParameter
  sign ">"
  return some found

/-! ## Bounds -/

/-- The parameters that a type captures, between angle brackets. -/
def capturedParameters : Parser o Unit := do
  keyword "use"
  sign "<"
  let _ ← collect do
    if ← seesAny [.lifetime, .identifier, .keyword "Self"] then
      if !(← lifetime?) then
        let _ ← word
      if ← sees (.sign ",") then sign ","
      else if !(← sees (.sign ">")) then failExpecting [.sign ",", .sign ">"]
      return some ([] : Found o)
    else if ← sees (.sign ">") then return none
    else failExpecting [.lifetime, .identifier, .sign ">"]
  sign ">"

/-- The bound by a trait: it may be quantified, constant and optional, and its path may have
arguments in parentheses. A constant bound is accepted without being interpreted. -/
def traitBound (g : Readers o) (constant : Bool) : Parser o (Bound o) := do
  let quantified ← g.binder
  let inBrackets ← sees (.group .bracket)
  let isConstant ← sees (.keyword "const")
  if inBrackets then
    within .bracket (keyword "const")
    if !constant then failWith "\x60[const]\x60 is not allowed here"
  else if isConstant then
    keyword "const"
    if !constant then failWith "\x60const\x60 is not allowed here"
  let optional ← sign? "?"
  let early := quantified.isSome
  let quantified ← if !early && optional then g.binder else pure quantified
  let p ← g.path false
  let arguments ← if p.bare && (← seesApplication) then g.application else pure []
  if quantified.isSome && optional then
    failWith "\x60for<...>\x60 binder not allowed with \x60?\x60 trait polarity modifier"
  if inBrackets || isConstant then return { kind := .uninterpreted }
  return { kind := .trait, found := quantified.getD [] ++ p.found ++ arguments }

/-- A single bound. -/
def singleBound (g : Readers o) (capture constant : Bool) : Parser o (Bound o) := do
  if ← sees .lifetime then
    lifetime
    return { kind := .lifetime }
  if ← sees (.keyword "use") then
    capturedParameters
    if !capture then
      failWith "\x60use<...>\x60 precise capturing syntax is not allowed here"
    return { kind := .captured }
  if ← sees (.group .parenthesis) then within .parenthesis (g.traitBound constant)
  else g.traitBound constant

/-- What may begin a further bound. -/
def boundStarts : List Look :=
  [.word, .sign "::", .sign "?", .lifetime, .group .parenthesis]

/-- Bounds joined by plus signs. -/
def joinedBounds (g : Readers o) (plus capture constant : Bool) : Parser o (List (Bound o)) := do
  let stop : Parser o Bool := do
    return !((← seesAny boundStarts) ||
      (constant && (← seesAny [.group .bracket, .keyword "const"])))
  let first ← g.singleBound capture constant
  if !plus then return [first]
  if !(← sign? "+") then return [first]
  return first :: (← joinedUntil stop "+" do return [← g.singleBound capture constant])

/-- The bounds in a list of bounds that name traits. -/
def foundIn (bounds : List (Bound o)) : Found o :=
  bounds.flatMap (·.found)

/-- The bounds behind a colon, up to a stop. -/
def boundsUntil (g : Readers o) (stop : Parser o Bool) (constant : Bool) : Parser o (Found o) :=
  separatedUntil stop "+" do return (← g.singleBound false constant).found

/-! ## Where clauses -/

/-- What ends a clause or the bounds in it. -/
def seesClauseEnd : Parser o Bool := do
  return (← atEnd) || (← seesAny [.group .brace, .sign ",", .sign ";", .sign "="]) ||
    (← seesColon)

/-- One bounded lifetime or type of a clause. -/
def predicate (g : Readers o) : Parser o (Found o) := do
  if (← sees .lifetime) && (← sees2 (.sign ":")) then
    lifetime
    sign ":"
    let stop := do return (← seesClauseEnd) || (← sees (.sign ":"))
    joinedUntil stop "+" do
      lifetime
      return []
  else
    let quantified ← g.binder
    let type ← g.typeFound
    sign ":"
    let bounds ← joinedUntil seesClauseEnd "+" do return (← g.singleBound false true).found
    return quantified.getD [] ++ type ++ bounds

/-- A clause that bounds types, if there is one. -/
def whereClause (g : Readers o) : Parser o (Option (Found o)) := do
  if !(← keyword? "where") then return none
  if ← seesParameters then
    fail "generic parameters on \x60where\x60 clauses are reserved for future use"
  return some (← joinedUntil seesClauseEnd "," g.predicate)

end Readers

end EmbeddedSolidity.Grammar
