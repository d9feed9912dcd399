import EmbeddedSolidity.Grammar.Type
import EmbeddedSolidity.Source.Literal

/-!
# Patterns

The patterns of bindings, arguments and match arms.
-/

namespace EmbeddedSolidity.Grammar

open Grammar.Parser

variable {o : List Outline}

namespace Readers

/-! ## Ranges -/

/-- The dots of a range; `closed` if its end belongs to it. -/
structure Dots where
  closed : Bool

/-- The dots of a range. Three dots are refused. -/
def dots : Parser o Dots := do
  if ← sign? "..=" then return ⟨true⟩
  if (← sees (.sign "..")) && !(← sees (.sign "...")) then
    sign ".."
    return ⟨false⟩
  if ← sees (.sign "..") then failExpecting [.sign "..", .sign "..="]
  failExpecting [.sign ".."]

/-- The dots of a range; three dots are the old spelling of a closed one. -/
def oldDots : Parser o Dots := do
  if ← sign? "..=" then return ⟨true⟩
  if ← sign? "..." then return ⟨true⟩
  if ← sign? ".." then return ⟨false⟩
  failExpecting [.sign ".."]

/-- What ends a range pattern that has no end. -/
def seesNoEnd : Parser o Bool := do
  return (← atEnd) || (← seesAny [.sign "|", .sign "=", .sign ",", .sign ";", .keyword "if"]) ||
    (← seesColon)

/-- What may be an end of a range pattern. -/
def endStarts : List Look :=
  [.literal, .identifier, .sign "::", .sign "<", .keyword "self", .keyword "Self",
    .keyword "super", .keyword "crate", .keyword "const"]

/-- The keyword of a constant and its block. -/
def constantBlock (g : Readers o) : Parser o (Found o) := do
  keyword "const"
  let (attributes, statements) ← g.body
  return attributes ++ statements

/-- The end of a range pattern, if there is one. -/
def rangeEnd (g : Readers o) : Parser o (Option (Found o)) := do
  if ← seesNoEnd then return none
  if ← sees .literal then
    literal
    return some []
  if ← seesAny [.identifier, .sign "::", .sign "<", .keyword "self", .keyword "Self",
      .keyword "super", .keyword "crate"] then
    return some (← g.qualifiedPath true).found
  if ← sees (.keyword "const") then return some (← g.constantBlock)
  failExpecting endStarts

/-- The dots and the end of a range pattern behind its start. -/
def rangeFrom (g : Readers o) (start : Found o) : Parser o (Pattern o) := do
  let dots ← oldDots
  match ← g.rangeEnd with
  | some last => return { found := start ++ last }
  | none =>
    if dots.closed then fail "expected range upper bound"
    return { shape := .openRange, found := start }

/-- A range pattern without a start, or two dots alone. -/
def rangeTo (g : Readers o) : Parser o (Pattern o) := do
  let dots ← dots
  match ← g.rangeEnd with
  | some last => return { shape := .openRange, found := last }
  | none =>
    if dots.closed then fail "expected range upper bound"
    return { shape := .rest }

/-- A literal, a constant block, or a range that begins with one. -/
def valuePattern (g : Readers o) : Parser o (Pattern o) := do
  let start := (← g.rangeEnd).getD []
  if ← sees (.sign "..") then g.rangeFrom start
  else return { found := start }

/-! ## Alternatives -/

/-- A bar comes next that separates alternatives. -/
def seesBar : Parser o Bool := do
  return (← sees (.sign "|")) && !(← sees (.sign "||")) && !(← sees (.sign "|="))

/-- Patterns with bars between them, perhaps with one in front. -/
def alternatives (g : Readers o) : Parser o (Pattern o) := do
  let leading ← sign? "|"
  let first ← g.pattern
  if !leading && !(← seesBar) then return first
  let further ← collect do
    if !(← seesBar) then return none
    sign "|"
    return some (← g.pattern).found
  return { found := first.found ++ further }

/-- The invocations in alternatives. -/
def alternativesFound (g : Readers o) : Parser o (Found o) := do
  return (← g.alternatives).found

/-! ## Structures, tuples and slices -/

/-- The position of a field. -/
def position : Parser o Unit := do
  if !(← sees .integer) then fail "expected integer literal"
  let negative ← sign? "-"
  match Source.indexFault? negative (← number) with
  | some fault => failWith fault
  | none => return

/-- The name or the position of a field; says whether it is a name. -/
def member : Parser o Bool := do
  if ← sees .identifier then
    let _ ← identifier
    return true
  if ← sees .integer then
    position
    return false
  fail "expected identifier or integer"

/-- A field of a structure pattern. With a keyword in front the field is also the binding. -/
def fieldPattern (g : Readers o) : Parser o (Found o) := do
  let boxed ← keyword? "box"
  let byRef ← keyword? "ref"
  let mutable ← keyword? "mut"
  let marked := boxed || byRef || mutable
  if marked then
    let _ ← identifier
    return []
  let named ← member
  if !named || (← sees (.sign ":")) then
    sign ":"
    g.alternativesFound
  else return []

/-- The fields of a structure pattern. Two dots stand for the fields that are not named. -/
def structurePattern (g : Readers o) : Parser o (Found o) :=
  within .brace do
    let (found, _) ← (extend · (([] : Found o), true)) fun (found, more) => do
      if !more || (← atEnd) then return none
      let attributes ← g.outerAttributes
      if ← sign? ".." then return some (found ++ attributes, false)
      let field ← g.fieldPattern
      if !(← atEnd) then sign ","
      return some (found ++ attributes ++ field, true)
    return found

/-- The elements of a pattern in parentheses behind a path. -/
def tuplePattern (g : Readers o) : Parser o (Found o) :=
  within .parenthesis (separated "," g.alternativesFound)

/-- A pattern in parentheses, or a tuple of patterns. -/
def parenthesizedPattern (g : Readers o) : Parser o (Pattern o) := do
  return { found := ← g.tuplePattern }

/-- The elements of a slice pattern. A range without one of its ends needs parentheses. -/
def slicePattern (g : Readers o) : Parser o (Found o) :=
  within .bracket do
    separated "," do
      let element ← g.alternatives
      if element.shape == .openRange then
        failWith "range pattern is not allowed unparenthesized inside slice pattern"
      return element.found

/-! ## Any pattern -/

/-- A pattern that begins with a path: an invocation, a structure, a tuple, a range or the path
itself. -/
def pathPattern (g : Readers o) : Parser o (Pattern o) := do
  let p ← g.qualifiedPath true
  if !p.qualified && p.plain && (← seesBang) then return { found := [← invocation p] }
  if ← sees (.group .brace) then return { found := p.found ++ (← g.structurePattern) }
  if ← sees (.group .parenthesis) then return { found := p.found ++ (← g.tuplePattern) }
  if ← sees (.sign "..") then g.rangeFrom p.found
  else return { found := p.found }

/-- A binding, perhaps with a pattern that its value must match. -/
def bindingPattern (g : Readers o) : Parser o (Pattern o) := do
  let _ ← keyword? "ref"
  let _ ← keyword? "mut"
  let _ ← if ← sees (.keyword "self") then word else identifier
  if ← sign? "@" then return { found := (← g.pattern).found }
  return {}

/-- A reference pattern. -/
def referencePattern (g : Readers o) : Parser o (Pattern o) := do
  sign "&"
  let _ ← keyword? "mut"
  return { found := (← g.pattern).found }

/-- What begins a pattern with a path, next to an identifier with certain signs behind it. -/
def seesPathPattern : Parser o Bool := do
  if ← sees .identifier then
    if (← sees2 (.sign "::")) || (← sees2 (.sign "!")) || (← sees2 (.group .brace)) ||
        (← sees2 (.group .parenthesis)) || (← sees2 (.sign "..")) then
      return true
  if (← sees (.keyword "self")) && (← sees2 (.sign "::")) then return true
  seesAny [.sign "::", .sign "<", .keyword "Self", .keyword "super", .keyword "crate"]

/-- What may begin a pattern. -/
def patternStarts : List Look :=
  [.identifier, .sign "::", .sign "<", .keyword "_", .literal, .keyword "const", .keyword "ref",
    .keyword "mut", .sign "&", .group .parenthesis, .group .bracket, .sign "..",
    .keyword "const"]

/-- A pattern without alternatives. -/
def singlePattern (g : Readers o) : Parser o (Pattern o) := do
  if ← seesPathPattern then g.pathPattern
  else if ← keyword? "_" then return {}
  else if ← keyword? "box" then
    let _ ← g.pattern
    return { takesAttributes := false }
  else if ← seesAny [.sign "-", .literal, .keyword "const"] then g.valuePattern
  else if ← seesAny [.keyword "ref", .keyword "mut", .keyword "self", .identifier] then
    g.bindingPattern
  else if ← sees (.sign "&") then g.referencePattern
  else if ← sees (.group .parenthesis) then g.parenthesizedPattern
  else if ← sees (.group .bracket) then return { found := ← g.slicePattern }
  else if (← sees (.sign "..")) && !(← sees (.sign "...")) then g.rangeTo
  else failExpecting patternStarts

end Readers

end EmbeddedSolidity.Grammar
