import EmbeddedSolidity.Grammar.Statement

/-!
# Items

Functions, types, constants, modules, traits, implementations and foreign blocks. Some forms are
accepted without being interpreted; nothing is found in them.

The clause that bounds types is visited with the parameters, wherever it is written.
-/

namespace EmbeddedSolidity.Grammar

open Grammar.Parser

variable {o : List Outline}

/-- Something that is found unless it is not interpreted. -/
def unlessUninterpreted (uninterpreted : Bool) (found : Found o) : Found o :=
  if uninterpreted then [] else found

/-! ## Visibility -/

/-- The visibility in front of an item; says whether there is one. It may be restricted to a
module in parentheses, which are read only if they hold nothing else. -/
def visibility : Parser o Bool := do
  if !(← keyword? "pub") then return false
  let named ← attempt <| ahead <| within .parenthesis (sees (.keyword "in"))
  if named == some true then
    within .parenthesis do
      keyword "in"
      let _ ← plainPath
  else
    let _ ← attempt <| within .parenthesis do
      if ← seesAny [.keyword "crate", .keyword "self", .keyword "super"] then
        let _ ← word
      else failWith ""
      if !(← atEnd) then failWith ""
  return true

/-- Look ahead behind the visibility. -/
def behindVisibility {α : Type} (p : Parser o α) : Parser o α :=
  ahead do
    let _ ← visibility
    p

namespace Readers

/-! ## Functions -/

/-- A function begins here, with any of the keywords that may stand in front of it. `safe`
allows the word that marks a foreign function as safe. -/
def seesFunction (safe : Bool) : Parser o Bool := do
  let found ← attempt <| ahead do
    let _ ← keyword? "const"
    let _ ← keyword? "async"
    if safe && (← sees (.keyword "safe")) then keyword "safe"
    else
      let _ ← keyword? "unsafe"
    convention?
    sees (.keyword "fn")
  return found == some true

/-- The receiver of a method comes next: the word for it, perhaps as a reference or mutable,
unless a path begins with it. -/
def seesReceiver : Parser o Bool :=
  ahead do
    if ← sign? "&" then
      let _ ← lifetime?
    let _ ← keyword? "mut"
    return (← sees (.keyword "self")) && !(← sees2 (.sign "::"))

/-- The receiver of a method, perhaps with its type. -/
def receiver (g : Readers o) : Parser o (Found o) := do
  let reference ← sign? "&"
  if reference then
    let _ ← lifetime?
  let _ ← keyword? "mut"
  keyword "self"
  if reference then return []
  if ← sign? ":" then g.typeFound else return []

/-- What the arguments of a function begin with. -/
structure Arguments (o : List Outline) where
  found : Found o := []
  count : Nat := 0
  received : Bool := false
  more : Bool := true

/-- The arguments of a function. A receiver can only be the first; three dots, perhaps behind a
pattern, end the arguments. -/
def arguments (g : Readers o) : Parser o (Found o) := do
  let read ← (extend · ({} : Arguments o)) fun a => do
    if !a.more || (← atEnd) then return none
    let attributes ← g.outerAttributes
    let comma : Parser o Unit := do
      if !(← atEnd) then sign ","
    if ← sign? "..." then
      comma
      return some { a with found := a.found ++ attributes, more := false }
    if ← seesReceiver then
      let type ← g.receiver
      if a.received then failWith "unexpected second method receiver"
      if a.count != 0 then failWith "unexpected method receiver"
      comma
      return some { found := a.found ++ attributes ++ type, count := 1, received := true }
    if (← sees .identifier) && (← sees2 (.sign "<")) then
      let type ← g.typeFound
      comma
      return some { a with found := a.found ++ attributes ++ type, count := a.count + 1 }
    let pattern ← g.pattern
    sign ":"
    let front := a.found ++ attributes ++ pattern.found
    if ← sign? "..." then
      comma
      return some { a with found := front, more := false }
    let type ← g.typeFound
    comma
    return some { a with found := front ++ type, count := a.count + 1 }
  return read.found

/-- The head of a function. -/
def signature (g : Readers o) (safe : Bool) : Parser o (Found o) := do
  let _ ← keyword? "const"
  let _ ← keyword? "async"
  let isUnsafe ← keyword? "unsafe"
  if safe && !isUnsafe then
    let _ ← keyword? "safe"
  convention?
  keyword "fn"
  let _ ← identifier
  let parameters ← g.parameters
  let inputs ← within .parenthesis g.arguments
  let output ← g.returnType true
  let bounded ← g.whereClause
  return parameters.getD [] ++ bounded.getD [] ++ inputs ++ (output.map (·.found)).getD []

/-- A function; without a body it is not interpreted. -/
def function (g : Readers o) (attributes : Found o) : Parser o (Found o) := do
  let _ ← visibility
  let head ← g.signature false
  if ← sign? ";" then return []
  let (inner, statements) ← g.body
  return attributes ++ inner ++ head ++ statements

/-! ## Types by name -/

/-- What a type definition leads to. -/
structure TypeDefinition (o : List Outline) where
  parameters : Found o
  bounds : Found o
  bounded : Bool
  definition : Option (Found o)

/-- A type definition behind its visibility. Depending on where it stands, a clause may come
before the equals sign, behind the type, or at either place. -/
def typeDefinition (g : Readers o) (clauseBefore clauseAfter : Bool) :
    Parser o (TypeDefinition o) := do
  keyword "type"
  let _ ← identifier
  let parameters ← g.parameters
  let bounded ← sign? ":"
  let bounds ←
    if bounded then
      g.boundsUntil (seesAny [.keyword "where", .sign "=", .sign ";"]) true
    else pure []
  let before ← if clauseBefore then g.whereClause else pure none
  let definition ← if ← sign? "=" then some <$> g.typeFound else pure none
  let after ← if clauseAfter && before.isNone then g.whereClause else pure none
  sign ";"
  return { parameters := parameters.getD [] ++ (before.or after).getD [], bounds, bounded, definition }

/-- A name for a type. With bounds or without a type it is not interpreted. -/
def typeItem (g : Readers o) (attributes : Found o) : Parser o (Found o) := do
  let _ ← visibility
  let t ← g.typeDefinition true false
  match t.definition, t.bounded with
  | some type, false => return attributes ++ t.parameters ++ type
  | _, _ => return []

/-! ## Constants and variables -/

/-- A constant behind its visibility. With parameters or a clause it is not interpreted, nor
without a value if it needs one. -/
def constant (g : Readers o) (attributes : Found o) (needsValue : Bool) : Parser o (Found o) := do
  keyword "const"
  if ← seesName then
    let _ ← word
  else failExpecting [.identifier, .keyword "_"]
  let parameters ← g.parameters
  sign ":"
  let type ← g.typeFound
  let value ← if ← sign? "=" then some <$> g.expressionFound else pure none
  let bounded ← g.whereClause
  sign ";"
  let plain := parameters.isNone && bounded.isNone && (value.isSome || !needsValue)
  return if plain then attributes ++ type ++ value.getD [] else []

/-- A static variable. Without a type or without a value it is not interpreted. -/
def staticItem (g : Readers o) (attributes : Found o) : Parser o (Found o) := do
  let _ ← visibility
  keyword "static"
  let _ ← keyword? "mut"
  let _ ← identifier
  if ← sign? "=" then
    let _ ← g.expression
    sign ";"
    return []
  sign ":"
  let type ← g.typeFound
  if ← sign? ";" then return []
  sign "="
  let value ← g.expressionFound
  sign ";"
  return attributes ++ type ++ value

/-! ## Structures, unions and enumerations -/

/-- Fields with names, in braces. A field without a name may hold fields of its own. -/
def namedFieldsFrom (g : Readers o) : Nat → Parser o (Found o)
  | 0 => failWith "nested too deeply"
  | n + 1 =>
    within .brace <| separated "," do
      let attributes ← g.outerAttributes
      let _ ← visibility
      let unnamed ← sees (.keyword "_")
      let _ ← if unnamed then word else identifier
      sign ":"
      let nested ← do
        if !unnamed then pure false
        else if ← sees (.keyword "struct") then pure true
        else pure ((← sees (.keyword "union")) && (← sees2 (.group .brace)))
      if nested then
        let _ ← word
        let _ ← namedFieldsFrom g n
        return attributes
      return attributes ++ (← g.typeFound)

/-- Fields with names, in braces. -/
def namedFields (g : Readers o) : Parser o (Found o) := do
  namedFieldsFrom g (outlineSizes (← rest) + 1)

/-- Fields without names, in parentheses. -/
def unnamedFields (g : Readers o) : Parser o (Found o) :=
  within .parenthesis <| separated "," do
    let attributes ← g.outerAttributes
    let _ ← visibility
    return attributes ++ (← g.typeFound)

/-- A structure. Behind fields in parentheses a clause may follow. -/
def structureItem (g : Readers o) (attributes : Found o) : Parser o (Found o) := do
  let _ ← visibility
  keyword "struct"
  let _ ← identifier
  let parameters := (← g.parameters).getD []
  let front := attributes ++ parameters
  let before ← g.whereClause
  if before.isNone && (← sees (.group .parenthesis)) then
    let fields ← g.unnamedFields
    let after ← g.whereClause
    if ← sign? ";" then return front ++ after.getD [] ++ fields
    failExpecting (if after.isSome then [.sign ";"] else [.keyword "where", .sign ";"])
  let front := front ++ before.getD []
  if ← sees (.group .brace) then return front ++ (← g.namedFields)
  if ← sign? ";" then return front
  failExpecting ((if before.isSome then [] else [.keyword "where", .group .parenthesis]) ++
    [.group .brace, .sign ";"])

/-- A variant of an enumeration. -/
def variant (g : Readers o) : Parser o (Found o) := do
  let attributes ← g.outerAttributes
  let _ ← visibility
  let _ ← identifier
  let fields ←
    if ← sees (.group .brace) then g.namedFields
    else if ← sees (.group .parenthesis) then g.unnamedFields
    else pure []
  let value ← if ← sign? "=" then g.expressionFound else pure []
  return attributes ++ fields ++ value

/-- An enumeration. -/
def enumeration (g : Readers o) (attributes : Found o) : Parser o (Found o) := do
  let _ ← visibility
  keyword "enum"
  let _ ← identifier
  let parameters := (← g.parameters).getD []
  let bounded := (← g.whereClause).getD []
  return attributes ++ parameters ++ bounded ++ (← within .brace (separated "," g.variant))

/-- A union. -/
def unionItem (g : Readers o) (attributes : Found o) : Parser o (Found o) := do
  let _ ← visibility
  keyword "union"
  let _ ← identifier
  let parameters := (← g.parameters).getD []
  let bounded := (← g.whereClause).getD []
  return attributes ++ parameters ++ bounded ++ (← g.namedFields)

/-! ## Imports -/

/-- The tree of an import. `roots` allows a branch to begin with the joining sign; an import
with such a branch is not interpreted, and the result says whether there is one. -/
def importTree : Nat → Bool → Parser o Bool
  | 0, _ => failWith "nested too deeply"
  | n + 1, roots => do
    if ← seesAny [.identifier, .keyword "self", .keyword "super", .keyword "crate",
        .keyword "try"] then
      let _ ← word
      if ← sign? "::" then
        let _ ← importTree n false
        return false
      if ← keyword? "as" then
        if ← sees .identifier then
          let _ ← identifier
        else if ← sees (.keyword "_") then underscore
        else fail "expected identifier or underscore"
      return false
    if ← sign? "*" then return false
    if ← sees (.group .brace) then
      let branches ← within .brace <| separated "," do
        let root ← if roots then sign? "::" else pure false
        let inner ← importTree n (roots && !root)
        return [root || inner]
      return branches.any id
    failExpecting [.identifier, .keyword "self", .keyword "super", .keyword "crate",
      .keyword "try", .sign "*", .group .brace]

/-- An import. -/
def importItem (attributes : Found o) : Parser o (Found o) := do
  let _ ← visibility
  keyword "use"
  let leading ← sign? "::"
  let uninterpreted ← importTree (outlineSizes (← rest) + 1) (!leading)
  sign ";"
  return unlessUninterpreted uninterpreted attributes

/-- The import of a library by its name. -/
def libraryItem (attributes : Found o) : Parser o (Found o) := do
  let _ ← visibility
  keyword "extern"
  keyword "crate"
  let _ ← if ← sees (.keyword "self") then word else identifier
  if ← keyword? "as" then
    let _ ← if ← sees (.keyword "_") then word else identifier
  sign ";"
  return attributes

/-! ## Invocations as items -/

/-- An invocation as an item; it needs a semicolon unless it ends in braces. `named` allows a
name in front of the group. -/
def invocationItem (attributes : Found o) (named : Bool) : Parser o (Found o) := do
  let p ← plainPath
  sign "!"
  if named then
    if ← seesAny [.identifier, .keyword "try"] then
      let _ ← word
  let (delimiter, body) ← anyGroup
  if delimiter != .brace then sign ";"
  return attributes ++ [p.invocation delimiter body]

/-- A definition of a macro by keyword, which is not interpreted. -/
def macroDefinition : Parser o (Found o) := do
  let _ ← visibility
  keyword "macro"
  let _ ← identifier
  let inputs ← sees (.group .parenthesis)
  if inputs then within .parenthesis skipAll
  if ← sees (.group .brace) then
    within .brace skipAll
    return []
  failExpecting ((if inputs then [] else [.group .parenthesis]) ++ [.group .brace])

/-- What may begin an invocation as an item. -/
def invocationStarts : List Look :=
  [.identifier, .keyword "self", .keyword "super", .keyword "crate", .sign "::"]

/-! ## Foreign blocks -/

/-- A function of a foreign block. With a body or marked safe it is not interpreted. -/
def foreignFunction (g : Readers o) (attributes : Found o) : Parser o (Found o) := do
  let _ ← visibility
  let safe ← attempt <| ahead do
    let _ ← keyword? "const"
    let _ ← keyword? "async"
    keyword "safe"
  let head ← g.signature true
  if ← sees (.group .brace) then
    let _ ← g.body
    return []
  sign ";"
  return unlessUninterpreted safe.isSome (attributes ++ head)

/-- A variable of a foreign block. With a value or marked it is not interpreted. -/
def foreignStatic (g : Readers o) (attributes : Found o) : Parser o (Found o) := do
  let _ ← visibility
  let isUnsafe ← keyword? "unsafe"
  let marked ← if isUnsafe then pure true else keyword? "safe"
  keyword "static"
  let _ ← keyword? "mut"
  let _ ← identifier
  sign ":"
  let type ← g.typeFound
  let hasValue ← sign? "="
  if hasValue then
    let _ ← g.expression
  sign ";"
  return unlessUninterpreted (marked || hasValue) (attributes ++ type)

/-- A type of a foreign block. With bounds or a definition it is not interpreted. -/
def foreignType (g : Readers o) (attributes : Found o) : Parser o (Found o) := do
  let _ ← visibility
  let t ← g.typeDefinition true true
  return unlessUninterpreted (t.bounded || t.definition.isSome) (attributes ++ t.parameters)

/-- A variable of a foreign block comes next, perhaps with a mark in front. -/
def seesForeignStatic : Parser o Bool := do
  return (← sees (.keyword "static")) ||
    ((← seesAny [.keyword "unsafe", .keyword "safe"]) && (← sees2 (.keyword "static")))

/-- An item of a foreign block. -/
def foreignItem (g : Readers o) : Parser o (Found o) := do
  let attributes ← g.outerAttributes
  let isPublic ← ahead visibility
  if ← behindVisibility (seesFunction true) then g.foreignFunction attributes
  else if ← behindVisibility seesForeignStatic then g.foreignStatic attributes
  else if ← behindVisibility (sees (.keyword "type")) then g.foreignType attributes
  else if !isPublic && (← seesAny invocationStarts) then invocationItem attributes false
  else
    behindVisibility <| failExpecting ([.keyword "fn", .keyword "static", .keyword "type"] ++
      if isPublic then [] else invocationStarts)

/-- A foreign block. -/
def foreignBlock (g : Readers o) (attributes : Found o) : Parser o (Found o) := do
  let _ ← keyword? "unsafe"
  convention
  within .brace do
    let inner ← g.innerAttributes
    return attributes ++ inner ++ (← toEnd g.foreignItem)

/-! ## Modules -/

/-- A module, with its items or in a file of its own. -/
def moduleItem (g : Readers o) (attributes : Found o) : Parser o (Found o) := do
  let _ ← visibility
  let _ ← keyword? "unsafe"
  keyword "mod"
  let _ ← if ← sees (.keyword "try") then word else identifier
  if ← sign? ";" then return attributes
  if ← sees (.group .brace) then
    within .brace do
      let inner ← g.innerAttributes
      return attributes ++ inner ++ (← toEnd g.item)
  else failExpecting [.sign ";", .group .brace]

/-! ## Traits -/

/-- A function of a trait, which may do without a body. -/
def traitFunction (g : Readers o) (attributes : Found o) : Parser o (Found o) := do
  let head ← g.signature false
  if ← sees (.group .brace) then
    let (inner, statements) ← g.body
    return attributes ++ inner ++ head ++ statements
  if ← sign? ";" then return attributes ++ head
  failExpecting [.group .brace, .sign ";"]

/-- A type of a trait. -/
def traitType (g : Readers o) (attributes : Found o) : Parser o (Found o) := do
  let t ← g.typeDefinition false true
  return attributes ++ t.parameters ++ t.bounds ++ t.definition.getD []

/-- An item of a trait. With a visibility or marked as a default it is not interpreted. -/
def traitItem (g : Readers o) : Parser o (Found o) := do
  let attributes ← g.outerAttributes
  let isPublic ← visibility
  let isDefault ← keyword? "default"
  let marked := isPublic || isDefault
  let found ←
    if ← seesFunction false then g.traitFunction attributes
    else if ← sees (.keyword "const") then
      if (← sees2 .identifier) || (← sees2 (.keyword "_")) then
        g.constant attributes false
      else if (← sees2 (.keyword "async")) || (← sees2 (.keyword "unsafe")) ||
          (← sees2 (.keyword "extern")) || (← sees2 (.keyword "fn")) then
        g.traitFunction attributes
      else
        keyword "const"
        failExpecting [.identifier, .keyword "_", .keyword "async", .keyword "unsafe",
          .keyword "extern", .keyword "fn"]
    else if ← sees (.keyword "type") then g.traitType attributes
    else if !marked && (← seesAny invocationStarts) then
      invocationItem attributes false
    else
      failExpecting ([.keyword "fn", .keyword "const", .keyword "type"] ++
        if marked then [] else invocationStarts)
  return unlessUninterpreted marked found

/-- The rest of a trait behind its name and parameters. -/
def traitRest (g : Readers o) (attributes parameters : Found o) : Parser o (Found o) := do
  let super ←
    if ← sign? ":" then g.boundsUntil (seesAny [.keyword "where", .group .brace]) true
    else pure []
  let bounded := (← g.whereClause).getD []
  within .brace do
    let inner ← g.innerAttributes
    return attributes ++ inner ++ parameters ++ bounded ++ super ++ (← toEnd g.traitItem)

/-- A trait with keywords in front of it. -/
def markedTrait (g : Readers o) (attributes : Found o) : Parser o (Found o) := do
  let _ ← visibility
  let _ ← keyword? "unsafe"
  let _ ← keyword? "auto"
  keyword "trait"
  let _ ← identifier
  let parameters := (← g.parameters).getD []
  g.traitRest attributes parameters

/-- A trait, or a name for bounds. -/
def traitOrAlias (g : Readers o) (attributes : Found o) : Parser o (Found o) := do
  let _ ← visibility
  keyword "trait"
  let _ ← identifier
  let parameters := (← g.parameters).getD []
  if ← seesAny [.group .brace, .sign ":", .keyword "where"] then
    g.traitRest attributes parameters
  else if ← sign? "=" then
    let bounds ← g.boundsUntil (seesAny [.keyword "where", .sign ";"]) false
    let bounded := (← g.whereClause).getD []
    sign ";"
    return attributes ++ parameters ++ bounded ++ bounds
  else failExpecting [.group .brace, .sign ":", .keyword "where", .sign "="]

/-! ## Implementations -/

/-- A function of an implementation; without a body it is not interpreted. -/
def implFunction (g : Readers o) (attributes : Found o) : Parser o (Found o) := do
  let _ ← visibility
  let _ ← keyword? "default"
  let head ← g.signature false
  if ← sign? ";" then return []
  let (inner, statements) ← g.body
  return attributes ++ inner ++ head ++ statements

/-- A type of an implementation. With bounds or without a definition it is not interpreted. -/
def implType (g : Readers o) (attributes : Found o) : Parser o (Found o) := do
  let _ ← visibility
  let _ ← keyword? "default"
  let t ← g.typeDefinition false true
  match t.definition, t.bounded with
  | some type, false => return attributes ++ t.parameters ++ type
  | _, _ => return []

/-- The visibility in front of an item of an implementation, and the mark of a default; says
whether there is any. -/
def implMarks : Parser o (Bool × Bool) := do
  let isPublic ← visibility
  let isDefault := (← sees (.keyword "default")) && !(← sees2 (.sign "!"))
  if isDefault then keyword "default"
  return (isPublic, isDefault)

/-- Look ahead behind the visibility and the mark of a default. -/
def behindMarks {α : Type} (p : Parser o α) : Parser o α :=
  ahead do
    let _ ← implMarks
    p

/-- An item of an implementation. -/
def implItem (g : Readers o) : Parser o (Found o) := do
  let attributes ← g.outerAttributes
  let (isPublic, isDefault) ← ahead implMarks
  if ← behindMarks (seesFunction false) then g.implFunction attributes
  else if ← behindMarks (sees (.keyword "const")) then
    let _ ← implMarks
    g.constant attributes true
  else if ← behindMarks (sees (.keyword "type")) then g.implType attributes
  else if !isPublic && !isDefault && (← seesAny invocationStarts) then
    invocationItem attributes false
  else
    behindMarks <| failExpecting ((if isDefault then [] else [.keyword "default"]) ++
      [.keyword "fn", .keyword "const", .keyword "type"] ++
      if isPublic || isDefault then [] else invocationStarts)

/-- An implementation. One with a visibility, a constant one, and one of something that is no
trait path are not interpreted. -/
def implementation (g : Readers o) (attributes : Found o) : Parser o (Found o) := do
  let isPublic ← visibility
  let _ ← keyword? "default"
  let _ ← keyword? "unsafe"
  keyword "impl"
  let parameters ← if ← seesParameters then g.parameters else pure none
  let isConstant := (← sees (.keyword "const")) ||
    ((← sees (.sign "?")) && (← sees2 (.keyword "const")))
  if isConstant then
    let _ ← sign? "?"
    keyword "const"
  let negative := (← sees (.sign "!")) && !(← sees2 (.group .brace))
  if negative then sign "!"
  let first ← g.type true
  let ofTrait ← keyword? "for"
  let self ← if ofTrait then g.typeFound else pure []
  if !ofTrait && negative then failWith "inherent impls cannot be negative"
  let bounded := (← g.whereClause).getD []
  let isPath :=
    match first.shape with
    | .path _ => true
    | _ => false
  within .brace do
    let inner ← g.innerAttributes
    let items ← toEnd g.implItem
    return unlessUninterpreted (isPublic || isConstant || (ofTrait && !isPath))
      (attributes ++ inner ++ parameters.getD [] ++ bounded ++ first.found ++ self ++ items)

/-! ## Any item -/

/-- What may begin an item behind its visibility. -/
def itemStarts : List Look :=
  ["fn", "extern", "use", "static", "const", "unsafe", "mod", "type", "struct", "enum", "union",
    "trait", "auto", "impl", "default", "macro"].map Look.keyword

/-- Behind the visibility comes the keyword of foreign code; says whether a library follows it,
not a block. -/
def seesLibrary : Parser o Bool :=
  behindVisibility do
    keyword "extern"
    if ← sees (.keyword "crate") then return true
    if ← sees (.group .brace) then return false
    if ← sees .string then
      let _ ← string
      if ← sees (.group .brace) then return false
      failExpecting [.group .brace]
    failExpecting [.keyword "crate", .group .brace, .string]

/-- A trait whose implementations are automatic comes next. -/
def seesAutoTrait : Parser o Bool := do
  return (← sees (.keyword "auto")) && (← sees2 (.keyword "trait"))

/-- An item that begins with the keyword of unchecked code. -/
def unsafeItem (g : Readers o) (attributes : Found o) : Parser o (Found o) := do
  let behindKeyword {α : Type} (p : Parser o α) : Parser o α :=
    behindVisibility do
      keyword "unsafe"
      p
  if ← behindKeyword (do return (← sees (.keyword "trait")) || (← seesAutoTrait)) then
    g.markedTrait attributes
  else if ← behindKeyword (sees (.keyword "impl")) then g.implementation attributes
  else if ← behindKeyword (sees (.keyword "extern")) then g.foreignBlock attributes
  else if ← behindKeyword (sees (.keyword "mod")) then g.moduleItem attributes
  else
    behindKeyword <| failExpecting
      (["trait", "auto", "impl", "extern", "mod"].map Look.keyword)

/-- An implementation comes next. -/
def seesImplementation : Parser o Bool := do
  return (← sees (.keyword "impl")) ||
    ((← sees (.keyword "default")) && !(← sees2 (.sign "!")))

/-- An item. What it is shows behind its attributes and its visibility. -/
def itemForm (g : Readers o) : Parser o (Found o) := do
  let attributes ← g.outerAttributes
  let isPublic ← ahead visibility
  let begins (name : String) : Parser o Bool := behindVisibility (sees (.keyword name))
  if ← behindVisibility (seesFunction false) then g.function attributes
  else if ← begins "extern" then
    if ← seesLibrary then libraryItem attributes else g.foreignBlock attributes
  else if ← begins "use" then importItem attributes
  else if ← begins "static" then g.staticItem attributes
  else if ← begins "const" then
    let _ ← visibility
    g.constant attributes true
  else if ← begins "unsafe" then g.unsafeItem attributes
  else if ← begins "mod" then g.moduleItem attributes
  else if ← begins "type" then g.typeItem attributes
  else if ← begins "struct" then g.structureItem attributes
  else if ← begins "enum" then g.enumeration attributes
  else if ← behindVisibility (do return (← sees (.keyword "union")) && (← sees2 .identifier)) then
    g.unionItem attributes
  else if ← begins "trait" then g.traitOrAlias attributes
  else if ← behindVisibility seesAutoTrait then g.markedTrait attributes
  else if ← behindVisibility seesImplementation then g.implementation attributes
  else if ← begins "macro" then macroDefinition
  else if !isPublic && (← seesAny invocationStarts) then invocationItem attributes true
  else
    behindVisibility <| failExpecting (itemStarts ++ if isPublic then [] else invocationStarts)

end Readers

end EmbeddedSolidity.Grammar
