import EmbeddedSolidity.Grammar.Origin

/-!
# Parsers over token trees

A parser reads the trees of one scope: a file, or the body of a group. It fails with the text
of what it expected. If the body of a group is left before its end the parser goes on, but the
first such body makes the whole parse fail in the end.

* `Look` : a test of what comes next, with the name it has in messages;
* `Parser.within` : read the body of a group;
* `Parser.collect`, `Parser.extend` : repetition;
* `Parser.whole` : read all trees of a scope.
-/

namespace EmbeddedSolidity.Grammar

open EmbeddedSolidity.Source (Delimiter wordText)

/-- The outlines that are left in the scope, which are among those that are read as a whole, and the
kind of the first group whose body was left before its end. -/
structure State (origin : List Outline) where
  rest : List Outline
  left : Option Delimiter := none
  part : Part origin rest

namespace State

variable {origin : List Outline}

/-- Pass so many outlines. -/
def pass (s : State origin) (n : Nat) : State origin where
  rest := s.rest.drop n
  left := s.left
  part := s.part.drop n

/-- Go into a body. -/
def goInto (s : State origin) {body : List Outline} (h : Part origin body) : State origin where
  rest := body
  left := s.left
  part := h

/-- Come back from a body to the outlines behind a group. If the body was left before its end, and
no other one before, its kind is noted. -/
def comeBack (s inner : State origin) (d : Delimiter) : State origin where
  rest := s.rest.drop 1
  left := if inner.rest.isEmpty then inner.left else inner.left.or (some d)
  part := s.part.drop 1

end State

/-- A parser of the outlines of an origin. -/
abbrev Parser (origin : List Outline) (α : Type) := StateT (State origin) (Except String) α

/-! ## What comes next -/

/-- A test of what comes next. -/
structure Look where
  shown : String
  sees : List Outline → Bool

/-- A text between the quotes that messages use. -/
def ticked (s : String) : String :=
  "\x60" ++ s ++ "\x60"

/-- The words that are no identifiers unless they are raw. -/
def keywords : List String :=
  ["_", "abstract", "as", "async", "await", "become", "box", "break", "const", "continue",
    "crate", "do", "dyn", "else", "enum", "extern", "false", "final", "fn", "for", "if", "impl",
    "in", "let", "loop", "macro", "match", "mod", "move", "mut", "override", "priv", "pub",
    "ref", "return", "Self", "self", "static", "struct", "super", "trait", "true", "try", "type",
    "typeof", "unsafe", "unsized", "use", "virtual", "where", "while", "yield"]

/-- The word is not reserved. -/
def isFree (name : String) (raw : Bool) : Bool :=
  raw || !keywords.contains name

/-- The trees begin with the marks of a sign; all but its last mark are joint. -/
def seesSign : List Char → List Outline → Bool
  | [], _ => true
  | [c], .mark _ d _ :: _ => c == d
  | c :: cs, .mark _ d joint :: rest => c == d && joint && seesSign cs rest
  | _ :: _, _ => false

namespace Look

/-- A keyword. -/
def keyword (name : String) : Look where
  shown := ticked name
  sees
    | .word _ n raw :: _ => !raw && n == name
    | _ => false

/-- A sign of one or more marks. -/
def sign (s : String) : Look where
  shown := ticked s
  sees := seesSign s.toList

/-- A word that is not reserved. -/
def identifier : Look where
  shown := "identifier"
  sees
    | .word _ name raw :: _ => isFree name raw
    | _ => false

/-- Any word. -/
def word : Look where
  shown := "identifier"
  sees
    | .word .. :: _ => true
    | _ => false

/-- The name of a lifetime: an apostrophe and a word. -/
def lifetime : Look where
  shown := "lifetime"
  sees
    | .mark _ '\'' _ :: .word .. :: _ => true
    | _ => false

/-- A literal; a number may have a minus sign, and the truth values are literals. -/
def literal : Look where
  shown := "literal"
  sees
    | .literal _ :: _ => true
    | .word _ name raw :: _ => !raw && (name == "true" || name == "false")
    | .mark _ '-' _ :: .literal (.integer _) :: _ => true
    | .mark _ '-' _ :: .literal (.float _) :: _ => true
    | _ => false

/-- A string. -/
def string : Look where
  shown := "string literal"
  sees
    | .literal .string :: _ => true
    | _ => false

/-- An integer, perhaps with a minus sign. -/
def integer : Look where
  shown := "integer literal"
  sees
    | .literal (.integer _) :: _ => true
    | .mark _ '-' _ :: .literal (.integer _) :: _ => true
    | _ => false

/-- A number with a point or an exponent, perhaps with a minus sign. -/
def float : Look where
  shown := "floating point literal"
  sees
    | .literal (.float _) :: _ => true
    | .mark _ '-' _ :: .literal (.float _) :: _ => true
    | _ => false

/-- A group of a kind. -/
def group (d : Delimiter) : Look where
  shown :=
    match d with
    | .parenthesis => "parentheses"
    | .brace => "curly braces"
    | .bracket => "square brackets"
  sees
    | .group _ d' _ :: _ => d == d'
    | _ => false

end Look

/-- Drop one tree; an apostrophe goes with its word. -/
def dropTree : List Outline → List Outline
  | .mark _ '\'' _ :: .word .. :: rest => rest
  | _ :: rest => rest
  | [] => []

/-- A list of alternatives as messages give it. -/
def alternatives : List String → String
  | [] => "unexpected token"
  | [a] => "expected " ++ a
  | [a, b] => "expected " ++ a ++ " or " ++ b
  | many => "expected one of: " ++ ", ".intercalate many

namespace Parser

variable {o : List Outline} {α : Type}

/-- The trees that are left. -/
def rest : Parser o (List Outline) :=
  fun s => .ok (s.rest, s)

/-- Nothing is left in the scope. -/
def atEnd : Parser o Bool :=
  fun s => .ok (s.rest.isEmpty, s)

/-- What comes next passes the test. -/
def sees (look : Look) : Parser o Bool :=
  fun s => .ok (look.sees s.rest, s)

/-- What comes after the next tree passes the test. -/
def sees2 (look : Look) : Parser o Bool :=
  fun s => .ok (look.sees (dropTree s.rest), s)

/-- What comes after the next two trees passes the test. -/
def sees3 (look : Look) : Parser o Bool :=
  fun s => .ok (look.sees (dropTree (dropTree s.rest)), s)

/-- The number of the next word or mark. -/
def here : Parser o (Option Nat) := fun s =>
  match s.rest with
  | .word n _ _ :: _ => .ok (some n, s)
  | .mark n _ _ :: _ => .ok (some n, s)
  | _ => .ok (none, s)

/-- What comes next passes one of the tests. -/
def seesAny (looks : List Look) : Parser o Bool :=
  fun s => .ok (looks.any (·.sees s.rest), s)

/-- Fail with a text that does not depend on the place. -/
def failWith (message : String) : Parser o α :=
  fun _ => .error message

/-- Fail here; at the end of the scope the message says so. -/
def fail (message : String) : Parser o α :=
  fun s => .error (if s.rest.isEmpty then "unexpected end of input, " ++ message else message)

/-- Fail because none of the alternatives comes next. -/
def failExpecting (looks : List Look) : Parser o α := fun s =>
  if looks.isEmpty && s.rest.isEmpty then .error "unexpected end of input"
  else fail (alternatives (looks.map (·.shown))) s

/-- Put back what was read; used to look further ahead. -/
def ahead (p : Parser o α) : Parser o α := fun s =>
  match p s with
  | .ok (a, _) => .ok (a, s)
  | .error e => .error e

/-- Read if possible, and read nothing otherwise. -/
def attempt (p : Parser o α) : Parser o (Option α) := fun s =>
  match p s with
  | .ok (a, s) => .ok (some a, s)
  | .error _ => .ok (none, s)

/-- Read a keyword. -/
def keyword (name : String) : Parser o Unit := fun s =>
  if (Look.keyword name).sees s.rest then .ok ((), s.pass 1)
  else fail ("expected " ++ ticked name) s

/-- Read a sign. -/
def sign (text : String) : Parser o Unit := fun s =>
  if seesSign text.toList s.rest then .ok ((), s.pass text.length)
  else .error ("expected " ++ ticked text)

/-- Read a sign if it comes next. -/
def sign? (text : String) : Parser o Bool := do
  if ← sees (.sign text) then
    sign text
    return true
  return false

/-- Read a keyword if it comes next. -/
def keyword? (name : String) : Parser o Bool := do
  if ← sees (.keyword name) then
    keyword name
    return true
  return false

/-- Read any word. -/
def word : Parser o String := fun s =>
  match s.rest with
  | .word _ name raw :: _ => .ok (wordText name raw, s.pass 1)
  | _ => fail "expected ident" s

/-- Read a word that is not reserved. -/
def identifier : Parser o String := fun s =>
  match s.rest with
  | .word _ name raw :: _ =>
    if isFree name raw then .ok (wordText name raw, s.pass 1)
    else .error ("expected identifier, found keyword " ++ ticked name)
  | _ => fail "expected identifier" s

/-- Read a word or the placeholder `_`. -/
def underscore : Parser o Unit :=
  keyword "_"

/-- Read the name of a lifetime. -/
def lifetime : Parser o Unit := fun s =>
  if Look.lifetime.sees s.rest then .ok ((), s.pass 2)
  else fail "expected lifetime" s

/-- Read a lifetime if it comes next. -/
def lifetime? : Parser o Bool := do
  if ← sees .lifetime then
    lifetime
    return true
  return false

/-- Read a literal. -/
def literal : Parser o Unit := fun s =>
  if Look.literal.sees s.rest then
    match s.rest with
    | .mark .. :: _ :: _ => .ok ((), s.pass 2)
    | _ => .ok ((), s.pass 1)
  else fail "expected literal" s

/-- Read the text of an integer or of a number with a point or an exponent. -/
def number : Parser o (List Char) := fun s =>
  match s.rest with
  | .literal (.integer written) :: _ => .ok (written, s.pass 1)
  | .literal (.float written) :: _ => .ok (written, s.pass 1)
  | _ => fail "expected integer literal" s

/-- Read a string literal. -/
def string : Parser o Unit := fun s =>
  match s.rest with
  | .literal .string :: _ => .ok ((), s.pass 1)
  | _ => fail "expected string literal" s

/-- Read the body of a group. The trees it leaves are reported in the end. -/
def within (d : Delimiter) (p : Parser o α) : Parser o α := fun s =>
  match h : s.rest with
  | .group _ d' _ :: _ =>
    if d = d' then
      match p (s.goInto (h ▸ s.part).inside) with
      | .ok (a, inner) => .ok (a, s.comeBack inner d)
      | .error e => .error e
    else fail ("expected " ++ (Look.group d).shown) s
  | _ => fail ("expected " ++ (Look.group d).shown) s

/-- Read a group of any kind: this and its number. -/
def anyGroup : Parser o (Delimiter × {n : Nat // n ∈ groupNumbers o}) := fun s =>
  match h : s.rest with
  | .group n d _ :: _ => .ok ((d, ⟨n, (h ▸ s.part).group⟩), s.pass 1)
  | _ => fail "expected delimiter" s

/-- Read over all trees that are left. -/
def skipAll : Parser o Unit := fun s =>
  .ok ((), s.pass s.rest.length)

/-- Repeat a step at most a number of times, until it has nothing more. -/
def collectFrom : Nat → Parser o (Option (List α)) → Parser o (List α)
  | 0, _ => return []
  | n + 1, step => do
    match ← step with
    | some found => return found ++ (← collectFrom n step)
    | none => return []

/-- Repeat a step until it has nothing more. A step reads a tree or is the last one. -/
def collect (step : Parser o (Option (List α))) : Parser o (List α) := fun s =>
  collectFrom (s.rest.length + 1) step s

/-- Extend a value step by step at most a number of times, until a step has nothing more. -/
def extendFrom {β : Type} : Nat → (β → Parser o (Option β)) → β → Parser o β
  | 0, _, a => return a
  | n + 1, step, a => do
    match ← step a with
    | some next => extendFrom n step next
    | none => return a

/-- Extend a value step by step until a step has nothing more. A step reads a tree or is the
last one. -/
def extend {β : Type} (step : β → Parser o (Option β)) (a : β) : Parser o β := fun s =>
  extendFrom (s.rest.length + 1) step a s

/-- Read elements with a sign between them, and perhaps one more sign at the end, until the
stop. -/
def separatedUntil (stop : Parser o Bool) (separator : String) (element : Parser o (List α)) :
    Parser o (List α) :=
  collect do
    if ← stop then return none
    let found ← element
    unless ← stop do sign separator
    return some found

/-- Read elements with a sign between them, and perhaps one more sign at the end, up to the end
of the scope. -/
def separated (separator : String) (element : Parser o (List α)) : Parser o (List α) :=
  separatedUntil atEnd separator element

/-- Read elements as long as a sign joins them; after a sign the stop ends them too. -/
def joinedUntil (stop : Parser o Bool) (separator : String) (element : Parser o (List α)) :
    Parser o (List α) := do
  let (found, _) ← (extend · ([], true)) fun (found, more) => do
    if !more then return none
    if ← stop then return none
    let next ← element
    return some (found ++ next, ← sign? separator)
  return found

/-- Read elements up to the end of the scope. -/
def toEnd (element : Parser o (List α)) : Parser o (List α) :=
  collect do
    if ← atEnd then return none
    return some (← element)

/-- Read all trees of a scope that no group encloses. -/
def whole (p : Parser o α) : Except String α := do
  let (a, s) ← p { rest := o, part := .refl o }
  match s.left with
  | some d => .error ("unexpected token, expected " ++ ticked (String.singleton d.closing))
  | none => if s.rest.isEmpty then .ok a else .error "unexpected token"

end Parser

end EmbeddedSolidity.Grammar
