import EmbeddedSolidity.Shell.Builtin
import EmbeddedSolidity.Shell.Redirect

/-!
# Expanding words

The parts of words become marks: texts as they are, the values of parameters, what commands write,
and the values of arithmetic; a tilde at the front stands for the home directory. What commands
write is for a runner to find out.

* `expandWord` : the marks of a word;
* `argumentsOf` : the arguments that words stand for.
-/

namespace EmbeddedSolidity.Shell

open FileSystem (FileTree Place)

/-! ## Tildes -/

/-- Where a tilde stands for a home directory. -/
inductive Tildes where
  | nowhere
  | atFront
  /-- At the front and behind colons. -/
  | inValue
  | behindColons
deriving DecidableEq

/-- A tilde may stand at the front. -/
def Tildes.hasFront : Tildes → Bool
  | atFront | inValue => true
  | _ => false

/-- A tilde may stand behind a colon. -/
def Tildes.hasColons : Tildes → Bool
  | inValue | behindColons => true
  | _ => false

/-- Where a tilde may stand behind a first part. -/
def Tildes.behind : Tildes → Tildes
  | inValue | behindColons => .behindColons
  | _ => .nowhere

/-- The home directory that a name behind a tilde stands for. -/
def Machine.homeOf (m : Machine) (name : List Char) : Option String :=
  if name.isEmpty then m.valueOf? "HOME"
  else if name == "root".toList then some "/root"
  else none

/-- The marks of unquoted text, with tildes replaced. `isFront` is set where a tilde may stand,
and `isLast` if nothing follows the text. The number is at least the length of the text. -/
def textMarks (m : Machine) (splits : Bool) (tildes : Tildes) (isLast : Bool) :
    Nat → Bool → List Char → List Mark
  | 0, _, _ | _ + 1, _, [] => []
  | n + 1, isFront, c :: rest =>
    let plain : List Mark := if splits then Mark.split m.separators (String.singleton c)
      else [.char c false]
    if isFront && c == '~' then
      let name := rest.takeWhile fun c => c != '/' && !(tildes.hasColons && c == ':')
      let behind := rest.drop name.length
      match m.homeOf name, behind.isEmpty && !isLast with
      | some home, false =>
        .present :: Mark.quoted home ++ textMarks m splits tildes isLast n false behind
      | _, _ => plain ++ textMarks m splits tildes isLast n false rest
    else plain ++ textMarks m splits tildes isLast n (tildes.hasColons && c == ':') rest

/-! ## Marks -/

/-- The text that commands write. -/
def capture (apart : Action Unit → Action Unit) (body : Action Unit) : Action String := do
  let (buffer, number) ← openBuffer ByteArray.empty
  let before := (← get).status
  apart do
    connect 1 number
    body
  let m ← get
  set { m with substituted := m.status, status := before }
  return substitutedText (← takeBuffer buffer)

/-- The value of an arithmetic expression, with its assignments carried out. -/
def arithmetic (text : String) : Action Int := do
  let m ← get
  let scope : Arithmetic.Scope :=
    ⟨fun name => (m.parameter? name).getD "", fun name =>
      (m.bindings.lookup name).any (·.fixed)⟩
  let (result, assigned) := Arithmetic.evaluate scope text
  for (name, value) in assigned.reverse do
    setVariable name (toString value)
  match result with
  | .ok value => return value
  | .error (.malformed message) =>
    fail ("arithmetic expression: " ++ message ++ ": \"" ++ text ++ "\"")
  | .error (.illegal text) => fail (Condition.illegal text)
  | .error (.readOnly name) => fail (name ++ ": is read only")

mutual

/-- The marks of a part of a word; unquoted text is split too if `splits` is set. `isLast` is
set if nothing follows it. -/
def expandPiece (substitute : Script → Action String) (splits : Bool) (tildes : Tildes)
    (isLast : Bool) : Piece → Action (List Mark)
  | .text cs isQuoted => do
    if isQuoted then return if cs.isEmpty then [.present] else cs.map (Mark.char · true)
    return textMarks (← get) splits tildes isLast (cs.length + 1) tildes.hasFront cs
  | .document _ => return []
  | .arithmetic expression isQuoted => do
    let text := Mark.text (← expandWord substitute false .nowhere expression)
    let value ← arithmetic text
    return Mark.ofValue (← get).separators isQuoted (toString value)
  | .substitution body isQuoted => do
    let text ← substitute body
    return Mark.ofValue (← get).separators isQuoted text
  | .parameter name use operand isQuoted => do
    let m ← get
    let value := m.parameter? name
    let shown : List Mark :=
      if name == "@" || name == "*" then m.argumentMarks name isQuoted
      else Mark.ofValue m.separators isQuoted (value.getD "")
    let lacks (colon : Bool) : Bool := value.isNone || (colon && value == some "")
    let mustHave : Action Unit := do
      if value.isNone && m.settings.contains 'u' then fail (name ++ ": parameter not set")
    match use with
    | .invalid => fail "Bad substitution"
    | .plain =>
      mustHave
      return shown
    | .length =>
      mustHave
      return Mark.ofValue m.separators isQuoted (toString (value.getD "").length)
    | .orElse colon =>
      if lacks colon then expandWord substitute (!isQuoted) .atFront operand else return shown
    | .alternative colon =>
      if lacks colon then return [] else expandWord substitute (!isQuoted) .atFront operand
    | .orAssign colon =>
      if !lacks colon then return shown
      let text := Mark.text (← expandWord substitute false .atFront operand)
      setVariable name text
      return Mark.ofValue (← get).separators isQuoted text
    | .orFail colon =>
      if !lacks colon then return shown
      let text := Mark.text (← expandWord substitute false .atFront operand)
      let reason :=
        if !operand.isEmpty then text
        else "parameter not set" ++ (if colon then " or null" else "")
      fail (name ++ ": " ++ reason)
    | .without front longest =>
      mustHave
      let pattern := Mark.marked (← expandWord substitute false .atFront operand)
      return Mark.ofValue m.separators isQuoted
        (Pattern.strip front longest pattern (value.getD ""))

/-- The marks of a word; unquoted text is split too if `splits` is set. -/
def expandWord (substitute : Script → Action String) (splits : Bool) (tildes : Tildes) :
    List Piece → Action (List Mark)
  | [] => return []
  | piece :: rest => do
    let first ← expandPiece substitute splits tildes rest.isEmpty piece
    return first ++ (← expandWord substitute splits tildes.behind rest)

end

/-! ## Texts and arguments -/

/-- The text of a word that is not split. -/
def textOf (substitute : Script → Action String) (w : Word) : Action String := do
  return Mark.text (← expandWord substitute false .atFront w)

/-- The value that an assignment gives. -/
def valueOf (substitute : Script → Action String) (w : Word) : Action String := do
  return Mark.text (← expandWord substitute false .inValue w)

/-- The text of a redirection that stands in the lines below it. -/
def documentOf (substitute : Script → Action String) (number : Nat) : Action String := do
  let w := ((← get).documents[number]?).getD []
  return Mark.text (← expandWord substitute false .nowhere w)

/-- The pattern that a word is. -/
def patternOf (substitute : Script → Action String) (w : Word) : Action Marked := do
  return Mark.marked (← expandWord substitute false .atFront w)

/-- The arguments that a word stands for: its fields, and the paths that they match. -/
def argumentsOf (substitute : Script → Action String) (w : Word) : Action (List String) := do
  let marks ← expandWord substitute false .atFront w
  let m ← get
  let fields := Mark.fields marks
  if m.settings.contains 'f' then return fields.map Marked.text
  return fields.flatMap (Pattern.paths m.tree m.current)

/-- The argument that a word stands for if it is an assignment. -/
def assignmentOf? (substitute : Script → Action String) (w : Word) : Action (Option String) := do
  match w with
  | .text cs false :: rest =>
    match assignment? cs with
    | some (name, value) =>
      let value ← valueOf substitute (if value.isEmpty then rest else .text value false :: rest)
      return some (String.ofList name ++ "=" ++ value)
    | none => return none
  | _ => return none

/-- The redirection with its target. -/
def redirectionOf (substitute : Script → Action String) : Redirect → Action Redirection
  | .mk stream use [.document number] => do
    return ⟨stream, use, ← documentOf substitute number⟩
  | .mk stream use word => do
    let target ← textOf substitute word
    let isStream := target == "-" || (target.length == 1 && target.all Char.isDigit)
    if use == .duplicate && !isStream then
      modify fun m => { m with line := m.readLine }
      fail "Syntax error: Bad fd number"
    return ⟨stream, use, target⟩

end EmbeddedSolidity.Shell
