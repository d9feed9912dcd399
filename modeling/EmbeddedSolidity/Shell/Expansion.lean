import EmbeddedSolidity.Shell.Machine
import EmbeddedSolidity.Shell.Pattern

/-!
# Fields of words

The values that parameters have, and how the parts of a word become fields: what unquoted values
bring is split at separators, and a quoted text makes a field even if it is empty.

* `Machine.parameter?` : the value of a parameter;
* `Mark.fields` : the fields of a word.
-/

namespace EmbeddedSolidity.Shell

/-- What the parts of a word stand for, character by character. -/
inductive Mark where
  | char (c : Char) (quoted : Bool)
  /-- A separator in an unquoted value; `blank` if several count as one. -/
  | separator (c : Char) (blank : Bool)
  /-- Where one argument ends and the next one begins. -/
  | gap
  /-- A quoted text, which may be empty. -/
  | present

namespace Mark

/-- A quoted text. -/
def quoted (s : String) : List Mark :=
  s.toList.map fun c => .char c true

/-- Separators of which several count as one. -/
def isBlank (c : Char) : Bool :=
  c == ' ' || c == '\t' || c == '\n'

/-- Unquoted text, split at separators. -/
def split (separators : List Char) (s : String) : List Mark :=
  s.toList.map fun c =>
    if separators.contains c then .separator c (isBlank c) else .char c false

/-- The value of a parameter or of a substitution. -/
def ofValue (separators : List Char) (isQuoted : Bool) (s : String) : List Mark :=
  if isQuoted then quoted s else split separators s

/-- Where a field has come to. -/
inductive Progress where
  /-- Nothing of it yet. -/
  | none
  /-- Nothing of it yet, behind blanks that ended the field before. -/
  | blank
  /-- Characters, the last one first. -/
  | begun (cs : Marked)

/-- Fields behind the progress of the first one. -/
def fieldsFrom (found : List Marked) : Progress → List Mark → List Marked
  | .begun cs, [] => (cs.reverse :: found).reverse
  | _, [] => found.reverse
  | .begun cs, .char c q :: rest => fieldsFrom found (.begun ((c, q) :: cs)) rest
  | _, .char c q :: rest => fieldsFrom found (.begun [(c, q)]) rest
  | .begun cs, .present :: rest => fieldsFrom found (.begun cs) rest
  | _, .present :: rest => fieldsFrom found (.begun []) rest
  | .begun cs, .separator _ blank :: rest =>
    fieldsFrom (cs.reverse :: found) (if blank then .blank else .none) rest
  | .blank, .separator _ blank :: rest => fieldsFrom found (if blank then .blank else .none) rest
  | .none, .separator _ blank :: rest =>
    if blank then fieldsFrom found .none rest else fieldsFrom ([] :: found) .none rest
  | .begun cs, .gap :: rest => fieldsFrom (cs.reverse :: found) .none rest
  | _, .gap :: rest => fieldsFrom found .none rest

/-- The fields of a word. -/
def fields (marks : List Mark) : List Marked :=
  fieldsFrom [] .none marks

/-- The characters of a word that is not split. -/
def marked (marks : List Mark) : Marked :=
  marks.flatMap fun
    | .char c isQuoted => [(c, isQuoted)]
    | .separator c _ => [(c, false)]
    | .gap => [(' ', false)]
    | .present => []

/-- The text of a word that is not split. -/
def text (marks : List Mark) : String :=
  (marked marks).text

/-- Arguments with gaps between them. -/
def joined : List (List Mark) → List Mark
  | [] => []
  | [last] => last
  | first :: rest => first ++ .gap :: joined rest

end Mark

namespace Machine

/-- The characters that separate fields. -/
def separators (m : Machine) : List Char :=
  ((m.valueOf? "IFS").map String.toList).getD [' ', '\t', '\n']

/-- The arguments as one text, with the first separator between them. -/
def allArguments (m : Machine) : String :=
  match m.valueOf? "IFS" with
  | none => " ".intercalate m.arguments
  | some s => (String.ofList (s.toList.take 1)).intercalate m.arguments

/-- The letters of settings in the order in which they are shown. -/
def settingLetters : List Char :=
  ['u', 'b', 'a', 'C', 'E', 'V', 'v', 'x', 's', 'n', 'm', 'i', 'I', 'f', 'e']

/-- The value of a parameter. -/
def parameter? (m : Machine) (name : String) : Option String :=
  match name with
  | "#" => some (toString m.arguments.length)
  | "?" => some (toString m.status)
  | "$" => some (toString m.process)
  | "-" => some (String.ofList (settingLetters.filter m.settings.contains))
  | "!" => m.background.head?.map fun entry => toString entry.1
  | "0" => some m.name
  | "*" | "@" => some m.allArguments
  | _ =>
    if name.toList.all Char.isDigit then
      match (name.toNat?).getD 0 with
      | 0 => some m.name
      | n + 1 => m.arguments[n]?
    else m.valueOf? name

/-- The arguments as marks: each a field of its own if quoted with `@`. -/
def argumentMarks (m : Machine) (name : String) (isQuoted : Bool) : List Mark :=
  if isQuoted then
    if name == "*" then Mark.quoted m.allArguments
    else Mark.joined (m.arguments.map fun a => .present :: Mark.quoted a)
  else Mark.joined (m.arguments.map (Mark.split m.separators))

end Machine

/-- The text that a substitution gives: without bytes zero and line feeds at its end. -/
def substitutedText (bytes : ByteArray) : String :=
  let cs := (Bytes.read bytes).toList.filter (· != '\x00')
  String.ofList (cs.reverse.dropWhile (· == '\n')).reverse

end EmbeddedSolidity.Shell
