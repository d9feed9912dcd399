import EmbeddedSolidity.Json.Value

/-!
# Printing JSON

Two layouts of a value: on one line without spaces, and with one item a line, indented by two
spaces a level, where an empty array or object stays on its line.

* `Value.compact`, `Value.pretty` : the two texts.
-/

namespace EmbeddedSolidity.Json

/-- The digit of value `n` below sixteen, lower case. -/
def lowerDigit (n : Nat) : Char :=
  if n < 10 then Char.ofNat (48 + n) else Char.ofNat (87 + n)

/-- One character inside a JSON string. -/
def escapeChar (c : Char) : List Char :=
  if c == '"' then ['\\', '"']
  else if c == '\\' then ['\\', '\\']
  else if c == '\x08' then ['\\', 'b']
  else if c == '\t' then ['\\', 't']
  else if c == '\n' then ['\\', 'n']
  else if c == '\x0c' then ['\\', 'f']
  else if c == '\r' then ['\\', 'r']
  else if c.toNat < 32 then
    ['\\', 'u', '0', '0', lowerDigit (c.toNat / 16), lowerDigit (c.toNat % 16)]
  else [c]

/-- A string with its quotes. -/
def stringChars (s : String) : List Char :=
  '"' :: s.toList.flatMap escapeChar ++ ['"']

/-- How a container is laid out at a depth: what stands before its first item, between two
items, after its last one, and between a key and its value. -/
structure Layout where
  opening : Nat → List Char
  between : Nat → List Char
  closing : Nat → List Char
  colon : List Char

/-- A line break and the indentation of a depth. -/
def newline (depth : Nat) : List Char :=
  '\n' :: List.replicate (2 * depth) ' '

/-- Everything on one line without spaces. -/
def Layout.compact : Layout :=
  ⟨fun _ => [], fun _ => [','], fun _ => [], [':']⟩

/-- One item a line. -/
def Layout.pretty : Layout :=
  ⟨fun depth => newline (depth + 1), fun depth => ',' :: newline (depth + 1), newline, [':', ' ']⟩

mutual

/-- The characters of a value that stands at `depth`. -/
def Value.chars (layout : Layout) (depth : Nat) : Value → List Char
  | .null => "null".toList
  | .boolean true => "true".toList
  | .boolean false => "false".toList
  | .number n => n.text.toList
  | .string s => stringChars s
  | .array [] => ['[', ']']
  | .array (item :: items) =>
    '[' :: layout.opening depth ++ item.chars layout (depth + 1) ++
      itemsChars layout depth items ++ layout.closing depth ++ [']']
  | .object [] => ['\x7b', '\x7d']
  | .object ((key, value) :: members) =>
    '\x7b' :: layout.opening depth ++ stringChars key ++ layout.colon ++
      value.chars layout (depth + 1) ++ membersChars layout depth members ++
      layout.closing depth ++ ['\x7d']

/-- The items after the first one. -/
def itemsChars (layout : Layout) (depth : Nat) : List Value → List Char
  | [] => []
  | item :: items =>
    layout.between depth ++ item.chars layout (depth + 1) ++ itemsChars layout depth items

/-- The members after the first one. -/
def membersChars (layout : Layout) (depth : Nat) : List (String × Value) → List Char
  | [] => []
  | (key, value) :: members =>
    layout.between depth ++ stringChars key ++ layout.colon ++ value.chars layout (depth + 1) ++
      membersChars layout depth members

end

/-- The value on one line. -/
def Value.compact (v : Value) : String :=
  String.ofList (v.chars .compact 0)

/-- The value with one item a line. -/
def Value.pretty (v : Value) : String :=
  String.ofList (v.chars .pretty 0)

end EmbeddedSolidity.Json
