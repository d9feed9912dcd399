/-!
# Sets of characters

What one place in a pattern or in an expression stands for: any character, one character, or one
of those that brackets list, by themselves, as ranges or as classes.

* `Charset.contains` : a character is in a set;
* `Charset.bracket?` : the set that brackets list.
-/

namespace EmbeddedSolidity.Shell

/-- Characters, and whether each is quoted. -/
abbrev Marked := List (Char × Bool)

namespace Marked

/-- Text that is all quoted, or all not. -/
def ofChars (quoted : Bool) (cs : List Char) : Marked :=
  cs.map fun c => (c, quoted)

/-- The characters. -/
def text (m : Marked) : String :=
  String.ofList (m.map (·.1))

end Marked

/-- What brackets list. -/
inductive Member where
  | range (low high : Char)
  | ofClass (name : String)

/-- A set of characters. -/
inductive Charset where
  | all
  | only (c : Char)
  /-- The characters of some members, or those of none of them. -/
  | oneOf (negated : Bool) (members : List Member)

namespace Charset

/-- The printable characters but the space. -/
def isGraphic (c : Char) : Bool :=
  '!' ≤ c && c ≤ '~'

/-- The classes of characters by their names. -/
def classes : List (String × (Char → Bool)) :=
  [("alnum", Char.isAlphanum), ("alpha", Char.isAlpha), ("blank", fun c => c == ' ' || c == '\t'),
    ("cntrl", fun c => c < ' ' || c == '\x7f'), ("digit", Char.isDigit), ("graph", isGraphic),
    ("lower", Char.isLower), ("print", fun c => c == ' ' || isGraphic c),
    ("punct", fun c => isGraphic c && !c.isAlphanum),
    ("space", fun c => c == ' ' || ('\t' ≤ c && c ≤ '\r')), ("upper", Char.isUpper),
    ("xdigit", fun c => c.isDigit || ('a' ≤ c.toLower && c.toLower ≤ 'f'))]

/-- The character is one of a member. -/
def Member.contains (c : Char) : Member → Bool
  | .range low high => low ≤ c && c ≤ high
  | .ofClass name => ((classes.lookup name).map (· c)).getD false

/-- The character is in the set. -/
def contains : Charset → Char → Bool
  | .all, _ => true
  | .only a, c => a == c
  | .oneOf negated members, c => (members.any (Member.contains c)) != negated

/-- The class that `[:` begins, behind the opening bracket. -/
def class? (cs : Marked) : Option (Member × Marked) :=
  match cs with
  | (':', false) :: rest =>
    let name := rest.takeWhile fun c => c.1.isAlpha
    match rest.drop name.length with
    | (':', _) :: (']', _) :: rest =>
      if (classes.lookup (Marked.text name)).isSome then some (.ofClass (Marked.text name), rest)
      else none
    | _ => none
  | _ => none

/-- The next character, which a backslash may quote if `escapes` is set, and what follows. -/
def single? (escapes : Bool) : Marked → Option (Char × Marked)
  | [] => none
  | ('\\', false) :: (c, _) :: rest => if escapes then some (c, rest) else some ('\\', (c, false) :: rest)
  | (c, _) :: rest => some (c, rest)

/-- The members in brackets up to the closing one, which may come first, and what follows. The
number bounds how many there are. -/
def members (escapes : Bool) : Nat → Bool → List Member → Marked →
    Option (List Member × Marked)
  | 0, _, _, _ => none
  | n + 1, isFirst, found, cs =>
    match cs with
    | [] => none
    | (']', false) :: rest =>
      if isFirst then onward n found ']' rest else some (found, rest)
    | ('[', false) :: rest =>
      match class? rest with
      | some (member, rest) => members escapes n false (member :: found) rest
      | none => onward n found '[' rest
    | cs =>
      match single? escapes cs with
      | some (c, rest) => onward n found c rest
      | none => none
where
  onward (n : Nat) (found : List Member) (low : Char) (rest : Marked) :
      Option (List Member × Marked) :=
    match rest with
    | ('-', false) :: next :: more =>
      if next == (']', false) then members escapes n false (.range low low :: found) rest
      else
        match single? escapes (next :: more) with
        | some (high, rest) => members escapes n false (.range low high :: found) rest
        | none => none
    | _ => members escapes n false (.range low low :: found) rest

/-- The set that brackets list, behind the opening one; `sign` behind it takes all the others. -/
def bracket? (sign : Char) (escapes : Bool) (cs : Marked) : Option (Charset × Marked) :=
  let negated := cs.head? == some (sign, false)
  let inside := if negated then cs.drop 1 else cs
  (members escapes (inside.length + 1) true [] inside).map fun (found, rest) =>
    (.oneOf negated found, rest)

end Charset

end EmbeddedSolidity.Shell
