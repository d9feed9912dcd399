import EmbeddedSolidity.Text.Cut

/-!
# Paths as text

A path is a text with slashes. Joining keeps both parts as they are written; comparing goes by
components, where doubled slashes and dots inside a path do not count.

* `Path.join`, `Path.parent?`, `Path.extension?`;
* `Path.components` : what is compared (`Path.isBefore`, `Path.same`).
-/

namespace EmbeddedSolidity.Path

/-- A part of a path between slashes. -/
inductive Component where
  | root
  | current
  | parent
  | named (name : String)
deriving DecidableEq, Repr

/-- The texts between slashes that are not empty. -/
def parts (path : String) : List String :=
  ((Text.cut '/' path.toList).filter (!·.isEmpty)).map String.ofList

/-- The path begins at the root. -/
def isAbsolute (path : String) : Bool :=
  path.toList.head? == some '/'

/-- The component that a text between slashes stands for, if any. -/
def component? (part : String) : Option Component :=
  if part == "." then none else if part == ".." then some .parent else some (.named part)

/-- The components of a path: a leading dot counts, no other does. -/
def components (path : String) : List Component :=
  let parts := parts path
  let rest := parts.filterMap component?
  if isAbsolute path then .root :: rest
  else if parts.head? == some "." then .current :: rest
  else rest

/-- The text of a component that is not the root. -/
def Component.text : Component → String
  | .root => ""
  | .current => "."
  | .parent => ".."
  | .named name => name

/-- The text of components. -/
def render : List Component → String
  | [.root] => "/"
  | cs => "/".intercalate (cs.map Component.text)

/-- `path` below `base`; an absolute path stays as it is. -/
def join (base path : String) : String :=
  if isAbsolute path || base == "" then path
  else if base.toList.getLast? == some '/' then base ++ path
  else base ++ "/" ++ path

/-- The path without its last component, if it has one to lose. -/
def parent? (path : String) : Option String :=
  match (components path).getLast? with
  | none | some .root => none
  | some _ => some (render (components path).dropLast)

/-- The last component, if it is a name. -/
def fileName? (path : String) : Option String :=
  match (components path).getLast? with
  | some (.named name) => some name
  | _ => none

/-- What follows the last dot of a name, if that dot is not its first character. -/
def extensionOf? (name : String) : Option String :=
  let after := name.toList.reverse.takeWhile (· != '.')
  let before := name.toList.reverse.drop (after.length + 1)
  if before.isEmpty then none else some (String.ofList after.reverse)

/-- The extension of the last component. -/
def extension? (path : String) : Option String :=
  (fileName? path).bind extensionOf?

/-- The order of components: the root first, then dots, then names by code point. -/
def Component.isBefore : Component → Component → Bool
  | .root, .root => false
  | .root, _ => true
  | .current, .root | .current, .current => false
  | .current, _ => true
  | .parent, .named _ => true
  | .parent, _ => false
  | .named a, .named b => a < b
  | .named _, _ => false

/-- The order of lists of components, a beginning before the whole. -/
def listBefore : List Component → List Component → Bool
  | [], [] => false
  | [], _ :: _ => true
  | _ :: _, [] => false
  | a :: as, b :: bs => a.isBefore b || (a == b && listBefore as bs)

/-- The order of paths, by components. -/
def isBefore (a b : String) : Bool :=
  listBefore (components a) (components b)

/-- Both paths have the same components. -/
def same (a b : String) : Bool :=
  components a == components b

end EmbeddedSolidity.Path
