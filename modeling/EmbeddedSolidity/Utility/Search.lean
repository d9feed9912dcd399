import EmbeddedSolidity.Shell.Pattern
import EmbeddedSolidity.Utility.Content
import EmbeddedSolidity.Utility.Regular

/-!
# Searching

Writing the lines of files in which expressions match, or what is known of them.
-/

namespace EmbeddedSolidity.Utility.Search

open FileSystem (Entry Fault FileTree Place)
open Shell

/-- A switch without a text. -/
def plain (letter : Char) (long : String) : Switch :=
  ⟨letter, long, false, false⟩

/-- A switch with a text. -/
def withText (letter : Char) (long : String) : Switch :=
  ⟨letter, long, true, false⟩

/-- The options; those without a letter of their own have capital letters that are free. -/
def switches : List Switch :=
  [plain 'E' "extended-regexp", plain 'F' "fixed-strings", plain 'G' "basic-regexp",
    plain 'i' "ignore-case", plain 'y' "", plain 'v' "invert-match", plain 'c' "count",
    plain 'l' "files-with-matches", plain 'L' "files-without-match", plain 'n' "line-number",
    plain 'q' "quiet", plain 'q' "silent", plain 's' "no-messages", plain 'h' "no-filename",
    plain 'H' "with-filename", plain 'o' "only-matching", plain 'w' "word-regexp",
    plain 'x' "line-regexp", plain 'r' "recursive", plain 'R' "dereference-recursive",
    plain 'a' "text", plain 'I' "", plain 'b' "byte-offset", plain 'z' "null-data",
    withText 'e' "regexp", withText 'f' "file", withText 'm' "max-count",
    withText 'A' "after-context", withText 'B' "before-context", withText 'C' "context",
    withText 'K' "include", withText 'X' "exclude", ⟨'Y', "color", false, true⟩,
    ⟨'Y', "colour", false, true⟩]

/-- An expression that matches a text and nothing else. -/
def fixed (cs : List Char) : Regular.Expression :=
  cs.foldr (fun c e => .sequence (.one (.only c)) e) .empty

/-- The expression that some patterns are, of which one is to match. -/
def expressionOf (chosen : List Chosen) (name : String) (patterns : List (List Char)) :
    Except String Regular.Expression := do
  let kind := (Chosen.among? ['E', 'F', 'G'] chosen).getD
    (if name == "egrep" then 'E' else if name == "fgrep" then 'F' else 'G')
  let one (p : List Char) : Except String Regular.Expression :=
    if kind == 'F' then .ok (fixed p)
    else (Regular.parse { extended := kind == 'E', loose := true } p).map (·.1)
  let all ← patterns.mapM one
  let whole := match all with
    | [] => Regular.Expression.one (.oneOf false [])
    | first :: rest => rest.foldl .either first
  let around (a b : Regular.Anchor) : Regular.Expression :=
    .sequence (.anchor a) (.sequence whole (.anchor b))
  return if Chosen.has 'x' chosen then around .lineStart .lineEnd
    else if Chosen.has 'w' chosen then around .behindNoWord .beforeNoWord
    else whole

/-- How what is found is shown. -/
structure Report where
  /-- The name of the utility. -/
  name : String
  chosen : List Chosen
  expression : Regular.Expression
  manner : Regular.Manner
  named : Bool

namespace Report

/-- An option is set. -/
def has (r : Report) (letter : Char) : Bool :=
  Chosen.has letter r.chosen

/-- The count that an option gives. -/
def number? (r : Report) (letter : Char) : Option Nat :=
  (Chosen.last? letter r.chosen).bind countOf?

/-- The line is one that is looked for. -/
def wants (r : Report) (line : List Char) : Bool :=
  (Regular.search r.manner r.expression line).isSome != r.has 'v'

/-- What is in front of a line of a file. -/
def label (r : Report) (path : String) (number : Nat) (sign : String) : String :=
  (if r.named then path ++ sign else "") ++ (if r.has 'n' then toString number ++ sign else "")

/-- Write the lines around those that were found; each one comes with its number and whether it
was found. -/
def context (r : Report) (path : String) (lines : List (List Char × Nat × Bool)) : Action Unit := do
  let both := r.number? 'C'
  let before := ((r.number? 'B').or both).getD 0
  let after := ((r.number? 'A').or both).getD 0
  let found := (lines.filter (·.2.2)).map (·.2.1)
  let near (n : Nat) : Bool := found.any fun k => n ≤ k + after && k ≤ n + before
  let mut last : Option Nat := none
  for (line, n, isFound) in lines do
    if near n then
      if (before + after) != 0 && last.any (· + 1 < n) then say "--\n"
      last := some n
      let text := String.ofList (Regular.encode line)
      say (r.label path n (if isFound then ":" else "-") ++ text ++ "\n")

/-- Search a text; gives whether something was found. -/
def file (r : Report) (path : String) (cs : List Char) : Action Bool := do
  let lines := (linesOf cs).map Regular.decode
  let marked := (lines.zipIdx 1).map fun (line, n) => (line, n, r.wants line)
  let wanted := marked.filter (·.2.2)
  let found := match r.number? 'm' with
    | some n => wanted.take n
    | none => wanted
  let isFound := !found.isEmpty
  if r.has 'q' then return isFound
  if r.has 'l' then
    if isFound then say (path ++ "\n")
    return isFound
  if r.has 'L' then
    if !isFound then say (path ++ "\n")
    return isFound
  if r.has 'c' then
    say ((if r.named then path ++ ":" else "") ++ toString found.length ++ "\n")
    return isFound
  if isFound && cs.contains '\x00' && !r.has 'a' then
    Shell.complain (r.name ++ ": " ++ path ++ ": binary file matches")
    return true
  if r.has 'o' then
    if !r.has 'v' then
      for (line, n, _) in found do
        for part in Regular.searchAll r.manner r.expression (line.length + 2) [] line do
          say (r.label path n ":" ++ String.ofList (Regular.encode part) ++ "\n")
    return isFound
  let kept := found.map (·.2.1)
  r.context path (marked.map fun (line, n, _) => (line, n, kept.contains n))
  return isFound

end Report

/-- The files at and below a path, in order. -/
def filesBelow (m : Machine) (path : String) : List String :=
  match m.tree.entryAt m.current true (Machine.path path) with
  | .ok (place, .directory) =>
    let places := m.tree.entries.filterMap fun (p, entry) =>
      match entry with
      | .file _ _ => if place.isPrefixOf p then some (p.drop place.length) else none
      | _ => none
    let names := places.map fun p => Bytes.ofText ("/".intercalate p)
    let front := if path.toList.getLast? == some '/' then path else path ++ "/"
    (names.mergeSort fun a b => decide (a ≤ b)).map (front ++ ·)
  | _ => [path]

/-- The patterns that options and arguments give, and the other arguments. -/
def patternsOf (chosen : List Chosen) (words : List String) :
    Action (Except String (List (List Char) × List String)) := do
  let cutLines (s : String) : List (List Char) := Text.cut '\n' s.toList
  let given := chosen.filterMap fun o => if o.1 == 'e' then o.2.map cutLines else none
  let files := chosen.filterMap fun o => if o.1 == 'f' then o.2 else none
  let read ← files.mapM fun path => do return (path, ← textOf path)
  match read.find? fun f => !f.2.isOk with
  | some (path, .error fault) => return .error (path ++ ": " ++ fault.words)
  | _ =>
    let lines := read.flatMap fun f => linesOf (f.2.toOption.getD [])
    if given.isEmpty && files.isEmpty then
      match words with
      | [] => return .ok ([], [])
      | word :: rest => return .ok (cutLines word, rest)
    else return .ok (given.flatten ++ lines, words)

/-- How the utility is to be used. -/
def usage (c : Call) : Action Nat := do
  complain ("Usage: " ++ c.name ++ " [OPTION]... PATTERNS [FILE]...")
  c.refer
  return 2

/-- Write the lines of files in which expressions match. -/
def grep (c : Call) : Action Nat := do
  let kind := String.ofList (c.name.toList.reverse.takeWhile (· != '/')).reverse
  let c := if kind == "egrep" || kind == "fgrep" then { c with name := "grep" } else c
  match Call.readOptions switches true (numbers c.arguments) with
  | .error message =>
    c.complain message
    usage c
  | .ok (chosen, words) =>
    let bare := (Chosen.has 'e' chosen || Chosen.has 'f' chosen)
    if words.isEmpty && !bare then return ← usage c
    match ← patternsOf chosen words with
    | .error message => c.refuse message 2
    | .ok (patterns, paths) =>
      match expressionOf chosen kind (patterns.map Regular.decode) with
      | .error message => c.refuse message 2
      | .ok expression =>
        let isExtended := Chosen.among? ['E', 'F', 'G'] chosen == some 'E' || kind == "egrep"
        for p in patterns do
          if let sign :: _ := p then
            if sign == '*' || (isExtended && (sign == '+' || sign == '?')) then
              if isExtended then
                c.complain ("warning: " ++ String.singleton sign ++ " at start of expression")
        let m ← get
        let recursive := Chosen.has 'r' chosen || Chosen.has 'R' chosen
        let starts := if !paths.isEmpty then paths else if recursive then ["."] else ["-"]
        let all := if recursive then starts.flatMap (filesBelow m) else starts
        let all := if recursive && paths.isEmpty then
            all.map fun path => String.ofList (path.toList.drop 2) else all
        let wanted := chosen.filterMap fun o => if o.1 == 'K' then o.2 else none
        let all := if wanted.isEmpty then all else all.filter fun path =>
          let name := (path.toList.reverse.takeWhile (· != '/')).reverse
          wanted.any fun p => Pattern.fits (p.toList.map fun c => (c, false)) name
        let named := match Chosen.among? ['h', 'H'] chosen with
          | some o => o == 'H'
          | none => 1 < paths.length || recursive
        let folds := Chosen.has 'i' chosen || Chosen.has 'y' chosen
        let report : Report := { name := c.name, chosen, expression, manner := { folds }, named }
        let (isFound, isBad) ← searchEach report all
        let quiet := Chosen.has 'q' chosen
        return if isBad && !(quiet && isFound) then 2
          else if isFound != Chosen.has 'L' chosen then 0 else 1
where
  /-- Search files; gives whether something was found, and whether a file could not be read. -/
  searchEach (r : Report) : List String → Action (Bool × Bool)
    | [] => return (false, false)
    | path :: rest => do
      let shown := if path == "-" then "(standard input)" else path
      match ← textOf path with
      | .ok cs =>
        let isFound ← r.file shown cs
        if isFound && r.has 'q' then return (true, false)
        let (more, isBad) ← searchEach r rest
        return (isFound || more, isBad)
      | .error fault =>
        if !r.has 's' then c.complain (path ++ ": " ++ fault.words)
        let (isFound, _) ← searchEach r rest
        return (isFound, true)
  /-- Arguments that are numbers, as the number of lines around. -/
  numbers (arguments : List String) : List String :=
    arguments.map fun word =>
      match word.toList with
      | '-' :: d :: ds =>
        if (d :: ds).all Char.isDigit then String.ofList ('-' :: 'C' :: d :: ds) else word
      | _ => word

end EmbeddedSolidity.Utility.Search
