import EmbeddedSolidity.FileSystem.Search
import EmbeddedSolidity.Utility.Basic

/-!
# Names of files

The last name of a path and the path without it, what links lead to, and the current directory.
-/

namespace EmbeddedSolidity.Utility.Names

open FileSystem (Fault FileTree Place)
open Shell

/-! ## Texts -/

/-- A path without slashes at its end. -/
def withoutSlashes (path : String) : List Char :=
  (path.toList.reverse.dropWhile (· == '/')).reverse

/-- The last name of a path. -/
def lastName (path : String) : String :=
  match withoutSlashes path with
  | [] => if path.isEmpty then "" else "/"
  | cs => String.ofList (cs.reverse.takeWhile (· != '/')).reverse

/-- A name without an ending, unless it is all of it. -/
def withoutEnding (name ending : String) : String :=
  if name != ending && ending.toList.isSuffixOf name.toList && name != "/" then
    String.ofList (name.toList.take (name.length - ending.length))
  else name

/-- A path without its last name. -/
def directoryOf (path : String) : String :=
  let above := ((withoutSlashes path).reverse.dropWhile (· != '/')).reverse
  let directory := withoutSlashes (String.ofList above)
  if !directory.isEmpty then String.ofList directory
  else if path.toList.head? == some '/' then "/"
  else "."

/-- The end of what is said of each argument. -/
def ending (chosen : List Chosen) : String :=
  if Chosen.has 'z' chosen then "\x00" else "\n"

/-- The last names of paths, without an ending. -/
def basename (c : Call) : Action Nat :=
  c.read [⟨'a', "multiple", false, false⟩, ⟨'s', "suffix", true, false⟩, ⟨'z', "zero", false, false⟩]
    (fun chosen words => do
      let suffix := (Chosen.last? 's' chosen).getD ""
      let isMany := Chosen.has 'a' chosen || Chosen.has 's' chosen
      match isMany, words with
      | _, [] => c.missing
      | true, paths =>
        for path in paths do
          say (withoutEnding (lastName path) suffix ++ ending chosen)
        return 0
      | false, [path] =>
        say (lastName path ++ ending chosen)
        return 0
      | false, [path, suffix] =>
        say (withoutEnding (lastName path) suffix ++ ending chosen)
        return 0
      | false, _ :: _ :: word :: _ => c.extra word) 1 false

/-- Paths without their last names. -/
def dirname (c : Call) : Action Nat :=
  c.read [⟨'z', "zero", false, false⟩] fun chosen words => do
    if words.isEmpty then c.missing
    else
      for path in words do
        say (directoryOf path ++ ending chosen)
      return 0

/-! ## Places -/

/-- How much of a path must be there. -/
inductive Presence where
  | all
  | allButLast
  | nothing
deriving DecidableEq

/-- The names of a path behind a place, without dots. -/
def plainPlace (place : Place) : List String → Place
  | [] => place
  | ".." :: rest => plainPlace place.dropLast rest
  | name :: rest => plainPlace (if name == "." then place else place ++ [name]) rest

/-- The place that a path leads to as far as its names are there; what is missing is added. The
number is at least the number of names. -/
def placeWithin (m : Machine) : Nat → List String → List String → Except Fault Place
  | 0, _, _ => .error .notFound
  | n + 1, names, missing =>
    let path := "/".intercalate names
    match m.tree.entryAt m.current true (if names == [""] then "/" else path) with
    | .ok (place, _) => .ok (plainPlace place missing)
    | .error fault =>
      match names.reverse with
      | [] => .ok (plainPlace m.current missing)
      | name :: above =>
        if fault == .tooManyLinks then .error fault
        else placeWithin m n above.reverse (name :: missing)

/-- The place that a path leads to. -/
def placeOf (m : Machine) (presence : Presence) (path : String) : Except Fault Place :=
  let known := Machine.path path
  match presence with
  | .all => (m.tree.entryAt m.current true known).map (·.1)
  | .allButLast =>
    match m.tree.resolve m.current true known with
    | .ok (.entry place _) | .ok (.free place _) => .ok place
    | .error fault => .error fault
  | .nothing =>
    if path.isEmpty then .error .notFound
    else
      let names := (Text.cut '/' known.toList).map String.ofList
      placeWithin m (names.length + 2) names []

/-- The text of a place. -/
def textOf (place : Place) : String :=
  Bytes.ofText (FileTree.textOf place)

/-- What links hold, or the places that paths lead to. -/
def readlink (c : Call) : Action Nat :=
  c.read [⟨'f', "canonicalize", false, false⟩, ⟨'e', "canonicalize-existing", false, false⟩,
      ⟨'m', "canonicalize-missing", false, false⟩, ⟨'n', "no-newline", false, false⟩,
      ⟨'q', "quiet", false, false⟩, ⟨'s', "silent", false, false⟩, ⟨'v', "verbose", false, false⟩,
      ⟨'z', "zero", false, false⟩] fun chosen words => do
    if words.isEmpty then return (← c.missing)
    let bare := Chosen.has 'n' chosen && words.length == 1
    if Chosen.has 'n' chosen && !bare then c.complain "ignoring --no-newline with multiple arguments"
    let m ← get
    let found (path : String) : Except Fault String :=
      match Chosen.among? ['f', 'e', 'm'] chosen with
      | some 'f' => (placeOf m .allButLast path).map textOf
      | some 'e' => (placeOf m .all path).map textOf
      | some _ => (placeOf m .nothing path).map textOf
      | none =>
        match m.tree.entryAt m.current false (Machine.path path) with
        | .ok (_, .link target) => .ok (Bytes.ofText target)
        | .ok _ => .error .invalid
        | .error fault => .error fault
    forEach (fun path => do
      match found path with
      | .ok text =>
        say (text ++ (if bare then "" else ending chosen))
        return 0
      | .error fault =>
        if Chosen.among? ['v', 'q', 's'] chosen == some 'v' then c.complain (plainFault path fault)
        return 1) words

/-- A place as seen from another one. -/
def relative (place base : Place) : String :=
  let shared := ((place.zip base).takeWhile fun (a, b) => a == b).length
  let names := List.replicate (base.length - shared) ".." ++ place.drop shared
  if names.isEmpty then "." else Bytes.ofText ("/".intercalate names)

/-- The places that paths lead to. -/
def realpath (c : Call) : Action Nat :=
  c.read [⟨'e', "canonicalize-existing", false, false⟩,
      ⟨'m', "canonicalize-missing", false, false⟩, ⟨'L', "logical", false, false⟩,
      ⟨'P', "physical", false, false⟩, ⟨'q', "quiet", false, false⟩,
      ⟨'s', "no-symlinks", false, false⟩, ⟨'S', "strip", false, false⟩,
      ⟨'R', "relative-to", true, false⟩, ⟨'z', "zero", false, false⟩] fun chosen words => do
    if words.isEmpty then return (← c.missing)
    let m ← get
    let presence := match Chosen.among? ['e', 'm'] chosen with
      | some 'e' => Presence.all
      | some _ => Presence.nothing
      | none => Presence.allButLast
    let found (path : String) : Except Fault Place :=
      if (Chosen.among? ['s', 'S', 'P', 'L'] chosen).any fun o => o == 's' || o == 'S' then
        let names := Path.parts (Machine.path path)
        .ok (plainPlace (if path.toList.head? == some '/' then [] else m.current) names)
      else placeOf m presence path
    let base? := (Chosen.last? 'R' chosen).map found
    forEach (fun path => do
      match found path with
      | .ok place =>
        let text := match base? with
          | some (.ok base) => relative place base
          | _ => textOf place
        say (text ++ ending chosen)
        return 0
      | .error fault =>
        if !Chosen.has 'q' chosen then c.complain (plainFault path fault)
        return 1) words

/-- The path of the current directory. -/
def pwd (c : Call) : Action Nat :=
  c.read [⟨'L', "logical", false, false⟩, ⟨'P', "physical", false, false⟩] fun chosen words => do
    if !words.isEmpty then c.complain "ignoring non-option arguments"
    let m ← get
    let here := textOf m.current
    let entered := (m.valueOf? "PWD").getD here
    let isThere := match m.tree.entryAt m.current true (Machine.path entered) with
      | .ok (place, _) => place == m.current
      | .error _ => false
    say ((if Chosen.among? ['L', 'P'] chosen == some 'L' && isThere then entered else here) ++ "\n")
    return 0

/-- The paths of programs. -/
def which (c : Call) : Action Nat :=
  c.read [⟨'a', "", false, false⟩] (fun _ words => do
    let m ← get
    forEach (fun name => do
      let found := if name.toList.contains '/' then
          (if m.tree.isExecutable m.current (Machine.path name) then some name else none)
        else m.locate name
      match found with
      | some path =>
        say (path ++ "\n")
        return 0
      | none => return 1) words) 2 false

end EmbeddedSolidity.Utility.Names
