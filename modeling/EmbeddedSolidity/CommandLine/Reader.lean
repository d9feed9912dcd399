import EmbeddedSolidity.CommandLine.Failure
import EmbeddedSolidity.CommandLine.Similarity

/-!
# Reading command lines

The words of a command line are read from left to right. A word that begins with a dash is an
option, unless two dashes came before; other words are the values of the option in front of them,
commands, or arguments known by their places. An option that waits for its value is settled when
the next argument begins.

* `Command.read` : what is given for the arguments of a command, and the command below it with
  the words that are left for that.
-/

namespace EmbeddedSolidity.CommandLine

/-- Why reading stops. -/
inductive Stop where
  /-- A page is shown, as it was asked for. -/
  | page (text : String)
  /-- A page is shown, as nothing was given. -/
  | pageInstead (text : String)
  | failed (command : Command) (failure : Failure)
deriving DecidableEq, Repr

/-- An argument and the values given for it. -/
structure Given where
  argument : Argument
  values : List String
deriving DecidableEq, Repr

/-- How far a command line has been read. -/
structure Reading where
  command : Command
  /-- The name and the version of the program. -/
  version : String
  given : List Given := []
  /-- The argument whose values are still being read. -/
  pending : Option Given := none
  /-- The pending argument needs another word. -/
  waits : Bool := false
  /-- Two dashes came before. -/
  dashed : Bool := false
  /-- How many places have been filled. -/
  filled : Nat := 0

namespace Reading

/-- The usage line in general. -/
def generalUsage (r : Reading) : String :=
  r.command.usage []

/-- The arguments for which something is given. -/
def used (r : Reading) : List Argument :=
  r.given.map (·.argument)

/-- The argument has been given. -/
def has (r : Reading) (a : Argument) : Bool :=
  r.given.any fun g => g.argument.name == a.name

/-- Stop with a failure. -/
def fail {α : Type} (r : Reading) (f : Failure) : Except Stop α :=
  .error (.failed r.command f)

/-! ## Values -/

/-- The number that digits make behind a number, or what is wrong with them. -/
def number (n : Nat) : List Char → Except String Nat
  | [] => .ok n
  | c :: cs =>
    if !c.isDigit then .error "invalid digit found in string"
    else if 1 <<< 64 ≤ n * 10 + (c.toNat - 48) then
      .error "number too large to fit in target type"
    else number (n * 10 + (c.toNat - 48)) cs

/-- The number that a text is; a plus may stand in front. -/
def numberOf (s : String) : Except String Nat :=
  match s.toList with
  | [] => .error "cannot parse integer from empty string"
  | '+' :: c :: cs => number 0 (c :: cs)
  | cs => number 0 cs

/-- What is wrong with a value. -/
def invalid? (a : Argument) (value : String) : Option Failure :=
  match a.domain with
  | .text => none
  | .path => if value.isEmpty then some (.valueMissing a.label) else none
  | .number =>
    match numberOf value with
    | .ok _ => none
    | .error reason => some (.valueInvalid value a.label reason)

/-- Put values with an argument. -/
def add (r : Reading) (g : Given) : Reading :=
  if r.has g.argument then
    { r with
      given := r.given.map fun h =>
        if h.argument.name == g.argument.name then { h with values := h.values ++ g.values } else h }
  else { r with given := r.given ++ [g] }

/-- Settle an argument with its values: what is given then, and what is wrong with it. -/
def settleWith (r : Reading) (g : Given) : Reading × Option Failure :=
  let a := g.argument
  if a.takesValues && g.values.isEmpty then (r, some (.valueMissing a.label))
  else
    match a.role with
    | .many _ => (r.add g, g.values.findSome? (invalid? a))
    | _ =>
      if r.has a then
        ({ r with given := r.given.filter (·.argument.name != a.name) },
          some (.repeated a.label r.generalUsage))
      else (r.add g, g.values.findSome? (invalid? a))

/-- Settle the argument whose values were being read. -/
def settle (r : Reading) : Reading × Option Failure :=
  let rest := { r with pending := none, waits := false }
  match r.pending with
  | none => (rest, none)
  | some g => rest.settleWith g

/-- Settle the argument whose values were being read, or stop. -/
def settled (r : Reading) : Except Stop Reading :=
  match r.settle with
  | (r, none) => .ok r
  | (r, some f) => r.fail f

/-! ## Options -/

/-- Meet a flag. -/
def meetFlag (r : Reading) (a : Argument) : Except Stop Reading := do
  let r ← r.settled
  match a.role with
  | .help => .error (.page r.command.helpPage)
  | .version => .error (.page (r.version ++ "\n"))
  | _ =>
    match r.settleWith ⟨a, []⟩ with
    | (r, none) => return r
    | (r, some f) => r.fail f

/-- Meet an option that takes a value, perhaps with the value. -/
def meetOption (r : Reading) (a : Argument) (value : Option String) : Except Stop Reading := do
  let r ← r.settled
  match value with
  | some value =>
    match r.settleWith ⟨a, [value]⟩ with
    | (r, none) => return r
    | (r, some f) => r.fail f
  | none => return { r with pending := some ⟨a, []⟩, waits := true }

/-- The tip to put two dashes in front of a word, where that helps. -/
def dashTip (r : Reading) (text : String) : List Tip :=
  if r.command.positionals.isEmpty || r.dashed then [] else [.asValue text]

/-- The option of another command that is meant, if that command follows. The one that follows
first counts. -/
def elsewhere? (below : List Command) (name : String) (rest : List String) :
    Option (String × String) :=
  rest.findSome? fun word =>
    match below.find? fun c => (c.title.splitOn " ").getLast? == some word with
    | some c => (similar name c.longNames).getLast?.map fun long => (word, long)
    | none => none

/-- The failure of a long name that no option has. -/
def unknownLong (r : Reading) (below : List Command) (name : String) (rest : List String) :
    Failure :=
  let r := r.settle.1
  let text := "--" ++ name
  match (similar name r.command.longNames).getLast? with
  | some long =>
    let meant := (r.command.long? long).toList.filter (!r.has ·)
    .unexpected text [.argument ("--" ++ long)] (r.command.usage (r.used ++ meant))
  | none =>
    let tips :=
      match elsewhere? below name rest with
      | some (command, long) => [.elsewhere command ("--" ++ long)]
      | none => r.dashTip text
    .unexpected text tips (r.command.usage r.used)

/-- The failure of a flag with a value. If an argument of the command itself was given, the usage
line shows all of these as alternatives. -/
def unexpectedValue (r : Reading) (value : String) (a : Argument) : Failure :=
  let used := r.used ++ [a]
  .unexpectedValue value a.label
    (if r.used.any (·.isOwn) then r.command.alternativesUsage used else r.command.usage used)

/-- Read a word with two dashes in front. -/
def readLong (r : Reading) (below : List Command) (word : List Char) (rest : List String) :
    Except Stop Reading :=
  let name := word.takeWhile (· != '=')
  let value :=
    if name.length < word.length then some (String.ofList (word.drop (name.length + 1))) else none
  match r.command.long? (String.ofList name) with
  | none => r.fail (r.unknownLong below (String.ofList name) rest)
  | some a =>
    if a.takesValues then r.meetOption a value
    else
      match value with
      | some value => r.fail (r.unexpectedValue value a)
      | none => r.meetFlag a

/-- Read the short names behind a dash. -/
def readShort (r : Reading) : List Char → Except Stop Reading
  | [] => .ok r
  | c :: rest =>
    match r.command.short? c with
    | none =>
      let text := "-" ++ String.singleton c
      r.fail (.unexpected text (r.dashTip text) r.generalUsage)
    | some a =>
      if a.takesValues then
        let value :=
          match rest with
          | [] => none
          | '=' :: value => some (String.ofList value)
          | value => some (String.ofList value)
        r.meetOption a value
      else
        match r.meetFlag a with
        | .ok r => r.readShort rest
        | .error stop => .error stop

/-! ## Words -/

/-- The failure of a word for which there is no place. -/
def unexpectedWord (r : Reading) (word : String) : Failure :=
  let names := r.command.subcommands.map (·.name)
  if r.dashed && names.contains word then
    .unexpected word [.withoutDashes word] r.generalUsage
  else if names.isEmpty then .unexpected word [] r.generalUsage
  else
    match similar word names with
    | [] => .unknownCommand word [] r.generalUsage
    | found => .unknownCommand word [.commands found] r.generalUsage

/-- Read a word that is no option. -/
def readPlain (r : Reading) (word : String) : Except Stop Reading := do
  match r.command.positionals[r.filled]? with
  | none => r.fail (r.settle.1.unexpectedWord word)
  | some a =>
    match a.role with
    | .many _ =>
      match r.pending with
      | some g =>
        if g.argument.name == a.name then
          return { r with pending := some { g with values := g.values ++ [word] } }
        else
          return { ← r.settled with pending := some ⟨a, [word]⟩ }
      | none => return { r with pending := some ⟨a, [word]⟩ }
    | _ =>
      let r ← r.settled
      return { r with pending := some ⟨a, [word]⟩, filled := r.filled + 1 }

/-- Read a word that may be an option, with the words behind it. -/
def readWord (r : Reading) (below : List Command) (word : String) (rest : List String) :
    Except Stop Reading :=
  if r.dashed then r.readPlain word
  else
    match word.toList with
    | ['-', '-'] => .ok { r with dashed := true, waits := false }
    | '-' :: '-' :: cs => r.readLong below cs rest
    | '-' :: c :: cs => r.readShort (c :: cs)
    | _ =>
      match r.waits, r.pending with
      | true, some g => .ok { r with pending := some { g with values := [word] }, waits := false }
      | _, _ => r.readPlain word

end Reading

/-! ## Commands -/

/-- What is given to a command. -/
structure Reading.Result where
  given : List Given
  /-- The command below it, and the words for that. -/
  next : Option (String × List String) := none
deriving DecidableEq, Repr

/-- Check that nothing is missing behind the last word. -/
def Reading.conclude (r : Reading) : Except Stop Reading.Result := do
  let r ← r.settled
  let c := r.command
  if !c.subcommands.isEmpty then
    if r.given.isEmpty then .error (.pageInstead c.helpPage)
    else r.fail (.noCommand c.title (c.subcommands.map (·.name)) r.generalUsage)
  else
    match c.positionals.filter fun a => a.isRequired && !r.has a with
    | [] => return ⟨r.given, none⟩
    | missing => r.fail (.missing (missing.map Argument.label) (c.usage (r.used ++ missing)))

/-- Read the words for a command; `below` are the commands below it. -/
def Reading.readAll (below : List Command) : Reading → List String → Except Stop Reading.Result
  | r, [] => r.conclude
  | r, word :: rest =>
    if !r.dashed && !r.waits && r.command.subcommands.any (·.name == word) then
      match r.settled with
      | .ok r => .ok ⟨r.given, some (word, rest)⟩
      | .error stop => .error stop
    else
      match r.readWord below word rest with
      | .ok r => r.readAll below rest
      | .error stop => .error stop

/-- Read the words for a command. -/
def Command.read (c : Command) (version : String) (below : List Command) (words : List String) :
    Except Stop Reading.Result :=
  ({ command := c, version } : Reading).readAll below words

end EmbeddedSolidity.CommandLine
