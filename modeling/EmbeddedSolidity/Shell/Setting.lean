import EmbeddedSolidity.Shell.Machine

/-!
# Settings and options

The settings of a shell, each with a letter and a name, and the options of its own commands.

* `Setting.read` : read settings, up to the arguments that are none;
* `Setting.options` : the options of a command, and its other arguments.
-/

namespace EmbeddedSolidity.Shell.Setting

/-- The settings by their names, with their letters. -/
def all : List (String × Char) :=
  [("errexit", 'e'), ("noglob", 'f'), ("ignoreeof", 'I'), ("interactive", 'i'), ("monitor", 'm'),
    ("noexec", 'n'), ("stdin", 's'), ("xtrace", 'x'), ("verbose", 'v'), ("vi", 'V'), ("emacs", 'E'),
    ("noclobber", 'C'), ("allexport", 'a'), ("notify", 'b'), ("nounset", 'u'), ("privileged", 'p'),
    ("nolog", '0'), ("debug", '1')]

/-- Turn a setting on or off. -/
def turn (on : Bool) (letter : Char) : Action Unit := do
  if on && letter == 'm' then
    complainHere "can't access tty; job control turned off"
    return
  modify fun m =>
    let others := m.settings.filter (· != letter)
    { m with settings := if on then letter :: others else others }

/-- Turn the setting of a letter on or off. -/
def turnLetter (on : Bool) (letter : Char) : Action Unit := do
  if all.any fun s => s.2 == letter && letter.isAlpha then turn on letter
  else fail ("Illegal option -" ++ String.singleton letter)

/-- A name in a column. -/
def column (name : String) : String :=
  name ++ String.ofList (List.replicate (16 - name.length) ' ')

/-- Show the settings, as a table or as commands. -/
def showAll (asTable : Bool) : Action Unit := do
  if asTable then say "Current option settings\n"
  for (name, letter) in all do
    let on ← isSet letter
    if asTable then say (column name ++ (if on then "on" else "off") ++ "\n")
    else say ("set " ++ (if on then "-o " else "+o ") ++ name ++ "\n")

/-- Turn the setting of a name on or off, or show all settings if there is no name. -/
def turnName (on : Bool) : List String → Action (List String)
  | [] => do
    showAll on
    return []
  | name :: rest => do
    match all.lookup name with
    | some letter => turn on letter
    | none => fail ("Illegal option -o " ++ name)
    return rest

/-- Turn the settings of letters on or off; tells whether a command is to follow. -/
def turnAll (starting on : Bool) : List Char → List String → Action (Bool × List String)
  | [], rest => return (false, rest)
  | 'o' :: cs, rest => do
    let rest ← turnName on rest
    turnAll starting on cs rest
  | c :: cs, rest => do
    if starting && c == 'c' then
      let (_, rest) ← turnAll starting on cs rest
      return (true, rest)
    if !(starting && c == 'l') then turnLetter on c
    turnAll starting on cs rest

/-- Read settings, up to the arguments that are none. Gives whether a command is to follow,
whether the settings end with a sign of their own, and the arguments. The number is at least the
number of arguments. -/
def read (starting : Bool) : Nat → List String → Action (Bool × Bool × List String)
  | 0, words => return (false, false, words)
  | n + 1, words => do
    match words with
    | [] => return (false, false, [])
    | word :: rest =>
      match word.toList with
      | ['-', '-'] => return (false, true, rest)
      | ['-'] =>
        if !starting then
          turn false 'x'
          turn false 'v'
        return (false, false, rest)
      | '-' :: letters =>
        let (isCommand, rest) ← turnAll starting true letters rest
        let (isCommand', ends, rest) ← read starting n rest
        return (isCommand || isCommand', ends, rest)
      | '+' :: letters =>
        let (isCommand, rest) ← turnAll starting false letters rest
        let (isCommand', ends, rest) ← read starting n rest
        return (isCommand || isCommand', ends, rest)
      | _ => return (false, false, words)

/-- The letters of an argument behind a dash as options, of which some take a text; gives the
other arguments. -/
def optionLetters (allowed : List (Char × Bool)) :
    List Char → List String → Action (List (Char × String) × List String)
  | [], rest => return ([], rest)
  | c :: cs, rest => do
    match allowed.lookup c with
    | none => fail ("Illegal option -" ++ String.singleton c)
    | some false =>
      let (more, rest) ← optionLetters allowed cs rest
      return ((c, "") :: more, rest)
    | some true =>
      match cs, rest with
      | [], [] => fail ("No arg for -" ++ String.singleton c ++ " option")
      | [], text :: rest => return ([(c, text)], rest)
      | _, _ => return ([(c, String.ofList cs)], rest)

/-- The options of a command, of which some take a text, and its other arguments. The number is
at least the number of arguments. -/
def optionsWithin (allowed : List (Char × Bool)) :
    Nat → List String → Action (List (Char × String) × List String)
  | 0, words => return ([], words)
  | n + 1, words => do
    match words with
    | [] => return ([], [])
    | word :: rest =>
      match word.toList with
      | ['-', '-'] => return ([], rest)
      | '-' :: c :: cs =>
        let (found, rest) ← optionLetters allowed (c :: cs) rest
        let (more, rest) ← optionsWithin allowed n rest
        return (found ++ more, rest)
      | _ => return ([], words)

/-- The options of a command, of which some take a text, and its other arguments. -/
def options (allowed : List (Char × Bool)) (words : List String) :
    Action (List (Char × String) × List String) :=
  optionsWithin allowed (words.length + 1) words

end EmbeddedSolidity.Shell.Setting
