import EmbeddedSolidity.Shell.Condition
import EmbeddedSolidity.Shell.Format
import EmbeddedSolidity.Utility.Basic

/-!
# Writing texts

Writing arguments, as they are or as a format tells, deciding conditions, and telling about the
machine.
-/

namespace EmbeddedSolidity.Utility.Speech

open Shell

/-! ## Arguments -/

/-- A text without its escapes, and whether one of them asks for nothing to follow. The number is
at least its length. -/
def unescaped : Nat → List Char → List Char × Bool
  | 0, cs => (cs, false)
  | _, [] => ([], false)
  | n + 1, '\\' :: rest =>
    let put (c : Char) (rest : List Char) : List Char × Bool :=
      let (more, stops) := unescaped n rest
      (c :: more, stops)
    match rest with
    | 'c' :: _ => ([], true)
    | 'e' :: more => put '\x1b' more
    | '0' :: more =>
      let digits := (more.take 3).takeWhile Format.isOctal
      put (Format.octal digits) (more.drop digits.length)
    | 'x' :: more =>
      let digits := (more.take 2).takeWhile fun c => (Arithmetic.digit? 16 c).isSome
      if digits.isEmpty then put '\\' rest
      else
        let n : Nat := digits.foldl (fun n c => n * 16 + (Arithmetic.digit? 16 c).getD 0) 0
        put (Char.ofNat n) (more.drop digits.length)
    | c :: more =>
      match Format.escapeLetter? c with
      | some d => put d more
      | none => put '\\' rest
    | [] => (['\\'], false)
  | n + 1, c :: rest =>
    let (more, stops) := unescaped n rest
    (c :: more, stops)

/-- The letters in front of the arguments that are options, and the other arguments. -/
def echoOptions : List String → List Char × List String
  | [] => ([], [])
  | word :: rest =>
    match word.toList with
    | '-' :: c :: cs =>
      if (c :: cs).all fun o => o == 'n' || o == 'e' || o == 'E' then
        let (letters, words) := echoOptions rest
        (c :: cs ++ letters, words)
      else ([], word :: rest)
    | _ => ([], word :: rest)

/-- Write the arguments. -/
def echo (c : Call) : Action Nat := do
  let (letters, words) := echoOptions c.arguments
  let text := " ".intercalate words
  let expands := (letters.reverse.find? fun o => o != 'n') == some 'e'
  let (cs, stops) := if expands then unescaped text.length text.toList else (text.toList, false)
  let silent := letters.contains 'n' || stops
  say (String.ofList (if silent then cs else cs ++ ['\n']))
  return 0

/-- Write the arguments as a format tells. -/
def printf (c : Call) : Action Nat := do
  let words := match c.arguments with
    | "--" :: rest => rest
    | words => words
  match words with
  | [] => c.missing
  | format :: words =>
    let filled := Format.fill format words
    for (argument, extent) in filled.complaints.reverse do
      c.complain (Quotation.word argument ++ match extent with
        | .nothing => ": expected a numeric value"
        | .beyond => ": Numerical result out of range"
        | _ => ": value not completely converted")
    say (String.ofList filled.written.reverse)
    if let some fault := filled.fault then
      let directive := String.ofList (fault.toList.takeWhile (· != ':'))
      return ← c.refuse (directive ++ ": invalid conversion specification")
    let hasFields := (Format.fill format []).written.length != format.length ||
      format.toList.contains '%' || format.toList.contains '\\'
    if !hasFields then
      if let word :: _ := words then
        c.complain ("warning: ignoring excess arguments, starting with " ++ Quotation.word word)
    return if filled.complaints.isEmpty then 0 else 1

/-- Decide a condition. -/
def decide' (c : Call) (words : List String) : Action Nat := do
  let m ← get
  match Condition.holds m.tree m.current words with
  | .ok true => return 0
  | .ok false => return 1
  | .error message => c.refuse message 2

/-- Decide a condition. -/
def test (c : Call) : Action Nat :=
  decide' c c.arguments

/-- Decide a condition in brackets. -/
def bracket (c : Call) : Action Nat :=
  if c.arguments.getLast? == some "]" then decide' c c.arguments.dropLast
  else c.refuse ("missing " ++ Quotation.word "]") 2

/-- Write a line many times. -/
def yes (c : Call) : Action Nat := do
  let line := (if c.arguments.isEmpty then "y" else " ".intercalate c.arguments) ++ "\n"
  say (String.join (List.replicate 4096 line))
  return 0

/-! ## The machine -/

/-- Write a fixed line. -/
def telling (line : String) (c : Call) : Action Nat :=
  c.read [] fun _ words => do
    match words with
    | word :: _ => c.extra word
    | [] =>
      say (line ++ "\n")
      return 0

/-- Tell that nobody reads what is written. -/
def tty (_ : Call) : Action Nat := do
  say "not a tty\n"
  return 1

/-- Tell who runs commands. -/
def id (c : Call) : Action Nat :=
  c.read [⟨'u', "user", false, false⟩, ⟨'g', "group", false, false⟩, ⟨'G', "groups", false, false⟩,
      ⟨'n', "name", false, false⟩, ⟨'r', "real", false, false⟩] fun chosen words => do
    match words with
    | word :: _ =>
      if word != "root" then return ← c.refuse (Quotation.word word ++ ": no such user")
    | [] => pure ()
    let wantsOne := ['u', 'g', 'G'].any fun o => Chosen.has o chosen
    say (if !wantsOne then "uid=0(root) gid=0(root) groups=0(root)\n"
      else if Chosen.has 'n' chosen then "root\n" else "0\n")
    return 0

/-- Tell about the system. -/
def uname (c : Call) : Action Nat :=
  c.read [⟨'s', "kernel-name", false, false⟩, ⟨'n', "nodename", false, false⟩,
      ⟨'m', "machine", false, false⟩, ⟨'p', "processor", false, false⟩,
      ⟨'i', "hardware-platform", false, false⟩, ⟨'o', "operating-system", false, false⟩,
      ⟨'r', "kernel-release", false, false⟩, ⟨'v', "kernel-version", false, false⟩,
      ⟨'a', "all", false, false⟩] fun chosen words => do
    match words with
    | word :: _ => c.extra word
    | [] =>
      let all := [('s', "Linux"), ('n', "localhost"), ('r', "6.0.0"), ('v', "#1"), ('m', "x86_64"),
        ('p', "unknown"), ('i', "unknown"), ('o', "GNU/Linux")]
      let shown := all.filter fun part =>
        Chosen.has part.1 chosen || (Chosen.has 'a' chosen && part.2 != "unknown")
      say (if shown.isEmpty then "Linux\n" else " ".intercalate (shown.map (·.2)) ++ "\n")
      return 0

end EmbeddedSolidity.Utility.Speech
