import EmbeddedSolidity.Digest.Sha256
import EmbeddedSolidity.Shell.Program
import EmbeddedSolidity.Utility.Basic

/-!
# What is in files

Writing what files hold, from the front or from the end, with numbers or counts, and comparing
files.
-/

namespace EmbeddedSolidity.Utility.Content

open FileSystem (Fault FileTree)
open Shell

/-- A switch without a text. -/
def plain (letter : Char) (long : String) : Switch :=
  ⟨letter, long, false, false⟩

/-- A text at the right end of a column. -/
def column (width : Nat) (s : String) : String :=
  String.ofList (List.replicate (width - s.length) ' ') ++ s

/-- The lines of a text, each with its line feed if it has one. -/
def fullLines (cs : List Char) : List (List Char) :=
  let whole := (linesOf cs).map (· ++ ['\n'])
  if endsWithinLine cs then whole.dropLast ++ (whole.getLast?.map List.dropLast).toList else whole

/-! ## Whole files -/

/-- A character in a form that can be seen; the first argument is set if tabs are kept. -/
def visible (keepsTab : Bool) (c : Char) : List Char :=
  let low (n : Nat) : List Char :=
    if n < 32 then ['^', Char.ofNat (n + 64)] else if n == 127 then ['^', '?'] else [Char.ofNat n]
  if c == '\n' || (c == '\t' && keepsTab) then [c]
  else if c.toNat < 128 then low c.toNat
  else 'M' :: '-' :: low (c.toNat - 128)

/-- Leave out empty lines behind an empty line. -/
def squeeze (wasEmpty : Bool) : List (List Char) → List (List Char)
  | [] => []
  | line :: rest =>
    let isEmpty := line == ['\n']
    if isEmpty && wasEmpty then squeeze true rest else line :: squeeze isEmpty rest

/-- Lines with their numbers behind a first one, and the number behind them; empty lines may have
none. -/
def numbered (all : Bool) : Nat → List (List Char) → Nat × List (List Char)
  | n, [] => (n, [])
  | n, line :: rest =>
    if all || line != ['\n'] then
      let (last, more) := numbered all (n + 1) rest
      (last, ((column 6 (toString n)).toList ++ '\t' :: line) :: more)
    else
      let (last, more) := numbered all n rest
      (last, line :: more)

/-- Write what files hold. -/
def cat (c : Call) : Action Nat :=
  c.read [plain 'b' "number-nonblank", plain 'n' "number", plain 's' "squeeze-blank",
      plain 'E' "show-ends", plain 'T' "show-tabs", plain 'v' "show-nonprinting",
      plain 'A' "show-all", plain 'e' "", plain 't' "", plain 'u' ""] fun chosen paths => do
    if ((← get).openFile? 1).isNone then
      return ← c.refuse "standard output: Bad file descriptor"
    let some' (letters : List Char) : Bool := letters.any fun o => Chosen.has o chosen
    let ends := some' ['E', 'e', 'A']
    let tabs := some' ['T', 't', 'A']
    let hidden := some' ['v', 'e', 't', 'A']
    let shape (cs : List Char) : List Char :=
      cs.flatMap fun c =>
        if c == '\n' then (if ends then ['$', '\n'] else ['\n'])
        else if c == '\t' then (if tabs then ['^', 'I'] else ['\t'])
        else if hidden then visible true c
        else [c]
    if chosen.all fun o => o.1 == 'u' then
      forEach (fun path => do
        match ← bytesOf path with
        | .ok bytes =>
          sayBytes bytes
          return 0
        | .error reason => c.refuse (plainFault path reason)) (orInput paths)
    else
      let (status, files) ← c.contents paths plainFault
      let lines := fullLines files.flatten
      let lines := if Chosen.has 's' chosen then squeeze false lines else lines
      let lines :=
        if Chosen.has 'b' chosen then (numbered false 1 (lines.map shape)).2
        else if Chosen.has 'n' chosen then (numbered true 1 (lines.map shape)).2
        else lines.map shape
      say (String.ofList lines.flatten)
      return status

/-- The last line first. -/
def tac (c : Call) : Action Nat :=
  c.read [plain 'b' "before", ⟨'s', "separator", true, false⟩] fun _ paths => do
    c.overContents paths
      (fun path fault =>
        if fault == .isDirectory then Quotation.label path ++ ": read error: Invalid argument"
        else "failed to open " ++ Quotation.quotedPath path ++ " for reading: " ++ fault.words)
      fun _ cs => say (String.ofList (fullLines cs).reverse.flatten)

/-- The characters of a text of bytes: each as its bytes. -/
def characters (cs : List Char) : List (List Char) :=
  (Quotation.parts cs.length cs).map fun
    | .shown cs => cs
    | .hidden c => [c]

/-- Each line backwards. -/
def rev (c : Call) : Action Nat :=
  c.read [] fun _ paths =>
    c.overContents paths (fun path fault => "cannot open " ++ path ++ ": " ++ fault.words)
      fun _ cs => do
        for line in fullLines cs do
          let (text, feed) := (line.filter (· != '\n'), line.filter (· == '\n'))
          say (String.ofList ((characters text).reverse.flatten ++ feed))

/-- Number lines. -/
def nl (c : Call) : Action Nat :=
  c.read [⟨'b', "body-numbering", true, false⟩, ⟨'n', "number-format", true, false⟩,
      ⟨'w', "number-width", true, false⟩, ⟨'s', "number-separator", true, false⟩,
      ⟨'v', "starting-line-number", true, false⟩, ⟨'i', "line-increment", true, false⟩]
    fun chosen paths => do
    let (status, files) ← c.contents paths plainFault
    let number (letter : Char) (otherwise : Nat) : Nat :=
      ((Chosen.last? letter chosen).bind countOf?).getD otherwise
    let width := number 'w' 6
    let separator := (Chosen.last? 's' chosen).getD "\t"
    let all := Chosen.last? 'b' chosen == some "a"
    let shown (n : Nat) : String :=
      match Chosen.last? 'n' chosen with
      | some "ln" =>
        toString n ++ String.ofList (List.replicate (width - (toString n).length) ' ')
      | some "rz" =>
        String.ofList (List.replicate (width - (toString n).length) '0') ++ toString n
      | _ => column width (toString n)
    let blank := String.ofList (List.replicate (width + separator.length) ' ')
    let step (state : Nat × List String) (line : List Char) : Nat × List String :=
      let text := String.ofList line ++ "\n"
      if all || !line.isEmpty then
        (state.1 + number 'i' 1, (shown state.1 ++ separator ++ text) :: state.2)
      else (state.1, (blank ++ text) :: state.2)
    let (_, found) := (linesOf files.flatten).foldl step (number 'v' 1, [])
    for line in found.reverse do
      say line
    return status

/-! ## Ends of files -/

/-- What is kept of a file: a number of lines or of bytes, at its front or its end, or all but
those. -/
structure Share where
  bytes : Bool := false
  count : Nat := 10
  /-- Not so many, but all the others. -/
  others : Bool := false

/-- The part of a text at its front. -/
def Share.front (s : Share) (cs : List Char) : List Char :=
  let cut {α : Type} (all : List α) : List α :=
    all.take (if s.others then all.length - s.count else s.count)
  if s.bytes then cut cs else (cut (fullLines cs)).flatten

/-- The part of a text at its end. -/
def Share.back (s : Share) (cs : List Char) : List Char :=
  let cut {α : Type} (all : List α) : List α :=
    all.drop (if s.others then s.count - 1 else all.length - s.count)
  if s.bytes then cut cs else (cut (fullLines cs)).flatten

/-- An argument that is a count by itself, as options. -/
def oldCount (isHead : Bool) (arguments : List String) : List String :=
  match arguments with
  | word :: rest =>
    match word.toList with
    | sign :: d :: cs =>
      let digits := (d :: cs).takeWhile Char.isDigit
      let letters := (d :: cs).drop digits.length
      let takes := sign == '-' || (sign == '+' && !isHead)
      let kind := if letters == ['c'] then "-c" else "-n"
      if takes && !digits.isEmpty && (letters.isEmpty || letters == ['c'] || letters == ['l']) then
        kind :: String.ofList (if sign == '+' then '+' :: digits else digits) :: rest
      else arguments
    | _ => arguments
  | [] => []

/-- Write the first or the last lines, or bytes, of files. -/
def ends (isHead : Bool) (c : Call) : Action Nat := do
  let c := { c with arguments := oldCount isHead c.arguments }
  c.read ([⟨'n', "lines", true, false⟩, ⟨'c', "bytes", true, false⟩, plain 'q' "quiet",
      plain 'q' "silent", plain 'v' "verbose", plain 'z' "zero-terminated"] ++
      if isHead then [] else [plain 'f' "follow", plain 'F' ""]) fun chosen paths => do
    let last := Chosen.among? ['n', 'c'] chosen
    let bytes := last == some 'c'
    let text := (last.bind fun o => Chosen.last? o chosen).getD "10"
    let sign := if isHead then '-' else '+'
    let others := text.toList.head? == some sign
    let digits := if others || text.toList.head? == some (if isHead then '+' else '-') then
        String.ofList (text.toList.drop 1) else text
    match countOf? digits with
    | none =>
      c.refuse ("invalid number of " ++ (if bytes then "bytes" else "lines") ++ ": " ++
        Quotation.word text)
    | some count =>
      let share : Share := { bytes, count, others }
      let paths := orInput paths
      let headed := (1 < paths.length && !Chosen.has 'q' chosen) || Chosen.has 'v' chosen
      writeAll share headed false paths
where
  /-- Write parts of files. `hasTitle` is set behind the title of another file. -/
  writeAll (share : Share) (headed hasTitle : Bool) : List String → Action Nat
    | [] => return 0
    | path :: rest => do
      let title : Action Unit := do
        if headed then
          say ((if hasTitle then "\n" else "") ++ "==> " ++
            (if path == "-" then "standard input" else path) ++ " <==\n")
      match ← textOf path with
      | .ok cs =>
        title
        say (String.ofList (if isHead then share.front cs else share.back cs))
        writeAll share headed headed rest
      | .error fault =>
        let isDirectory := fault == .isDirectory
        if isDirectory then title
        c.complain (readingFault path fault)
        return max 1 (← writeAll share headed (hasTitle || (headed && isDirectory)) rest)

/-! ## Counts -/

/-- How many words there are. -/
def wordCount (cs : List Char) : Nat :=
  let isBlank (c : Char) : Bool := c == ' ' || ('\t' ≤ c && c ≤ '\r')
  (cs.foldl (fun (n, inWord) c =>
    if isBlank c then (n, false) else (if inWord then n else n + 1, true)) ((0 : Nat), false)).1

/-- The counts of a text: its lines, words, characters and bytes, and the length of its longest
line. -/
def counts (cs : List Char) : List (Char × Nat) :=
  let width (line : List Char) : Nat := (characters line).length
  [('l', cs.count '\n'), ('w', wordCount cs), ('m', (characters cs).length), ('c', cs.length),
    ('L', (linesOf cs).foldl (fun n line => max n (width line)) 0)]

/-- Count lines, words and bytes. -/
def wc (c : Call) : Action Nat :=
  c.read [plain 'l' "lines", plain 'w' "words", plain 'm' "chars", plain 'c' "bytes",
      plain 'L' "max-line-length"] fun chosen words => do
    let letters := if chosen.isEmpty then ['l', 'w', 'c']
      else ['l', 'w', 'm', 'c', 'L'].filter fun o => Chosen.has o chosen
    let paths := orInput words
    let m ← get
    let isFile (path : String) : Option Nat :=
      if path == "-" then
        match m.openFile? 0 with
        | some (_, file) =>
          match file.target with
          | .file place =>
            match m.tree.get? place with
            | some (.file content _) => some content.size
            | _ => none
          | _ => none
        | none => none
      else
        match m.tree.entryAt m.current true (Machine.path path) with
        | .ok (place, .file content _) =>
          if place == Program.nothing then none else some content.size
        | _ => none
    let isThere (path : String) : Bool :=
      path == "-" || (m.tree.entryAt m.current true (Machine.path path)).isOk
    let total := paths.foldl (fun n path => n + (isFile path).getD 0) 0
    let least := if paths.any fun path => isThere path && (isFile path).isNone then 7 else 1
    let isBare := paths.length == 1 && letters.length == 1
    let width := if isBare then 1 else max least (toString total).length
    let row (found : List (Char × Nat)) (label : String) : Action Unit :=
      let columns := letters.map fun o => column width (toString ((found.lookup o).getD 0))
      say (" ".intercalate columns ++ (if label.isEmpty then "" else " " ++ label) ++ "\n")
    let (status, sums) ← countAll row (words.isEmpty) paths
    if 1 < paths.length then row sums "total"
    return status
where
  countAll (row : List (Char × Nat) → String → Action Unit) (isInput : Bool) :
      List String → Action (Nat × List (Char × Nat))
    | [] => return (0, counts [])
    | path :: rest => do
      let found ← textOf path
      let label := if isInput then "" else path
      let own ← match found with
        | .ok cs =>
          row (counts cs) label
          pure (counts cs)
        | .error fault =>
          c.complain (plainFault path fault)
          if fault == .isDirectory then row (counts []) label
          pure (counts [])
      let (status, more) ← countAll row isInput rest
      let sums := own.map fun (o, n) =>
        let other := (more.lookup o).getD 0
        (o, if o == 'L' then max n other else n + other)
      return (if found.isOk then status else 1, sums)

/-! ## Comparing -/

/-- Where two texts first differ: how many bytes and lines are in front, and what follows. -/
def difference : Nat → Nat → List Char → List Char → Nat × Nat × List Char × List Char
  | bytes, lines, a :: as, b :: bs =>
    if a == b then difference (bytes + 1) (if a == '\n' then lines + 1 else lines) as bs
    else (bytes, lines, a :: as, b :: bs)
  | bytes, lines, as, bs => (bytes, lines, as, bs)

/-- Compare two files. -/
def cmp (c : Call) : Action Nat :=
  c.read [plain 's' "quiet", plain 's' "silent", plain 'l' "verbose", plain 'b' "print-bytes"]
    (fun chosen words => do
      let quiet := Chosen.has 's' chosen
      match words with
      | [] =>
        c.complain ("missing operand after " ++ "'" ++ c.name ++ "'")
        c.refuse ("Try '" ++ c.name ++ " --help' for more information.") 2
      | first :: rest =>
        let second := rest.head?.getD "-"
        match ← textOf first, ← textOf second with
        | .error fault, _ => failing quiet first fault
        | _, .error fault => failing quiet second fault
        | .ok a, .ok b =>
          if a == b then return 0
          if quiet then return 1
          let (bytes, lines, as, bs) := difference 0 0 a b
          if as.isEmpty || bs.isEmpty then
            let short := if as.isEmpty then first else second
            if bytes == 0 then c.refuse ("EOF on " ++ short ++ " which is empty")
            else
              let line := if (if as.isEmpty then a else b).getLast? == some '\n' then lines
                else lines + 1
              c.refuse ("EOF on " ++ short ++ " after byte " ++ toString bytes ++ ", " ++
                (if line == lines then "line " else "in line ") ++ toString line)
          else
            say (first ++ " " ++ second ++ " differ: byte " ++ toString (bytes + 1) ++ ", line " ++
              toString (lines + 1) ++ "\n")
            return 1) 2
where
  failing (quiet : Bool) (path : String) (fault : Fault) : Action Nat := do
    if quiet && fault == .notFound then return 2
    c.refuse (path ++ ": " ++ fault.words) 2

/-- The digests of files. -/
def sha256sum (c : Call) : Action Nat :=
  c.read [plain 'b' "binary", plain 't' "text"] fun _ paths =>
    c.overContents paths plainFault fun path cs => do
      let w := Digest.sha256 (Bytes.write (String.ofList cs))
      let words := [w.a, w.b, w.c, w.d, w.e, w.f, w.g, w.h]
      say (String.ofList (words.flatMap Digest.hexOfWord) ++ "  " ++ path ++ "\n")

end EmbeddedSolidity.Utility.Content
