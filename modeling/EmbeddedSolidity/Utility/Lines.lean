import EmbeddedSolidity.Utility.Content

/-!
# Lines in order

Sorting lines by keys, leaving out lines that repeat one before, and telling the lines of two
sorted files apart.
-/

namespace EmbeddedSolidity.Utility.Lines

open FileSystem (Fault FileTree)
open Shell

/-- A switch without a text. -/
def plain (letter : Char) (long : String) : Switch :=
  ⟨letter, long, false, false⟩

/-! ## Keys -/

/-- Where a key begins or ends: behind how many fields and characters. -/
structure Bound where
  field : Nat
  offset : Nat

/-- A key of lines. -/
structure Key where
  first : Bound := ⟨0, 0⟩
  last : Option Bound := none
  /-- The letters of how it is compared. -/
  letters : List Char := []

/-- The character is a blank. -/
def isBlank (c : Char) : Bool :=
  c == ' ' || c == '\t'

/-- The text behind a number of fields. -/
def behindFields (separator : Option Char) : Nat → List Char → List Char
  | 0, cs => cs
  | n + 1, cs =>
    match separator with
    | some s => behindFields separator n ((cs.dropWhile (· != s)).drop 1)
    | none => behindFields separator n ((cs.dropWhile isBlank).dropWhile (!isBlank ·))

/-- How many characters of a line lie before a bound of its key; `atEnd` if it is the last one. -/
def position (separator : Option Char) (skips atEnd : Bool) (b : Bound) (line : List Char) : Nat :=
  if atEnd && b.offset == 0 then
    let rest := behindFields separator b.field line
    let size := match separator with
      | some s => (rest.takeWhile (· != s)).length
      | none => (rest.takeWhile isBlank).length + ((rest.dropWhile isBlank).takeWhile (!isBlank ·)).length
    line.length - rest.length + size
  else
    let rest := behindFields separator b.field line
    let rest := if skips then rest.dropWhile isBlank else rest
    line.length - (rest.drop b.offset).length

/-- The part of a line that a key is. -/
def Key.of (separator : Option Char) (k : Key) (line : List Char) : List Char :=
  let skips := k.letters.contains 'b'
  let start := position separator skips false k.first line
  let stop := (k.last.map (position separator skips true · line)).getD line.length
  (line.take stop).drop start

/-- A bound with the letters behind it. -/
def bound? (cs : List Char) : Option (Nat × Option Nat × List Char) :=
  let digits := cs.takeWhile Char.isDigit
  let rest := cs.drop digits.length
  if digits.isEmpty then none
  else
    let value (ds : List Char) : Nat := ds.foldl (fun n c => n * 10 + (c.toNat - 48)) 0
    match rest with
    | '.' :: more =>
      let places := more.takeWhile Char.isDigit
      some (value digits, some (value places), more.drop places.length)
    | _ => some (value digits, none, rest)

/-- The key that a text describes, or what is wrong with it. -/
def key (text : String) : Except String Key :=
  let cs := text.toList
  let front := cs.takeWhile (· != ',')
  let back := (cs.drop front.length).drop 1
  match bound? front with
  | none =>
    .error ("invalid number at field start: invalid count at start of " ++ Quotation.word text)
  | some (field, offset, letters) =>
    if field == 0 then
      .error ("field number is zero: invalid field specification " ++ Quotation.word text)
    else if offset == some 0 then
      .error ("character offset is zero: invalid field specification " ++ Quotation.word text)
    else if !letters.all fun c => "bdfginrRhMV".toList.contains c then
      .error ("stray character in field spec: invalid field specification " ++ Quotation.word text)
    else
      let first : Bound := ⟨field - 1, offset.getD 1 - 1⟩
      if back.isEmpty then .ok { first, letters }
      else
        match bound? back with
        | none => .error ("invalid number after ',': invalid count at start of " ++
            Quotation.word (String.ofList back))
        | some (field, offset, more) =>
          .ok { first, last := some ⟨field - 1, offset.getD 0⟩, letters := letters ++ more }

/-! ## Comparing -/

/-- One text is before another one. -/
def compareTexts : List Char → List Char → Ordering
  | [], [] => .eq
  | [], _ :: _ => .lt
  | _ :: _, [] => .gt
  | a :: as, b :: bs => if a == b then compareTexts as bs else compare a.toNat b.toNat

/-- The decimal number at the front of a text, over a power of ten. -/
def numberOf (cs : List Char) : Int × Nat :=
  let cs := cs.dropWhile isBlank
  let (negative, cs) := match cs with
    | '-' :: rest => (true, rest)
    | _ => (false, cs)
  let whole := cs.takeWhile Char.isDigit
  let places := match cs.drop whole.length with
    | '.' :: rest => rest.takeWhile Char.isDigit
    | _ => []
  let n : Nat := (whole ++ places).foldl (fun n c => n * 10 + (c.toNat - 48)) 0
  (if negative then -(n : Int) else n, places.length)

/-- The order of the numbers at the front of two texts. -/
def compareNumbers (a b : List Char) : Ordering :=
  let (x, i) := numberOf a
  let (y, j) := numberOf b
  compare (x * Int.pow 10 j) (y * Int.pow 10 i)

/-- The power of a number with a unit behind it. -/
def unitOf (cs : List Char) : Nat :=
  let rest := (cs.dropWhile isBlank).dropWhile fun c => c.isDigit || c == '.' || c == '-'
  match rest.head? with
  | some c => (("KMGTPEZY".toList.findIdx? (· == c)).map (· + 1)).getD (if c == 'k' then 1 else 0)
  | none => 0

/-- Cut the next part of a version from a text: characters up to a digit, and a number. -/
def compareVersions : Nat → List Char → List Char → Ordering
  | 0, a, b => compareTexts a b
  | n + 1, a, b =>
    if a.isEmpty && b.isEmpty then .eq
    else
      let (s, t) := (a.takeWhile (!Char.isDigit ·), b.takeWhile (!Char.isDigit ·))
      match compareTexts s t with
      | .eq =>
        let (a, b) := (a.drop s.length, b.drop t.length)
        match compareNumbers (a.takeWhile Char.isDigit) (b.takeWhile Char.isDigit) with
        | .eq => compareVersions n (a.dropWhile Char.isDigit) (b.dropWhile Char.isDigit)
        | o => o
      | o => o

/-- The order of two keys. -/
def Key.compare (letters : List Char) (a b : List Char) : Ordering :=
  let order :=
    if letters.contains 'n' || letters.contains 'g' then compareNumbers a b
    else if letters.contains 'h' then
      match Ord.compare (unitOf a) (unitOf b) with
      | .eq => compareNumbers a b
      | o => o
    else if letters.contains 'V' then compareVersions (a.length + b.length) a b
    else
      let kept (cs : List Char) : List Char :=
        let cs := if letters.contains 'd' then cs.filter fun c => c.isAlphanum || isBlank c else cs
        let cs := if letters.contains 'i' then cs.filter fun c => ' ' ≤ c && c ≤ '~' else cs
        if letters.contains 'f' then cs.map Char.toUpper else cs
      compareTexts (kept a) (kept b)
  if letters.contains 'r' then order.swap else order

/-- How lines are ordered. -/
structure Order where
  separator : Option Char := none
  keys : List Key
  letters : List Char := []

/-- The order of two lines by their keys. -/
def Order.byKeys (o : Order) (a b : List Char) : Ordering :=
  o.keys.foldl (fun found k =>
    match found with
    | .eq =>
      let letters := if k.letters.all (· == 'b') then k.letters ++ o.letters else k.letters
      let k := { k with letters }
      Key.compare letters (k.of o.separator a) (k.of o.separator b)
    | found => found) .eq

/-- The order of two lines; the whole lines count last, unless `stable` is set. -/
def Order.lines (o : Order) (stable : Bool) (a b : List Char) : Ordering :=
  match o.byKeys a b with
  | .eq =>
    if stable then .eq
    else if o.letters.contains 'r' then compareTexts b a
    else compareTexts a b
  | found => found

/-! ## Sorting -/

/-- Leave out lines that equal the one before. -/
def withoutRepeats (same : List Char → List Char → Bool) : List (List Char) → List (List Char)
  | [] => []
  | line :: rest =>
    match withoutRepeats same rest with
    | next :: more => if same line next then line :: more else line :: next :: more
    | [] => [line]

/-- The first line that does not follow the one before, with its number. -/
def disorder? (follows : List Char → List Char → Bool) : Nat → List (List Char) →
    Option (Nat × List Char)
  | n, a :: b :: rest =>
    if follows a b then disorder? follows (n + 1) (b :: rest) else some (n + 1, b)
  | _, _ => none

/-- Write the lines of files in order. -/
def sort (c : Call) : Action Nat :=
  c.read [plain 'b' "ignore-leading-blanks", plain 'd' "dictionary-order", plain 'f' "ignore-case",
      plain 'g' "general-numeric-sort", plain 'i' "ignore-nonprinting", plain 'n' "numeric-sort",
      plain 'h' "human-numeric-sort", plain 'r' "reverse", plain 'V' "version-sort",
      plain 'M' "month-sort", plain 'R' "random-sort", plain 'c' "check", plain 'C' "",
      plain 'm' "merge", plain 's' "stable", plain 'u' "unique", plain 'z' "zero-terminated",
      ⟨'k', "key", true, false⟩, ⟨'t', "field-separator", true, false⟩,
      ⟨'o', "output", true, false⟩, ⟨'S', "buffer-size", true, false⟩,
      ⟨'T', "temporary-directory", true, false⟩] (fun chosen paths => do
    let letters := (chosen.map (·.1)).filter "bdfginrhVMR".toList.contains
    let keyTexts := chosen.filterMap fun o => if o.1 == 'k' then o.2 else none
    let separator := Chosen.last? 't' chosen
    match keyTexts.mapM key, separator.map fun s => s.toList with
    | .error message, _ => c.refuse message 2
    | .ok _, some [] => c.refuse "empty tab" 2
    | .ok keys, tab =>
      if tab.any fun t => 1 < t.length && t != ['\\', '0'] then
        return ← c.refuse ("multi-character tab " ++ Quotation.word (separator.getD "")) 2
      let keys := if keys.isEmpty then [{ letters }] else keys
      let order : Order := { separator := tab.bind List.head?, keys, letters }
      let unique := Chosen.has 'u' chosen
      let stable := Chosen.has 's' chosen || unique
      let fault (path : String) (fault : Fault) : String :=
        (if fault == .isDirectory then "read failed: " else "cannot read: ") ++
          plainFault path fault
      match ← readAllOf fault (orInput paths) with
      | none => return 2
      | some files =>
        let lines := files.flatMap linesOf
        if Chosen.has 'c' chosen || Chosen.has 'C' chosen then
          let follows (a b : List Char) : Bool :=
            let found := order.lines stable a b
            if unique then found == .lt else found != .gt
          match disorder? follows 1 lines with
          | none => return 0
          | some (n, line) =>
            if Chosen.has 'C' chosen then return 1
            c.refuse (paths.head?.getD "-" ++ ":" ++ toString n ++ ": disorder: " ++
              String.ofList line)
        else
          let sorted := lines.mergeSort fun a b => order.lines stable a b != .gt
          let same (a b : List Char) : Bool := order.byKeys a b == .eq
          let shown := if unique then withoutRepeats same sorted else sorted
          match Chosen.last? 'o' chosen with
          | none =>
            sayLines shown
            return 0
          | some path =>
            let bytes := Bytes.write (String.ofList (shown.flatMap (· ++ ['\n'])))
            match ← change fun t current => t.write current (Machine.path path) bytes with
            | .ok () => return 0
            | .error fault => c.refuse ("open failed: " ++ plainFault path fault) 2) 2
where
  /-- What is in files, unless one cannot be read. -/
  readAllOf (fault : String → Fault → String) : List String → Action (Option (List (List Char)))
    | [] => return some []
    | path :: rest => do
      match ← textOf path with
      | .error reason =>
        c.complain (fault path reason)
        return none
      | .ok cs => return (← readAllOf fault rest).map (cs :: ·)

/-! ## Repeated lines -/

/-- Runs of lines that are the same. -/
def runs (same : List Char → List Char → Bool) : List (List Char) → List (List (List Char))
  | [] => []
  | line :: rest =>
    match runs same rest with
    | (next :: run) :: more =>
      if same line next then (line :: next :: run) :: more else [line] :: (next :: run) :: more
    | more => [line] :: more

/-- Leave out lines that repeat the one before. -/
def uniq (c : Call) : Action Nat :=
  c.read [plain 'c' "count", plain 'd' "repeated", plain 'D' "", plain 'u' "unique",
      plain 'i' "ignore-case", ⟨'f', "skip-fields", true, false⟩,
      ⟨'s', "skip-chars", true, false⟩, ⟨'w', "check-chars", true, false⟩,
      plain 'z' "zero-terminated"] fun chosen words => do
    let bad (letter : Char) (what : String) : Option String := do
      let text ← Chosen.last? letter chosen
      if (countOf? text).isSome then none
      else some (text ++ ": invalid number of " ++ what)
    match bad 'f' "fields to skip", bad 's' "bytes to skip", bad 'w' "bytes to compare", words with
    | some message, _, _, _ | _, some message, _, _ | _, _, some message, _ => c.refuse message
    | none, none, none, _ :: _ :: word :: _ => c.extra word
    | none, none, none, words =>
      let path := words.head?.getD "-"
      match ← textOf path with
      | .error fault =>
        if fault == .isDirectory then c.refuse (readingFault path fault)
        else c.refuse (plainFault path fault)
      | .ok cs =>
        let number (letter : Char) : Option Nat := (Chosen.last? letter chosen).bind countOf?
        let part (line : List Char) : List Char :=
          let rest := (behindFields none ((number 'f').getD 0) line).drop ((number 's').getD 0)
          let rest := ((number 'w').map rest.take).getD rest
          if Chosen.has 'i' chosen then rest.map Char.toUpper else rest
        let shown := (runs (fun a b => part a == part b) (linesOf cs)).filter fun run =>
          !(Chosen.has 'd' chosen && run.length < 2) && !(Chosen.has 'u' chosen && 1 < run.length)
        let text := shown.flatMap fun run =>
          let count := if Chosen.has 'c' chosen then
              (Content.column 7 (toString run.length) ++ " ").toList
            else []
          if Chosen.has 'D' chosen then
            if run.length < 2 then [] else run.flatMap (· ++ ['\n'])
          else count ++ run.head?.getD [] ++ ['\n']
        match words.drop 1 with
        | [] =>
          say (String.ofList text)
          return 0
        | target :: _ =>
          let bytes := Bytes.write (String.ofList text)
          match ← change fun t current => t.write current (Machine.path target) bytes with
          | .ok () => return 0
          | .error fault => c.refuse (plainFault target fault)

/-- The lines of two sorted files, each with the column it stands in. The number is at least the
number of lines. -/
def columns : Nat → List (List Char) → List (List Char) → List (Nat × List Char)
  | 0, _, _ => []
  | n + 1, as, bs =>
    match as, bs with
    | [], [] => []
    | a :: as, [] => (1, a) :: columns n as []
    | [], b :: bs => (2, b) :: columns n [] bs
    | a :: as, b :: bs =>
      match compareTexts a b with
      | .lt => (1, a) :: columns n as (b :: bs)
      | .gt => (2, b) :: columns n (a :: as) bs
      | .eq => (3, a) :: columns n as bs

/-- Tell the lines of two sorted files apart. -/
def comm (c : Call) : Action Nat :=
  c.read [plain '1' "", plain '2' "", plain '3' ""] fun chosen words => do
    match words with
    | [] => c.missing
    | [word] => c.misused ("missing operand after " ++ Quotation.word word)
    | _ :: _ :: word :: _ => c.extra word
    | [first, second] =>
      match ← textOf first, ← textOf second with
      | .error fault, _ => c.refuse (plainFault first fault)
      | _, .error fault => c.refuse (plainFault second fault)
      | .ok a, .ok b =>
        let (as, bs) := (linesOf a, linesOf b)
        let hidden (n : Nat) : Bool := Chosen.has (Char.ofNat (48 + n)) chosen
        for (n, line) in columns (as.length + bs.length) as bs do
          if !hidden n then
            let tabs := ((List.range n).filter fun k => 0 < k && !hidden k).length
            say (String.ofList (List.replicate tabs '\t' ++ line ++ ['\n']))
        let follows (a b : List Char) : Bool := compareTexts a b != .gt
        let bad (lines : List (List Char)) : Bool := as != bs && (disorder? follows 1 lines).isSome
        if bad as then c.complain "file 1 is not in sorted order"
        if bad bs then c.complain "file 2 is not in sorted order"
        if bad as || bad bs then c.refuse "input is not in sorted order" else return 0

end EmbeddedSolidity.Utility.Lines
