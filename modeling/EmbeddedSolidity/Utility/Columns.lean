import EmbeddedSolidity.Shell.Charset
import EmbeddedSolidity.Shell.Format
import EmbeddedSolidity.Utility.Content

/-!
# Parts of lines

Cutting parts out of lines, changing characters into others, putting lines side by side, folding
long lines, and showing bytes.
-/

namespace EmbeddedSolidity.Utility.Columns

open FileSystem (Fault FileTree)
open Shell

/-- A switch without a text. -/
def plain (letter : Char) (long : String) : Switch :=
  ⟨letter, long, false, false⟩

/-- A switch with a text. -/
def withText (letter : Char) (long : String) : Switch :=
  ⟨letter, long, true, false⟩

/-! ## Cutting -/

/-- Ranges of positions; a range without an end goes on. -/
abbrev Ranges := List (Nat × Option Nat)

/-- The position is in one of the ranges. -/
def Ranges.contain (ranges : Ranges) (n : Nat) : Bool :=
  ranges.any fun (low, high) => low ≤ n && high.all (n ≤ ·)

/-- The ranges that a list describes, or what is wrong with it. -/
def rangesOf (fields : Bool) (text : String) : Except String Ranges :=
  ((Text.cut ',' text.toList).flatMap (Text.cut ' ')).mapM fun cs =>
    let low := cs.takeWhile Char.isDigit
    let value (ds : List Char) : Nat := ds.foldl (fun n c => n * 10 + (c.toNat - 48)) 0
    let what := if fields then "field value" else "byte/character position"
    let zero := if fields then "fields are numbered from 1"
      else "byte/character positions are numbered from 1"
    match cs.drop low.length with
    | [] =>
      if low.isEmpty || value low == 0 then .error zero else .ok (value low, some (value low))
    | '-' :: high =>
      if !high.all Char.isDigit then
        .error ("invalid " ++ what ++ " " ++ Quotation.word (String.ofList cs))
      else if low.isEmpty && high.isEmpty then .error "invalid range with no endpoint: -"
      else if !low.isEmpty && value low == 0 then .error zero
      else
        let first := if low.isEmpty then 1 else value low
        if high.isEmpty then .ok (first, none)
        else if value high < first then .error "invalid decreasing range"
        else .ok (first, some (value high))
    | _ =>
      .error ("invalid " ++ what ++ " " ++ Quotation.word (String.ofList cs))

/-- Cut parts out of lines. -/
def cut (c : Call) : Action Nat :=
  c.read [withText 'b' "bytes", withText 'c' "characters", withText 'f' "fields",
      withText 'd' "delimiter", plain 's' "only-delimited", plain 'n' "",
      plain 'C' "complement", withText 'O' "output-delimiter", plain 'z' "zero-terminated"]
    fun chosen paths => do
    let lists := chosen.filter fun o => ['b', 'c', 'f'].contains o.1
    let delimiter := (Chosen.last? 'd' chosen).getD "\t"
    match lists with
    | [] => c.misused "you must specify a list of bytes, characters, or fields"
    | _ :: _ :: _ => c.misused "only one list may be specified"
    | [(letter, text)] =>
      let fields := letter == 'f'
      if 1 < delimiter.length then return ← c.misused "the delimiter must be a single character"
      if !fields && Chosen.has 'd' chosen then
        return ← c.misused "an input delimiter may be specified only when operating on fields"
      if !fields && Chosen.has 's' chosen then
        return ← c.misused
          "suppressing non-delimited lines makes sense\n\tonly when operating on fields"
      match rangesOf fields (text.getD "") with
      | .error message => c.misused message
      | .ok ranges =>
        let kept (n : Nat) : Bool := ranges.contain n != Chosen.has 'C' chosen
        let separator := delimiter.toList.head?.getD '\x00'
        let between := (Chosen.last? 'O' chosen).getD
          (if fields then String.singleton separator else "")
        let pick {α : Type} (all : List α) : List α :=
          ((all.zipIdx 1).filter fun a => kept a.2).map (·.1)
        let part (line : List Char) : Option (List Char) :=
          if !fields then some (pick line)
          else if !line.contains separator then
            if Chosen.has 's' chosen then none else some line
          else some (between.toList.intercalate (pick (Text.cut separator line)))
        c.overContents paths plainFault fun _ cs => sayLines ((linesOf cs).filterMap part)

/-! ## Changing characters -/

/-- A member of a set that `tr` is given. -/
inductive Member where
  | one (c : Char)
  /-- A character many times; as often as needed if there is no number. -/
  | many (c : Char) (count : Option Nat)
  | ofClass (name : String)

/-- The bytes in order. -/
def allBytes : List Char :=
  (List.range 256).map Char.ofNat

/-- The bytes of a class. -/
def classOf? (name : String) : Option (List Char) :=
  (Charset.classes.lookup name).map fun f => allBytes.filter f

/-- The next character of a set, which may be an escape, and what follows. -/
def nextChar : List Char → Option (Char × List Char)
  | [] => none
  | '\\' :: rest =>
    if rest.isEmpty then some ('\\', [])
    else
      match Format.escape rest with
      | ('\\', more) =>
        match rest with
        | '\\' :: _ => some ('\\', more)
        | c :: behind => some (c, behind)
        | [] => some ('\\', [])
      | found => some found
  | c :: rest => some (c, rest)

/-- The members of a set, or what is wrong with it. The number is at least the length of the
text. -/
def membersOf : Nat → List Char → Except String (List Member)
  | 0, _ | _, [] => .ok []
  | n + 1, cs =>
    match special? cs with
    | some (.error message) => .error message
    | some (.ok (member, rest)) => (membersOf n rest).map (member :: ·)
    | none =>
      match nextChar cs with
      | none => .ok []
      | some (low, rest) =>
        match rest with
        | '-' :: next =>
          match nextChar next with
          | none => (membersOf n rest).map (.one low :: ·)
          | some (high, rest) =>
            if high.toNat < low.toNat then
              let shown := String.ofList (Content.visible true low ++ '-' :: Content.visible true high)
              .error ("range-endpoints of '" ++ shown ++ "' are in reverse collating sequence order")
            else
              let range := (List.range (high.toNat + 1 - low.toNat)).map fun k =>
                Member.one (Char.ofNat (low.toNat + k))
              (membersOf n rest).map (range ++ ·)
        | _ => (membersOf n rest).map (.one low :: ·)
where
  /-- A class, characters that count as one, or a character many times. -/
  special? (cs : List Char) : Option (Except String (Member × List Char)) :=
    match cs with
    | '[' :: ':' :: rest =>
      let name := rest.takeWhile (· != ':')
      match rest.drop name.length with
      | ':' :: ']' :: more =>
        let name := String.ofList name
        if (Charset.classes.lookup name).isSome then some (.ok (.ofClass name, more))
        else some (.error ("invalid character class " ++ Quotation.word name))
      | _ => none
    | '[' :: '=' :: c :: '=' :: ']' :: rest => some (.ok (.one c, rest))
    | '[' :: rest =>
      match nextChar rest with
      | some (c, '*' :: more) =>
        let digits := more.takeWhile Char.isDigit
        match more.drop digits.length with
        | ']' :: behind =>
          let base := if digits.head? == some '0' then 8 else 10
          let n : Nat := digits.foldl (fun n c => n * base + (c.toNat - 48)) 0
          some (.ok (.many c (if n == 0 then none else some n), behind))
        | _ => none
      | _ => none
    | _ => none

/-- The characters of a set, of which one may be repeated to fill it up to a size. -/
def spread (size : Nat) (members : List Member) : List Char :=
  let fixed : Nat := members.foldl (fun n m => n + match m with
    | .one _ => 1
    | .many _ count => count.getD 0
    | .ofClass name => ((classOf? name).getD []).length) 0
  members.flatMap fun
    | .one c => [c]
    | .many c count => List.replicate (count.getD (size - fixed)) c
    | .ofClass name => (classOf? name).getD []

/-- A set has members of the classes of small or of large letters. -/
def caseClasses (members : List Member) : List String :=
  members.filterMap fun
    | .ofClass name => if name == "lower" || name == "upper" then some name else none
    | _ => none

/-- Leave out characters of a set that repeat the one before. -/
def squeezed (set : List Char) : List Char → List Char
  | a :: b :: rest =>
    if a == b && set.contains a then squeezed set (b :: rest) else a :: squeezed set (b :: rest)
  | cs => cs

/-- Change, leave out or squeeze characters. -/
def tr (c : Call) : Action Nat :=
  c.read [plain 'c' "complement", plain 'C' "", plain 'd' "delete", plain 's' "squeeze-repeats",
      plain 't' "truncate-set1"] (fun chosen words => do
    let deletes := Chosen.has 'd' chosen
    let squeezes := Chosen.has 's' chosen
    let complemented := Chosen.has 'c' chosen || Chosen.has 'C' chosen
    match words with
    | [] => return ← c.missing
    | [word] =>
      if deletes == squeezes then
        c.complain ("missing operand after " ++ Quotation.word word)
        complain (if deletes then
            "Two strings must be given when both deleting and squeezing repeats."
          else "Two strings must be given when translating.")
        c.refer
        return 1
    | [_, word] =>
      if deletes && !squeezes then
        c.complain ("extra operand " ++ Quotation.word word)
        complain "Only one string may be given when deleting without squeezing repeats."
        c.refer
        return 1
    | _ :: _ :: word :: _ => return ← c.extra word
    match words.mapM fun word => membersOf (word.length + 1) word.toList with
    | .error message => c.refuse message
    | .ok sets =>
      let first := spread 0 (sets.head?.getD [])
      let first := if complemented then allBytes.filter (!first.contains ·) else first
      let members := (sets[1]?).getD []
      let second := spread first.length members
      let cs := (Bytes.read (← readAll 0)).toList
      if deletes then
        let left := cs.filter (!first.contains ·)
        say (String.ofList (if squeezes then squeezed second left else left))
        return 0
      else if sets.length < 2 then
        say (String.ofList (squeezed first cs))
        return 0
      else if second.isEmpty && !Chosen.has 't' chosen then
        c.refuse "when not truncating set1, string2 must be non-empty"
      else if !(caseClasses members).isEmpty &&
          (caseClasses (sets.head?.getD [])).length < (caseClasses members).length then
        c.refuse "misaligned [:upper:] and/or [:lower:] construct"
      else
        let last := second.getLast?.getD '\x00'
        let first := if Chosen.has 't' chosen then first.take second.length else first
        let targets := second ++ List.replicate (first.length - second.length) last
        let pairs := (first.zip targets).reverse
        let table : Array Char := (allBytes.map fun b => (pairs.lookup b).getD b).toArray
        let changed := cs.map fun b => table.getD b.toNat b
        say (String.ofList (if squeezes then squeezed second changed else changed))
        return 0) 1 false

/-! ## Putting lines side by side -/

/-- The separators that a text lists. -/
def separatorsOf (text : String) : List (List Char) :=
  go (text.length + 1) text.toList
where
  go : Nat → List Char → List (List Char)
    | 0, _ | _, [] => []
    | n + 1, '\\' :: '0' :: rest => [] :: go n rest
    | n + 1, cs =>
      match nextChar cs with
      | some (c, rest) => [c] :: go n rest
      | none => []

/-- Rows of lines side by side, of which the first ones are given. The number bounds how many
there are. -/
def rows : Nat → List (List (List Char)) → List (List (List Char))
  | 0, _ => []
  | n + 1, files =>
    if files.all List.isEmpty then []
    else files.map (·.head?.getD []) :: rows n (files.map (·.drop 1))

/-- Lines with separators between them, which are used in turn. -/
def joined (separators : List (List Char)) (lines : List (List Char)) : List Char :=
  (lines.zipIdx.flatMap fun (line, i) =>
    (if i == 0 then [] else (separators[(i - 1) % separators.length]?).getD []) ++ line) ++ ['\n']

/-- Put the lines of files side by side. -/
def paste (c : Call) : Action Nat :=
  c.read [withText 'd' "delimiters", plain 's' "serial", plain 'z' "zero-terminated"]
    fun chosen words => do
    let separators := separatorsOf ((Chosen.last? 'd' chosen).getD "\t")
    let separators := if separators.isEmpty then [[]] else separators
    let paths := orInput words
    let dashes := paths.count "-"
    let serial := Chosen.has 's' chosen
    let (status, files) ← read dashes serial 0 [] paths
    if status != 0 && !serial then return 1
    if serial then
      for file in files do
        say (String.ofList (joined separators file))
    else
      let longest : Nat := files.foldl (fun n file => max n file.length) 0
      for row in rows longest files do
        say (String.ofList (joined separators row))
    return status
where
  /-- The lines of each argument; dashes take the lines of the input in turn. -/
  read (dashes : Nat) (serial : Bool) (turn : Nat) (input : List (List Char)) :
      List String → Action (Nat × List (List (List Char)))
    | [] => return (0, [])
    | path :: rest => do
      if path == "-" && !serial then
        let input ← if turn == 0 then do
            pure (linesOf (Bytes.read (← readAll 0)).toList)
          else pure input
        let own := (input.zipIdx.filter fun a => a.2 % dashes == turn).map (·.1)
        let (status, more) ← read dashes serial (turn + 1) input rest
        return (status, own :: more)
      else
        match ← textOf path with
        | .ok cs =>
          let (status, more) ← read dashes serial turn input rest
          return (status, linesOf cs :: more)
        | .error fault =>
          c.complain (plainFault path fault)
          let (_, more) ← read dashes serial turn input rest
          return (1, more)

/-- The parts of a line of at most some width; they end at blanks if `spaces` is set. The first
number is at least the length of the line. -/
def folded (width : Nat) (spaces : Bool) : Nat → List Char → List (List Char)
  | 0, cs => [cs]
  | n + 1, cs =>
    if cs.length ≤ width then [cs]
    else
      let part := cs.take width
      let shorter := (part.reverse.dropWhile (· != ' ')).reverse
      let part := if spaces && !shorter.isEmpty then shorter else part
      part :: folded width spaces n (cs.drop part.length)

/-- Fold long lines. -/
def fold (c : Call) : Action Nat :=
  c.read [plain 'b' "bytes", plain 's' "spaces", withText 'w' "width"] fun chosen paths => do
    let text := (Chosen.last? 'w' chosen).getD "80"
    match (countOf? text).filter (0 < ·) with
    | none => c.refuse ("invalid number of columns: " ++ Quotation.word text)
    | some width =>
      c.overContents paths plainFault fun _ cs => do
        let lines := (linesOf cs).flatMap fun line =>
          folded width (Chosen.has 's' chosen) line.length line
        let all := lines.flatMap (· ++ ['\n'])
        say (String.ofList (if endsWithinLine cs then all.dropLast else all))

/-! ## Showing bytes -/

/-- A number in a base with leading zeros. -/
def digits (base width n : Nat) : List Char :=
  let ds := Nat.toDigits base n
  List.replicate (width - ds.length) '0' ++ ds

/-- How a group of bytes is shown. -/
structure Show where
  size : Nat := 2
  kind : Char := 'o'

/-- A byte as a character. -/
def shownByte (c : Char) : List Char :=
  let letters := [('\x00', '0'), ('\x07', 'a'), ('\x08', 'b'), ('\t', 't'), ('\n', 'n'),
    ('\x0b', 'v'), ('\x0c', 'f'), ('\r', 'r')]
  match letters.lookup c with
  | some letter => ['\\', letter]
  | none => if ' ' ≤ c && c ≤ '~' then [c] else digits 8 3 c.toNat

/-- A group of bytes as a text. -/
def Show.group (s : Show) (cs : List Char) : List Char :=
  let n : Nat := cs.reverse.foldl (fun n c => n * 256 + c.toNat) 0
  let pad (width : Nat) (text : List Char) : List Char :=
    List.replicate (width - text.length) ' ' ++ text
  let bits := 8 * s.size
  let widest := (Nat.toDigits 10 (1 <<< bits - 1)).length
  let body := match s.kind with
    | 'c' | 'a' => pad 3 ((cs.head?.map shownByte).getD [])
    | 'x' => digits 16 (2 * s.size) n
    | 'o' => digits 8 ((bits + 2) / 3) n
    | 'u' => pad widest (Nat.toDigits 10 n)
    | _ =>
      let signed := if n < 1 <<< (bits - 1) then (Nat.toDigits 10 n)
        else '-' :: Nat.toDigits 10 (1 <<< bits - n)
      pad (if s.size == 8 then 20 else widest + 1) signed
  ' ' :: body

/-- Cut a list into parts of a size. The first number bounds how many there are. -/
def chunks {α : Type} (size : Nat) : Nat → List α → List (List α)
  | 0, _ | _, [] => []
  | n + 1, all => all.take size :: chunks size n (all.drop size)

/-- The rows of a dump with their offsets; rows that repeat the one before are left out. -/
def dump (s : Show) (address : Nat → List Char) (keepsAll : Bool) :
    Nat → Option (List Char) → Bool → List (List Char) → List Char
  | offset, _, _, [] =>
    let last := address offset
    if last.isEmpty then [] else last ++ ['\n']
  | offset, before, starred, row :: rest =>
    let next := offset + row.length
    if !keepsAll && before == some row && !rest.isEmpty then
      (if starred then [] else ['*', '\n']) ++
        dump s address keepsAll next before true rest
    else
      address offset ++ (chunks s.size row.length row).flatMap s.group ++ '\n' ::
        dump s address keepsAll next (some row) false rest

/-- How a type of `od` shows bytes. -/
def showOf? (text : String) : Option Show :=
  match text.toList with
  | ['c'] => some ⟨1, 'c'⟩
  | ['a'] => some ⟨1, 'a'⟩
  | kind :: rest =>
    let sizes := [([], 4), (['1'], 1), (['2'], 2), (['4'], 4), (['8'], 8), (['C'], 1), (['S'], 2),
      (['I'], 4), (['L'], 8)]
    if ['d', 'o', 'u', 'x'].contains kind then (sizes.lookup rest).map fun n => ⟨n, kind⟩ else none
  | [] => none

/-- Show bytes. -/
def od (c : Call) : Action Nat :=
  c.read [withText 'A' "address-radix", withText 't' "format", withText 'N' "read-bytes",
      withText 'j' "skip-bytes", plain 'v' "output-duplicates", ⟨'w', "width", false, true⟩,
      plain 'a' "", plain 'b' "", plain 'c' "", plain 'd' "", plain 'o' "", plain 'x' ""]
    fun chosen paths => do
    let named : List (Char × Show) := [('a', ⟨1, 'a'⟩), ('b', ⟨1, 'o'⟩), ('c', ⟨1, 'c'⟩),
      ('d', ⟨2, 'u'⟩), ('o', ⟨2, 'o'⟩), ('x', ⟨2, 'x'⟩)]
    let last := Chosen.among? ('t' :: named.map (·.1)) chosen
    let shown := match last with
      | some 't' => showOf? ((Chosen.last? 't' chosen).getD "")
      | some letter => named.lookup letter
      | none => some {}
    match shown with
    | none =>
      let text := (Chosen.last? 't' chosen).getD ""
      c.refuse ("invalid character '" ++ String.ofList (text.toList.take 1) ++
        "' in type string " ++ Quotation.word text)
    | some s =>
      let (status, files) ← c.contents paths plainFault
      let number (letter : Char) : Option Nat := (Chosen.last? letter chosen).bind countOf?
      let skipped := (number 'j').getD 0
      let cs := files.flatten.drop skipped
      let cs := ((number 'N').map cs.take).getD cs
      let address (n : Nat) : List Char :=
        match (Chosen.last? 'A' chosen).getD "o" with
        | "n" => []
        | "d" => digits 10 7 n
        | "x" => digits 16 6 n
        | _ => digits 8 7 n
      if status != 0 && cs.isEmpty && files.isEmpty then return status
      let width := (number 'w').getD 16
      say (String.ofList (dump s address (Chosen.has 'v' chosen) skipped none false
        (chunks width cs.length cs)))
      return status

end EmbeddedSolidity.Utility.Columns
