import EmbeddedSolidity.Utility.Names

/-!
# Changing files

Making and removing directories and files, copying and moving them, links, and whether files may
be executed.
-/

namespace EmbeddedSolidity.Utility.Files

open FileSystem (Entry Fault FileTree Place)
open Shell

/-- A switch without a text. -/
def plain (letter : Char) (long : String) : Switch :=
  ⟨letter, long, false, false⟩

/-! ## Directories -/

/-- The beginnings of a path, up to each of its names. -/
def beginnings (path : String) : List String :=
  let names := Text.cut '/' path.toList
  let ends := (List.range names.length).filter fun n => (names[n]?).any (!·.isEmpty)
  ends.map fun n => String.ofList (['/'].intercalate (names.take (n + 1)))

/-- Make a directory and those above it that are missing. -/
def makeAll (c : Call) (verbose : Bool) : List String → Action Nat
  | [] => return 0
  | path :: rest => do
    let m ← get
    match ← change fun t current => t.makeDirectory current (Machine.path path) with
    | .ok () =>
      if verbose then say (c.name ++ ": created directory " ++ Quotation.quotedPath path ++ "\n")
      makeAll c verbose rest
    | .error fault =>
      if m.tree.isDirectory m.current (Machine.path path) then makeAll c verbose rest
      else
        let fault := if fault == .exists && !rest.isEmpty then .notDirectory else fault
        c.refuse ("cannot create directory " ++ Quotation.word path ++ ": " ++ fault.words)

/-- Make directories. -/
def mkdir (c : Call) : Action Nat :=
  c.read [plain 'p' "parents", plain 'v' "verbose", ⟨'m', "mode", true, false⟩] fun chosen paths => do
    if paths.isEmpty then return (← c.missing)
    let verbose := Chosen.has 'v' chosen
    forEach (fun path => do
      if Chosen.has 'p' chosen then makeAll c verbose (beginnings path)
      else
        match ← change fun t current => t.makeDirectory current (Machine.path path) with
        | .ok () =>
          if verbose then
            say (c.name ++ ": created directory " ++ Quotation.quotedPath path ++ "\n")
          return 0
        | .error fault =>
          c.refuse ("cannot create directory " ++ Quotation.word path ++ ": " ++ fault.words)) paths

/-- Remove empty directories. -/
def rmdir (c : Call) : Action Nat :=
  c.read [plain 'p' "parents", plain 'v' "verbose", plain 'i' "ignore-fail-on-non-empty"]
    fun chosen paths => do
    if paths.isEmpty then return (← c.missing)
    forEach (fun path => do
      let all := if Chosen.has 'p' chosen then (beginnings path).reverse else [path]
      removeAll chosen all true) paths
where
  removeAll (chosen : List Chosen) : List String → Bool → Action Nat
    | [], _ => return 0
    | path :: rest, isFirst => do
      if Chosen.has 'v' chosen then
        say (c.name ++ ": removing directory, " ++ Quotation.quotedPath path ++ "\n")
      match ← change fun t current => t.removeDirectory current (Machine.path path) with
      | .ok () => removeAll chosen rest false
      | .error fault =>
        if fault == .notEmpty && Chosen.has 'i' chosen then return 0
        let doing := if isFirst then "failed to remove " else "failed to remove directory "
        c.refuse (doing ++ Quotation.quotedPath path ++ ": " ++ fault.words)

/-- Remove files, and directories with all that is in them. -/
def rm (c : Call) : Action Nat :=
  c.read [plain 'f' "force", plain 'r' "recursive", plain 'R' "", plain 'i' "", plain 'I' "",
      plain 'd' "dir", plain 'v' "verbose", plain 'P' "preserve-root"] fun chosen paths => do
    let forced := Chosen.among? ['f', 'i', 'I'] chosen == some 'f'
    let recursive := Chosen.has 'r' chosen || Chosen.has 'R' chosen
    let told (path what : String) : Action Nat := do
      if Chosen.has 'v' chosen then say (what ++ Quotation.quotedPath path ++ "\n")
      return 0
    if paths.isEmpty then return ← if forced then return 0 else c.missing
    forEach (fun path => do
      let m ← get
      let known := Machine.path path
      match m.tree.kind m.current known with
      | .error fault =>
        if forced && (fault == .notFound || fault == .notDirectory) then return 0
        c.check "cannot remove" path (.error fault)
      | .ok .directory =>
        let isEmpty := ((m.tree.list m.current known).toOption.getD []).isEmpty
        if !recursive && !(Chosen.has 'd' chosen && isEmpty) then
          c.check "cannot remove" path
            (.error (if Chosen.has 'd' chosen then .notEmpty else .isDirectory))
        else if [".", ".."].contains (Names.lastName path) then
          c.refuse ("refusing to remove '.' or '..' directory: skipping " ++
            Quotation.quotedPath path)
        else if Names.lastName path == "/" then
          c.complain ("it is dangerous to operate recursively on " ++ Quotation.quotedPath path)
          c.refuse "use --no-preserve-root to override this failsafe"
        else
          if Chosen.has 'v' chosen then
            if let .ok (place, _) := m.tree.entryAt m.current false known then
              tellBelow m.tree place path 100
          let result ← changeMany fun t current => t.removeTree current known
          if result.isOk then told path "removed directory "
          else c.check "cannot remove" path result
      | .ok kind =>
        if Chosen.among? ['f', 'i'] chosen == some 'i' then
          let what := if kind == .link then "symbolic link " else "regular file "
          let _ ← flush
          let _ ← writeBytes 2 (Bytes.write
            (c.name ++ ": remove " ++ what ++ Quotation.quotedPath path ++ "? "))
          return 0
        let result ← change fun t current => t.removeFile current known
        if result.isOk then told path "removed " else c.check "cannot remove" path result) paths
where
  /-- Tell that all below a directory is removed. -/
  tellBelow (t : FileTree) (place : Place) (path : String) : Nat → Action Unit
    | 0 => return ()
    | n + 1 => do
      for name in t.names place do
        let below := path ++ "/" ++ Bytes.ofText name
        match t.get? (place ++ [name]) with
        | some .directory =>
          tellBelow t (place ++ [name]) below n
          say ("removed directory " ++ Quotation.quotedPath below ++ "\n")
        | _ => say ("removed " ++ Quotation.quotedPath below ++ "\n")

/-! ## Single files -/

/-- Make files that are missing. -/
def touch (c : Call) : Action Nat :=
  c.read [plain 'c' "no-create", plain 'a' "", plain 'm' "", plain 'f' "", plain 'h' "no-dereference",
      ⟨'d', "date", true, false⟩, ⟨'t', "", true, false⟩, ⟨'r', "reference", true, false⟩]
    fun chosen paths => do
    if paths.isEmpty then return (← c.misused "missing file operand")
    forEach (fun path => do
      let m ← get
      let known := Machine.path path
      match m.tree.entryAt m.current true known with
      | .ok _ => return 0
      | .error fault =>
        if Chosen.has 'c' chosen && fault == .notFound then return 0
        if path.toList.getLast? == some '/' then c.check "setting times of" path (.error fault)
        else
          c.check "cannot touch" path
            (← change fun t current => t.write current known ByteArray.empty)) paths

/-- What a mode makes of a file: whether it is executable then; `none` if it is no mode. -/
def modeOf? (mode : String) : Option (Bool → Bool → Bool) :=
  let cs := mode.toList
  if cs.isEmpty then none
  else if cs.all fun c => '0' ≤ c && c ≤ '7' then
    let n : Nat := cs.foldl (fun n c => n * 8 + (c.toNat - 48)) 0
    if n < 4096 then some fun _ _ => (cs.reverse.take 3).any fun c => c.toNat % 2 == 1 else none
  else
    ((Text.cut ',' cs).mapM clause?).map fun clauses isDirectory isExecutable =>
      clauses.foldl (fun x f => f isDirectory x) isExecutable
where
  /-- One clause of a mode: whom it is for and what changes. -/
  clause? (cs : List Char) : Option (Bool → Bool → Bool) :=
    let who := cs.takeWhile fun c => "ugoa".toList.contains c
    let all := who.isEmpty || who.contains 'a' || ['u', 'g', 'o'].all who.contains
    changes? all (cs.length + 1) (cs.drop who.length) true
  /-- The changes of a clause, each a sign and letters. -/
  changes? (all : Bool) : Nat → List Char → Bool → Option (Bool → Bool → Bool)
    | 0, _, _ => none
    | n + 1, cs, isFirst =>
      match cs with
      | [] => if isFirst then none else some fun _ x => x
      | sign :: rest =>
        if !"+-=".toList.contains sign then none
        else
          let letters := rest.takeWhile fun c => "rwxXstugo".toList.contains c
          (changes? all n (rest.drop letters.length) false).map fun more isDirectory x =>
            let named := letters.contains 'x' || (letters.contains 'X' && (isDirectory || x))
            let next :=
              if sign == '+' then x || named
              else if sign == '-' then x && !(named && all)
              else named || (x && !all)
            more isDirectory next

/-- The paths at and below a path. The number bounds how deep they lie. -/
def below (t : FileTree) (place : Place) : List Place :=
  (t.entries.map (·.1)).filter fun p => place.isPrefixOf p

/-- Let files be executable, or no longer. -/
def chmod (c : Call) : Action Nat := do
  let isMode (word : String) : Bool :=
    match word.toList with
    | '-' :: d :: cs => (d :: cs).all fun c => "rwxXstugo,+-=".toList.contains c
    | _ => false
  let modes := (c.arguments.takeWhile (· != "--")).filter isMode
  let c' := if modes.isEmpty then c else
    { c with arguments := c.arguments.filter fun word => !modes.contains word }
  c'.read [plain 'R' "recursive", plain 'v' "verbose", plain 'c' "changes", plain 'f' "silent",
      plain 'f' "quiet", ⟨'r', "reference", true, false⟩] fun chosen words => do
    match modes ++ words with
    | [] => c.missing
    | [mode] => c.misused ("missing operand after " ++ Quotation.word mode)
    | mode :: paths =>
      match modeOf? mode with
      | none => c.misused ("invalid mode: " ++ Quotation.word mode)
      | some f =>
        forEach (fun path => do
          let m ← get
          match m.tree.entryAt m.current true (Machine.path path) with
          | .error fault =>
            if Chosen.has 'f' chosen then return 1
            c.check "cannot access" path (.error fault)
          | .ok (place, _) =>
            let places := if Chosen.has 'R' chosen then below m.tree place else [place]
            for place in places do
              match (← get).tree.get? place with
              | some (.file content executable) =>
                modify fun m =>
                  { m with tree := m.tree.put place (.file content (f false executable)) }
              | _ => pure ()
            return 0) paths

/-- A file of a new name. -/
def mktemp (c : Call) : Action Nat :=
  c.read [plain 'd' "directory", plain 'u' "dry-run", plain 'q' "quiet", ⟨'p', "tmpdir", true, true⟩,
      plain 't' "", ⟨'s', "suffix", true, false⟩] fun chosen words => do
    match words with
    | _ :: _ :: _ => c.misused "too many templates"
    | _ =>
      let m ← get
      let directory := (Chosen.last? 'p' chosen).getD ((m.valueOf? "TMPDIR").getD "/tmp")
      let template := words.head?.getD "tmp.XXXXXXXXXX"
      let isBelow := words.isEmpty || Chosen.has 'p' chosen || Chosen.has 't' chosen
      let whole := if isBelow then directory ++ "/" ++ template else template
      let after := (whole.toList.reverse.takeWhile (· != 'X')).reverse
      let before := whole.toList.take (whole.length - after.length)
      let front := (before.reverse.dropWhile (· == 'X')).reverse
      let size := before.length - front.length
      if size < 3 then
        c.refuse ("too few X's in template " ++ Quotation.word template)
      else
        let digits := toString m.nextProcess
        let name := String.ofList (List.replicate (size - digits.length) 'k') ++ digits
        let name := String.ofList (name.toList.drop (name.length - size))
        let path := String.ofList front ++ name ++ String.ofList after
        modify fun m => { m with nextProcess := m.nextProcess + 1 }
        let known := Machine.path path
        let result ←
          if Chosen.has 'u' chosen then pure (.ok ())
          else if Chosen.has 'd' chosen then change fun t current => t.makeDirectory current known
          else change fun t current => t.write current known ByteArray.empty
        match result with
        | .ok () =>
          say (path ++ "\n")
          return 0
        | .error fault =>
          let kind := if Chosen.has 'd' chosen then "directory" else "file"
          if Chosen.has 'q' chosen then return 1
          c.refuse ("failed to create " ++ kind ++ " via template " ++ Quotation.word whole ++ ": " ++
            fault.words)

/-! ## Copying and moving -/

/-- Put what is at a place, with all that is below it, at another one. -/
def copyBelow (t : FileTree) (source target : Place) : FileTree :=
  t.entries.foldl (fun t entry =>
    if source.isPrefixOf entry.1 then t.put (target ++ entry.1.drop source.length) entry.2 else t) t

/-- Where something new may be put: a free place, or the place of a file. -/
def placeFor (m : Machine) (path : String) : Except Fault Place :=
  match m.tree.resolveName m.current (Machine.path path) with
  | .ok (.free place _) | .ok (.entry place _) => .ok place
  | .error fault => .error fault

/-- What comes of the arguments of a command that puts files somewhere: the files with the paths
that they get, or a status behind a complaint. -/
def targets (c : Call) (chosen : List Chosen) (words : List String) :
    Action (Except Nat (List (String × String))) := do
  let m ← get
  let isDirectory (path : String) : Bool := m.tree.isDirectory m.current (Machine.path path)
  let into (directory : String) (path : String) : String × String :=
    (path, Path.join directory (Names.lastName path))
  let targetFault (path : String) : Fault :=
    match m.tree.entryAt m.current true (Machine.path path) with
    | .ok _ => .notDirectory
    | .error fault => fault
  match Chosen.last? 't' chosen, words.reverse with
  | some directory, _ =>
    if words.isEmpty then return .error (← c.misused "missing file operand")
    if isDirectory directory then return .ok (words.map (into directory))
    return .error (← c.refuse ("target directory " ++ Quotation.quotedPath directory ++ ": " ++
      (targetFault directory).words))
  | none, [] => return .error (← c.misused "missing file operand")
  | none, [word] =>
    return .error (← c.misused ("missing destination file operand after " ++
      Quotation.quotedPath word))
  | none, [target, source] =>
    if isDirectory target && !Chosen.has 'T' chosen then return .ok [into target source]
    return .ok [(source, target)]
  | none, target :: sources =>
    if Chosen.has 'T' chosen then
      let word := (words[2]?).getD ""
      return .error (← c.misused ("extra operand " ++ Quotation.quotedPath word))
    if isDirectory target then return .ok (sources.reverse.map (into target))
    return .error (← c.refuse ("target " ++ Quotation.quotedPath target ++ ": " ++
      (targetFault target).words))

/-- Two paths in quotes with a word between them. -/
def pair (source between path : String) : String :=
  Quotation.quotedPath source ++ between ++ Quotation.quotedPath path

/-- Copy files, and directories with all that is in them if asked. -/
def cp (c : Call) : Action Nat :=
  c.read [plain 'r' "recursive", plain 'R' "", plain 'a' "archive", plain 'f' "force", plain 'p' "",
      plain 'n' "no-clobber", plain 'i' "interactive", plain 'v' "verbose", plain 'u' "update",
      plain 'T' "no-target-directory", ⟨'t', "target-directory", true, false⟩,
      plain 'L' "dereference", plain 'P' "no-dereference", plain 'd' "", plain 'H' "",
      plain 'l' "link", plain 's' "symbolic-link"] fun chosen words => do
    let recursive := ['r', 'R', 'a'].any fun o => Chosen.has o chosen
    let follows := match Chosen.among? ['L', 'P', 'd', 'a', 'H'] chosen with
      | some o => o == 'L'
      | none => !recursive
    match ← targets c chosen words with
    | .error status => return status
    | .ok pairs => forEach (fun (source, path) => copy chosen recursive follows source path) pairs
where
  copy (chosen : List Chosen) (recursive follows : Bool) (source path : String) : Action Nat := do
    let m ← get
    let known := Machine.path path
    let old := m.tree.entryAt m.current true known
    let told : Action Nat := do
      if Chosen.has 'v' chosen then say (pair source " -> " path ++ "\n")
      return 0
    match m.tree.entryAt m.current follows (Machine.path source) with
    | .error fault => c.check "cannot stat" source (.error fault)
    | .ok (place, .directory) =>
      if !recursive then
        c.refuse ("-r not specified; omitting directory " ++ Quotation.quotedPath source)
      else
        match placeFor m path, old with
        | .error fault, _ => c.check "cannot create directory" path (.error fault)
        | .ok _, .ok (_, .file _ _) =>
          c.refuse ("cannot overwrite non-directory " ++
            pair path " with directory " source)
        | .ok free, old =>
          let free := match old with
            | .ok (known, _) => known
            | .error _ => free
          if place == free || place.isPrefixOf free then
            c.refuse ("cannot copy a directory, " ++ pair source ", into itself, " path)
          else
            let entries := m.tree.entries.filter fun e => place.isPrefixOf e.1
            let t := if (m.tree.get? free).isSome then m.tree else m.tree.put free .directory
            let t := entries.foldl (fun t e =>
              let target := free ++ e.1.drop place.length
              if target == free then t else t.put target e.2) t
            set { m with tree := t }
            told
    | .ok (place, entry) =>
      match old with
      | .ok (_, .directory) =>
        c.refuse ("cannot overwrite directory " ++ pair path " with non-directory " source)
      | old =>
        if (old.toOption.map (·.1)) == some place then
          return ← c.refuse (pair source " and " path ++ " are the same file")
        if Chosen.has 'n' chosen && old.isOk then return 0
        if Chosen.has 's' chosen then
          if old.isOk && !Chosen.has 'f' chosen then
            return ← c.refuse ("cannot create symbolic link " ++ pair path " to " source ++ ": " ++
              Fault.exists.words)
          match placeFor m path with
          | .ok free =>
            set { m with tree := m.tree.put free (.link (Machine.path source)) }
            told
          | .error fault => c.check "cannot create symbolic link" path (.error fault)
        else
          match entry with
          | .file content executable =>
            let creating := "cannot create regular file"
            if path.toList.getLast? == some '/' && !old.isOk then
              c.check creating path (.error .notDirectory)
            else
              match ← change fun t current => t.write current known content with
              | .error fault => c.check creating path (.error fault)
              | .ok () =>
                let keeps := old.isOk && !Chosen.has 'p' chosen && !Chosen.has 'a' chosen
                if !keeps then
                  let m ← get
                  if let .ok (place, .file content _) := m.tree.entryAt m.current true known then
                    set { m with tree := m.tree.put place (.file content executable) }
                told
          | entry =>
            match placeFor m path with
            | .ok free =>
              set { m with tree := m.tree.put free entry }
              told
            | .error fault => c.check "cannot create symbolic link" path (.error fault)

/-- Move files and directories. -/
def mv (c : Call) : Action Nat :=
  c.read [plain 'f' "force", plain 'n' "no-clobber", plain 'i' "interactive", plain 'v' "verbose",
      plain 'u' "update", plain 'T' "no-target-directory",
      ⟨'t', "target-directory", true, false⟩] fun chosen words => do
    match ← targets c chosen words with
    | .error status => return status
    | .ok pairs => forEach (fun (source, path) => move chosen source path) pairs
where
  move (chosen : List Chosen) (source path : String) : Action Nat := do
    let m ← get
    match m.tree.resolveName m.current (Machine.path source) with
    | .error fault => c.check "cannot stat" source (.error fault)
    | .ok (.free _ _) => c.check "cannot stat" source (.error .notFound)
    | .ok (.entry place entry) =>
      let isDirectory := entry == .directory
      match placeFor m path with
      | .error fault => c.refuse ("cannot move " ++ pair source " to " path ++ ": " ++ fault.words)
      | .ok free =>
        let old := m.tree.get? free
        if place == free then c.refuse (pair source " and " path ++ " are the same file")
        else if isDirectory && place.isPrefixOf free then
          c.refuse ("cannot move " ++ pair source " to a subdirectory of itself, " path)
        else if Chosen.has 'n' chosen && old.isSome then return 0
        else
          match isDirectory, old with
          | true, some (.file _ _) | true, some (.link _) =>
            c.refuse ("cannot overwrite non-directory " ++ pair path " with directory " source)
          | false, some .directory =>
            c.refuse ("cannot overwrite directory " ++ pair path " with non-directory " source)
          | _, _ =>
            if old == some .directory && !m.tree.isEmptyAt free then
              c.refuse ("cannot move " ++ pair source " to " path ++ ": " ++ Fault.notEmpty.words)
            else if !isDirectory && path.toList.getLast? == some '/' then
              c.refuse ("cannot move " ++ pair source " to " path ++ ": " ++
                Fault.notDirectory.words)
            else
              let t := (m.tree.eraseAll free).put free entry
              set { m with tree := (copyBelow t place free).eraseAll place }
              if Chosen.has 'v' chosen then say ("renamed " ++ pair source " -> " path ++ "\n")
              return 0

/-- Make links; one that is not symbolic is a copy. -/
def ln (c : Call) : Action Nat :=
  c.read [plain 's' "symbolic", plain 'f' "force", plain 'n' "no-dereference", plain 'v' "verbose",
      plain 'r' "relative", plain 'i' "interactive", plain 'T' "no-target-directory",
      ⟨'t', "target-directory", true, false⟩, plain 'L' "logical", plain 'P' "physical"]
    fun chosen words => do
    let m ← get
    let isLink (path : String) : Bool :=
      match m.tree.entryAt m.current false (Machine.path path) with
      | .ok (_, .link _) => true
      | _ => false
    match words, Chosen.has 't' chosen with
    | [target], false => make chosen (target, "./" ++ Names.lastName target)
    | [target, path], false =>
      if Chosen.has 'n' chosen && isLink path then make chosen (target, path)
      else onward chosen words
    | _, _ => onward chosen words
where
  onward (chosen : List Chosen) (words : List String) : Action Nat := do
    match ← targets c chosen words with
    | .error status => return status
    | .ok pairs => forEach (make chosen) pairs
  make (chosen : List Chosen) (link : String × String) : Action Nat := do
    let (target, path) := link
    let symbolic := Chosen.has 's' chosen
    let m ← get
    let text := if symbolic && Chosen.has 'r' chosen then
        match Names.placeOf m .nothing target, placeFor m path with
        | .ok place, .ok free => Names.relative place free.dropLast
        | _, _ => target
      else target
    let entry? : Except Fault (Place × Entry) :=
      if symbolic then .ok ([], .link (Machine.path text))
      else m.tree.entryAt m.current (Chosen.has 'L' chosen) (Machine.path target)
    match entry? with
    | .error fault => c.check "failed to access" target (.error fault)
    | .ok (_, .directory) =>
      c.refuse (Quotation.path target ++ ": hard link not allowed for directory")
    | .ok (source, entry) =>
      let doing := "failed to create " ++ (if symbolic then "symbolic" else "hard") ++ " link"
      let failing (fault : Fault) : Action Nat :=
        if symbolic || fault == .exists then c.check doing path (.error fault)
        else c.refuse (doing ++ " " ++ pair path " => " target ++ ": " ++ fault.words)
      let put (place : Place) : Action Nat := do
        modify fun m => { m with tree := m.tree.put place entry }
        if Chosen.has 'v' chosen then
          say (pair path (if symbolic then " -> " else " => ") text ++ "\n")
        return 0
      match m.tree.resolveName m.current (Machine.path path) with
      | .error fault => failing fault
      | .ok (.entry _ .directory) =>
        if Chosen.has 'f' chosen then c.refuse (Quotation.path path ++ ": cannot overwrite directory")
        else failing .exists
      | .ok (.entry place _) =>
        if !Chosen.has 'f' chosen then failing .exists
        else if !symbolic && place == source then
          c.refuse (pair target " and " path ++ " are the same file")
        else put place
      | .ok (.free place _) => put place

/-- Write the input to the output and to files. -/
def tee (c : Call) : Action Nat :=
  c.read [plain 'a' "append", plain 'i' "ignore-interrupts", plain 'p' ""] fun chosen paths => do
    let bytes ← readAll 0
    let status ← forEach (fun path => do
      let old ← readFile path
      let before := if Chosen.has 'a' chosen then old.toOption.getD ByteArray.empty
        else ByteArray.empty
      if path == "/dev/null" then return 0
      if path == "/dev/stderr" then
        let _ ← writeBytes 2 bytes
        return 0
      match ← change fun t current => t.write current (Machine.path path) (before ++ bytes) with
      | .ok () => return 0
      | .error fault => c.refuse (plainFault path fault)) paths
    sayBytes bytes
    return status

end EmbeddedSolidity.Utility.Files
