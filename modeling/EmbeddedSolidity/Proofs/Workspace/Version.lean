import EmbeddedSolidity.Proofs.FileSystem.Ancestors
import EmbeddedSolidity.Proofs.Workspace.Failure
import EmbeddedSolidity.Proofs.Workspace.Manifest

/-!
# Versions in manifests

A version of the language is three groups of digits with points between them, and no other text is
accepted as one. So nothing in a version can end its line in the manifest : the manifest of a
workspace has five lines, from the last of which the version is read off.

* `isVersion_iff` : the texts that are versions;
* `Manifest.lines_render` : the lines of a manifest whose fields have no line feed;
* `Manifest.isGenerated_render_iff`, `Manifest.render_injective` : what such a manifest tells;
* `Workspace.written_of_ends_create` : what making a workspace writes.
-/

namespace EmbeddedSolidity

/-! ## Versions -/

/-- Three groups of ASCII digits, none of them empty, with points between them. -/
def VersionText (version : String) : Prop :=
  ∃ major minor patch : List Char,
    (∀ group ∈ [major, minor, patch], group ≠ [] ∧ ∀ c ∈ group, c.isDigit = true) ∧
      version.toList = major ++ '.' :: (minor ++ '.' :: patch)

/-- The test for versions accepts these texts and no others. -/
theorem isVersion_iff {version : String} : isVersion version = true ↔ VersionText version := by
  unfold isVersion
  dsimp only
  rw [Bool.and_eq_true, beq_iff_eq, List.length_eq_three]
  simp only [List.all_eq_true, Bool.and_eq_true, Bool.not_eq_true', List.isEmpty_eq_false_iff]
  constructor
  · rintro ⟨⟨major, minor, patch, hcut⟩, hall⟩
    refine ⟨major, minor, patch, hcut ▸ hall, ?_⟩
    rw [← Text.intercalate_cut '.' version.toList, hcut]
    simp [List.intercalate, List.intersperse]
  · rintro ⟨major, minor, patch, hall, htext⟩
    have hpoint : ∀ group ∈ [major, minor, patch], '.' ∉ group :=
      fun group hgroup hmem => absurd ((hall group hgroup).2 '.' hmem) (by decide)
    have hcut : Text.cut '.' version.toList = [major, minor, patch] := by
      rw [← Text.cut_intercalate (List.cons_ne_nil _ _) hpoint, htext]
      simp [List.intercalate, List.intersperse]
    rw [hcut]
    exact ⟨⟨major, minor, patch, rfl⟩, hall⟩

/-- A version is made of digits and points. -/
theorem VersionText.digit_or_point {version : String} (h : VersionText version) :
    ∀ c ∈ version.toList, c.isDigit = true ∨ c = '.' := by
  obtain ⟨major, minor, patch, hall, htext⟩ := h
  simp only [List.forall_mem_cons] at hall
  obtain ⟨⟨-, hmajor⟩, ⟨-, hminor⟩, ⟨-, hpatch⟩, -⟩ := hall
  intro c hc
  simp only [htext, List.mem_append, List.mem_cons] at hc
  obtain hc | rfl | hc | rfl | hc := hc
  · exact .inl (hmajor c hc)
  · exact .inr rfl
  · exact .inl (hminor c hc)
  · exact .inr rfl
  · exact .inl (hpatch c hc)

/-- Nothing in a version ends a line or a quoted text. -/
theorem VersionText.plain {version : String} (h : VersionText version) :
    ∀ c ∈ version.toList, c ≠ '"' ∧ c ≠ '\\' ∧ c ≠ '\n' ∧ c ≠ '\r' := by
  intro c hc
  obtain hdigit | rfl := h.digit_or_point c hc
  · refine ⟨?_, ?_, ?_, ?_⟩ <;>
    · rintro rfl
      exact absurd hdigit (by decide)
  · decide

/-- If nothing else is wrong with the options, they are accepted with versions only. -/
theorem Options.resolve_iff_versionText {temporary version : String} {o : Options}
    (hsolc : o.solc = some version)
    (hother : ∃ c, Options.resolve temporary { o with solc := none } = .ok c) :
    (∃ c, o.resolve temporary = .ok c) ↔ VersionText version := by
  rw [← isVersion_iff]
  obtain ⟨c, hc⟩ := hother
  unfold Options.resolve at hc ⊢
  rw [hsolc]
  dsimp only [bind, Except.bind] at hc ⊢
  cases hversion : isVersion version with
  | false => simp
  | true =>
    rw [if_pos rfl]
    -- The executable is looked at in the same way in both.
    split at hc
    · exact iff_of_true ⟨_, rfl⟩ rfl
    · split at hc
      · cases hc
      · next hblank =>
        rw [if_neg hblank]
        exact iff_of_true ⟨_, rfl⟩ rfl

/-- The version that is chosen is the version of the configuration. -/
theorem Options.solc_of_resolve {temporary version : String} {o : Options} {c : Config}
    (hsolc : o.solc = some version) (hc : o.resolve temporary = .ok c) : c.solc = version := by
  unfold Options.resolve at hc
  rw [hsolc] at hc
  dsimp only [bind, Except.bind, pure, Except.pure] at hc
  repeat' split at hc
  all_goals cases hc
  all_goals rfl

/-! ## Lines of manifests -/

namespace Text

theorem trimChars_of_ends {c d : Char} {cs : List Char} (hc : isBlankChar c = false)
    (hd : isBlankChar d = false) : trimChars (c :: (cs ++ [d])) = c :: (cs ++ [d]) := by
  simp [trimChars, trimStartChars, hc, hd]

theorem lineChars_append {xs : List Char} (h : '\n' ∉ xs) (rest : List Char) :
    lineChars (xs ++ '\n' :: rest) = dropFinalReturn xs :: lineChars rest :=
  lineCharsFrom_append h [] rest

theorem dropFinalReturn_append {c : Char} (h : c ≠ '\r') (xs : List Char) :
    dropFinalReturn (xs ++ [c]) = xs ++ [c] := by
  simp [dropFinalReturn, h]

end Text

namespace Manifest

variable {m m' : Manifest}

/-- No field has a line feed. -/
def Flat (m : Manifest) : Prop :=
  ∀ field ∈ [m.name, m.src, m.out, m.solc], '\n' ∉ field.toList

theorem toList_assignment (key value : String) :
    (assignment key value).toList = key.toList ++ (" = \"".toList ++ value.toList) ++ ['"'] := by
  simp [assignment]

theorem assignment_inj {key value value' : String} :
    assignment key value = assignment key value' ↔ value = value' := by
  simp [assignment, String.append_assoc]

/-- A line that assigns a value is a line of the text. -/
theorem lines_assignment {key value : String} (hkey : '\n' ∉ key.toList)
    (hvalue : '\n' ∉ value.toList) (rest : String) :
    Text.lines (assignment key value ++ "\n" ++ rest) =
      assignment key value :: Text.lines rest := by
  have hline : '\n' ∉ (assignment key value).toList := by
    simp [toList_assignment, hkey, hvalue]
  have hdrop : Text.dropFinalReturn (assignment key value).toList = (assignment key value).toList := by
    rw [toList_assignment]
    exact Text.dropFinalReturn_append (by decide) _
  have htext : (assignment key value ++ "\n" ++ rest).toList =
      (assignment key value).toList ++ '\n' :: rest.toList := by simp
  unfold Text.lines
  rw [htext, Text.lineChars_append hline, hdrop, List.map_cons, String.ofList_toList]

/-- The five lines of a manifest. -/
theorem lines_render (h : m.Flat) : Text.lines m.render =
    ["[project]", assignment "name" m.name, assignment "src" m.src, assignment "out" m.out,
      assignment "solc" m.solc] := by
  simp only [Flat, List.forall_mem_cons] at h
  obtain ⟨hname, hsrc, hout, hsolc, -⟩ := h
  have hheader : ∀ rest : String, Text.lines (header ++ rest) = "[project]" :: Text.lines rest := by
    intro rest
    have htext : (header ++ rest).toList = "[project]".toList ++ '\n' :: rest.toList := by
      simp [header]
    unfold Text.lines
    rw [htext, Text.lineChars_append (by decide)]
    rfl
  have hrender : m.render = header ++ (assignment "name" m.name ++ "\n" ++
      (assignment "src" m.src ++ "\n" ++ (assignment "out" m.out ++ "\n" ++
        (assignment "solc" m.solc ++ "\n" ++ "")))) := by
    simp [render, String.append_assoc]
  rw [hrender, hheader, lines_assignment (by decide) hname, lines_assignment (by decide) hsrc,
    lines_assignment (by decide) hout, lines_assignment (by decide) hsolc]
  rfl

theorem trim_assignment (key value : String)
    (hkey : key.toList.head?.map Text.isBlankChar = some false) :
    Text.trim (assignment key value) = assignment key value := by
  obtain ⟨c, hhead, hc⟩ := Option.map_eq_some_iff.1 hkey
  obtain ⟨cs, hcs⟩ := List.head?_eq_some_iff.1 hhead
  unfold Text.trim
  rw [toList_assignment, hcs, List.cons_append, List.cons_append,
    Text.trimChars_of_ends hc (by decide), ← List.cons_append, ← List.cons_append, ← hcs,
    ← toList_assignment, String.ofList_toList]

theorem assignment_ne_name (key value : String) (hne : key.toList ≠ [])
    (hkey : key.toList.head? ≠ some 'n') :
    assignment key value ≠ assignment "name" projectName := by
  intro heq
  have hhead := congrArg (fun s : String => s.toList.head?) heq
  simp only [toList_assignment, List.append_assoc, List.head?_append_of_ne_nil _ hne] at hhead
  exact hkey hhead

/-- A manifest is known exactly by the name of its project. -/
theorem isGenerated_render_iff (h : m.Flat) :
    isGenerated m.render = true ↔ m.name = projectName := by
  have hbegins : header.toList.isPrefixOf m.render.toList = true := by
    rw [List.isPrefixOf_iff_prefix]
    simp only [render, String.append_assoc, String.toList_append]
    exact List.prefix_append _ _
  have hheader : Text.trim "[project]" ≠ assignment "name" projectName := by decide
  have hsrc := assignment_ne_name "src" m.src (by decide) (by decide)
  have hout := assignment_ne_name "out" m.out (by decide) (by decide)
  have hsolc := assignment_ne_name "solc" m.solc (by decide) (by decide)
  unfold isGenerated
  rw [hbegins, Bool.true_and, lines_render h]
  simp only [List.any_cons, List.any_nil, Bool.or_false, Bool.or_eq_true, beq_iff_eq,
    trim_assignment "name" m.name (by decide), trim_assignment "src" m.src (by decide),
    trim_assignment "out" m.out (by decide), trim_assignment "solc" m.solc (by decide),
    assignment_inj, hheader, hsrc, hout, hsolc, or_false, false_or]

/-- Different values give different manifests. -/
theorem render_injective (h : m.Flat) (h' : m'.Flat) (heq : m.render = m'.render) : m = m' := by
  have hlines := (lines_render h).symm.trans (heq ▸ lines_render h')
  simp only [List.cons.injEq, assignment_inj, and_true, true_and] at hlines
  obtain ⟨hname, hsrc, hout, hsolc⟩ := hlines
  cases m
  cases m'
  simp_all

theorem flat_ofVersion {version : String} (h : VersionText version) : (ofVersion version).Flat := by
  have hversion : '\n' ∉ version.toList := fun hmem => (h.plain '\n' hmem).2.2.1 rfl
  simp [Flat, ofVersion, projectName, sourceDirectory, outputDirectory, hversion]

end Manifest

/-! ## What is written -/

/-- If the call writes, it writes this content to this path. -/
def Call.WritesOnly (path : String) (content : ByteArray) : Call → Prop
  | .write path' content' => path' = path ∧ content' = content
  | _ => True

theorem Call.Clears.writesOnly {path : String} {content : ByteArray} {call : Call}
    (hcall : call.Clears) : call.WritesOnly path content := by
  cases call <;> trivial

namespace Workspace

/-- Whatever the answers are, making a workspace writes nothing but the manifest of its version. -/
theorem writesOnly_create (c : Config) : (create c).Always (Call.WritesOnly
    (⟨c.root⟩ : Workspace).manifestPath (Manifest.ofVersion c.solc).render.toUTF8) fun _ => True := by
  refine Plan.always_andThen ((always_clear c).weaken fun _ => Call.Clears.writesOnly)
    (fun _ _ => trivial) fun _ _ => ?_
  refine Plan.always_andThen (always_attempt _ (Plan.always_call (c := .makeDirectories _) trivial))
    (fun _ _ => trivial) fun _ _ => ?_
  refine Plan.always_andThen (always_attempt _ (Plan.always_call (c := .write _ _) ⟨rfl, rfl⟩))
    (fun _ _ => trivial) fun _ _ => ?_
  refine Plan.always_andThen (always_attempt _ (Plan.always_call (c := .makeDirectories _) trivial))
    (fun _ _ => trivial) fun _ _ => ?_
  exact Plan.always_pure trivial

/-- A workspace that is made has its manifest. -/
theorem written_of_ends_create {c : Config} {log : List Exchange} {w : Workspace}
    (he : Plan.Ends (create c) log (.ok w)) :
    (⟨.write (⟨c.root⟩ : Workspace).manifestPath (Manifest.ofVersion c.solc).render.toUTF8,
      Except.ok ()⟩ : Exchange) ∈ log := by
  obtain ⟨e, -, hr⟩ | ⟨first, u, second, rfl, -, he⟩ := he.of_andThen
  · cases hr
  obtain ⟨e, -, hr⟩ | ⟨third, u, fourth, rfl, -, he⟩ := he.of_andThen
  · cases hr
  obtain ⟨e, -, hr⟩ | ⟨fifth, u, sixth, rfl, hmanifest, -⟩ := he.of_andThen
  · cases hr
  obtain ⟨seventh, answer, eighth, rfl, hwrite, hpure⟩ := hmanifest.of_bind
  obtain rfl := Plan.Ends.of_call hwrite
  obtain ⟨-, hok⟩ := hpure.of_pure
  have hanswer : answer = .ok () := by
    cases answer with
    | ok => rfl
    | error f => cases hok
  simp [hanswer]

/-- Options with a version, and otherwise valid, are accepted exactly if it is three groups of
digits. The manifest of their workspace then has five lines, from the last of which the version is
read off. Whatever the fields of a manifest are but for line feeds, it is known by the name of its
project, and it tells them. -/
theorem version_told :
    (∀ (temporary version : String) (o : Options), o.solc = some version →
      (∃ c, Options.resolve temporary { o with solc := none } = .ok c) →
      ((∃ c, o.resolve temporary = .ok c) ↔ VersionText version)) ∧
    (∀ (temporary version : String) (o : Options) (c : Config), o.solc = some version →
      o.resolve temporary = .ok c →
      (create c).Always (Call.WritesOnly (⟨c.root⟩ : Workspace).manifestPath
        (Manifest.ofVersion version).render.toUTF8) (fun _ => True) ∧
      (∀ log w, Plan.Ends (create c) log (.ok w) →
        (⟨.write (⟨c.root⟩ : Workspace).manifestPath (Manifest.ofVersion version).render.toUTF8,
          Except.ok ()⟩ : Exchange) ∈ log)) ∧
    (∀ version : String, VersionText version →
      Text.lines (Manifest.ofVersion version).render =
        ["[project]", "name = \"inline-sol-forge-project\"", "src = \"src\"", "out = \"dist\"",
          "solc = \"" ++ version ++ "\""] ∧
      ∀ c ∈ version.toList, c ≠ '"' ∧ c ≠ '\\' ∧ c ≠ '\n' ∧ c ≠ '\r') ∧
    (∀ version version' : String, VersionText version → VersionText version' →
      (Manifest.ofVersion version).render = (Manifest.ofVersion version').render →
      version = version') ∧
    (∀ m : Manifest, m.Flat →
      (Manifest.isGenerated m.render = true ↔ m.name = "inline-sol-forge-project")) ∧
    ∀ m m' : Manifest, m.Flat → m'.Flat → m.render = m'.render → m = m' := by
  refine ⟨fun _ _ _ => Options.resolve_iff_versionText, fun temporary version o c hsolc hc => ?_,
    fun version h => ⟨Manifest.lines_render (Manifest.flat_ofVersion h), h.plain⟩,
    fun version version' h h' heq => ?_, fun m h => Manifest.isGenerated_render_iff h,
    fun m m' h h' => Manifest.render_injective h h'⟩
  · obtain rfl := Options.solc_of_resolve hsolc hc
    exact ⟨writesOnly_create c, fun _ _ => written_of_ends_create⟩
  · have hequal := Manifest.render_injective (Manifest.flat_ofVersion h) (Manifest.flat_ofVersion h')
      heq
    exact congrArg Manifest.solc hequal

/-- The version that is chosen by default. -/
theorem version_told_default :
    VersionText "0.8.17" ∧ (Manifest.ofVersion "0.8.17").Flat ∧
    (∃ c, Options.resolve "/tmp" { solc := some "0.8.17" } = .ok c) ∧
    (∀ c, Options.resolve "/tmp" { solc := some "0.8.17" } = .ok c →
      ∀ log w, Plan.Ends (create c) log (.ok w) →
        (⟨.write (⟨c.root⟩ : Workspace).manifestPath (Manifest.ofVersion "0.8.17").render.toUTF8,
          Except.ok ()⟩ : Exchange) ∈ log) ∧
    (Text.lines (Manifest.ofVersion "0.8.17").render).getLast? = some "solc = \"0.8.17\"" ∧
    Manifest.isGenerated (Manifest.ofVersion "0.8.17").render = true ∧
    (∀ version, VersionText version →
      (Manifest.ofVersion "0.8.17").render = (Manifest.ofVersion version).render →
      "0.8.17" = version) ∧
    ∀ m : Manifest, m.Flat → (Manifest.ofVersion "0.8.17").render = m.render →
      Manifest.ofVersion "0.8.17" = m :=
  have hversion : VersionText "0.8.17" := isVersion_iff.1 (by decide)
  have hflat : (Manifest.ofVersion "0.8.17").Flat := Manifest.flat_ofVersion hversion
  ⟨hversion, hflat, (version_told.1 "/tmp" "0.8.17" _ rfl ⟨_, rfl⟩).2 hversion,
    fun c hc => (version_told.2.1 "/tmp" "0.8.17" _ c rfl hc).2,
    by rw [(version_told.2.2.1 "0.8.17" hversion).1]; rfl,
    (version_told.2.2.2.2.1 _ hflat).2 rfl,
    fun version => version_told.2.2.2.1 _ version hversion,
    fun m => version_told.2.2.2.2.2 _ m hflat⟩

end Workspace

end EmbeddedSolidity
