import EmbeddedSolidity.Proofs.Run.Session
import EmbeddedSolidity.Proofs.Workspace.Refusal
import EmbeddedSolidity.Proofs.Workspace.Version

/-!
# Which manifests are recognized

A manifest is recognized by a mark : it begins with the header, and behind some line feed stands the
name of the project, with nothing else in its line but blank characters. Every manifest of a
workspace has the mark, and so have manifests that were extended by hand. A directory is replaced,
or removed when a run without a workspace ends, exactly if its manifest has the mark.

* `Manifest.isGenerated_iff_marked` : the mark;
* `Run.taken_iff_marked` : the directories that are taken;
* `Run.extended_taken` : a directory that is taken, with a manifest that no workspace has.
-/

namespace EmbeddedSolidity

open FileSystem FileSystem.FileTree

/-! ## Lines and trimmed lines -/

namespace Text

/-- Behind a line feed the lines are those of the rest. -/
theorem mem_lineCharsFrom_append {piece rest : List Char} (h : piece ∈ lineCharsFrom [] rest) :
    ∀ front line : List Char, piece ∈ lineCharsFrom line (front ++ '\n' :: rest)
  | [], line => by
    rw [List.nil_append, lineCharsFrom]
    exact List.mem_cons_of_mem _ h
  | c :: front, line => by
    by_cases hc : c = '\n'
    · subst hc
      rw [List.cons_append, lineCharsFrom]
      exact List.mem_cons_of_mem _ (mem_lineCharsFrom_append h front [])
    · rw [List.cons_append, lineCharsFrom]
      · exact mem_lineCharsFrom_append h front (c :: line)
      · exact hc

/-- A line stands at the beginning or behind a line feed, and reaches to the end or to a line feed,
in front of which a carriage return is dropped. -/
theorem exists_of_mem_lineCharsFrom {piece line cs : List Char} (hline : '\n' ∉ line)
    (h : piece ∈ lineCharsFrom line cs) :
    ∃ front raw back, line.reverse ++ cs = front ++ (raw ++ back) ∧
      (front = [] ∨ ∃ before, front = before ++ ['\n']) ∧ '\n' ∉ raw ∧
      (back = [] ∧ piece = raw ∨ back.head? = some '\n' ∧ piece = dropFinalReturn raw) := by
  induction cs generalizing line with
  | nil =>
    unfold lineCharsFrom at h
    split at h
    · cases h
    · obtain rfl := List.mem_singleton.1 h
      exact ⟨[], line.reverse, [], by simp, .inl rfl, by simpa using hline, .inl ⟨rfl, rfl⟩⟩
  | cons c cs ih =>
    by_cases hc : c = '\n'
    · subst hc
      rw [lineCharsFrom] at h
      rcases List.mem_cons.1 h with rfl | h
      · exact ⟨[], line.reverse, '\n' :: cs, rfl, .inl rfl, by simpa using hline, .inr ⟨rfl, rfl⟩⟩
      · obtain ⟨front, raw, back, heq, hfront, hraw, hpiece⟩ := ih List.not_mem_nil h
        rw [List.reverse_nil, List.nil_append] at heq
        refine ⟨line.reverse ++ '\n' :: front, raw, back, by simp [heq], .inr ?_, hraw, hpiece⟩
        obtain rfl | ⟨before, rfl⟩ := hfront
        · exact ⟨line.reverse, rfl⟩
        · exact ⟨line.reverse ++ '\n' :: before, by simp⟩
    · have hcons : lineCharsFrom line (c :: cs) = lineCharsFrom (c :: line) cs := by
        rw [lineCharsFrom]
        exact hc
      rw [hcons] at h
      have hnone : '\n' ∉ c :: line := by
        rw [List.mem_cons, not_or]
        exact ⟨fun heq => hc heq.symm, hline⟩
      obtain ⟨front, raw, back, heq, hrest⟩ := ih hnone h
      exact ⟨front, raw, back, by simpa using heq, hrest⟩

theorem lineChars_of_not_mem {cs : List Char} (h : '\n' ∉ cs) (hne : cs ≠ []) :
    lineChars cs = [cs] := by
  have hall : ∀ (cs line : List Char), '\n' ∉ cs → line.reverse ++ cs ≠ [] →
      lineCharsFrom line cs = [line.reverse ++ cs] := by
    intro cs
    induction cs with
    | nil =>
      intro line _ hne
      rw [List.append_nil] at hne ⊢
      rw [lineCharsFrom, if_neg (by simpa using hne)]
    | cons c cs ih =>
      intro line h _
      rw [List.mem_cons, not_or] at h
      rw [lineCharsFrom]
      · rw [ih (c :: line) h.2 (by simp)]
        simp
      · exact fun hc => h.1 hc.symm
  exact hall cs [] h hne

/-- Trimming takes blank characters from both ends. -/
theorem exists_trimChars (cs : List Char) : ∃ lead trail, cs = lead ++ (trimChars cs ++ trail) ∧
    ∀ c ∈ lead ++ trail, isBlankChar c = true := by
  have hlead := List.takeWhile_append_dropWhile (p := isBlankChar) (l := cs)
  have htrail := List.takeWhile_append_dropWhile (p := isBlankChar)
    (l := (cs.dropWhile isBlankChar).reverse)
  refine ⟨cs.takeWhile isBlankChar,
    ((cs.dropWhile isBlankChar).reverse.takeWhile isBlankChar).reverse, ?_, fun c hc => ?_⟩
  · unfold trimChars trimStartChars
    rw [← List.reverse_append, htrail, List.reverse_reverse, hlead]
  · rcases List.mem_append.1 hc with hc | hc
    · exact List.all_eq_true.1 List.all_takeWhile c hc
    · exact List.all_eq_true.1 List.all_takeWhile c (List.mem_reverse.1 hc)

/-- Blank characters around a text that begins and ends otherwise are trimmed. -/
theorem trimChars_append {lead trail mid : List Char} {c d : Char}
    (hblank : ∀ x ∈ lead ++ trail, isBlankChar x = true) (hc : isBlankChar c = false)
    (hd : isBlankChar d = false) :
    trimChars (lead ++ (c :: (mid ++ [d]) ++ trail)) = c :: (mid ++ [d]) := by
  obtain ⟨hlead, htrail⟩ := List.forall_mem_append.1 hblank
  have hreversed : ∀ x ∈ trail.reverse, isBlankChar x = true :=
    fun x hx => htrail x (List.mem_reverse.1 hx)
  unfold trimChars trimStartChars
  rw [List.dropWhile_append_of_pos hlead, List.cons_append, List.dropWhile_cons_of_neg (by simp [hc]),
    ← List.cons_append, List.reverse_append, List.dropWhile_append_of_pos hreversed]
  simp [hd]

/-- A carriage return at the end of a line makes no difference to the trimmed line. -/
theorem trimChars_dropFinalReturn (raw : List Char) :
    trimChars (dropFinalReturn raw) = trimChars raw := by
  unfold dropFinalReturn
  split
  · next h =>
    have hraw : raw = raw.dropLast ++ ['\r'] := (List.dropLast_append_getLast? '\r' h).symm
    have hreturn : isBlankChar '\r' = true := by decide
    conv_rhs => rw [hraw]
    unfold trimChars trimStartChars
    rw [List.dropWhile_append]
    split
    · next hempty => simp [List.isEmpty_iff.1 hempty, hreturn]
    · simp [hreturn]
  · rfl

end Text

/-! ## The mark -/

namespace Manifest

/-- The line that names the project. -/
def nameLine : List Char :=
  (assignment "name" projectName).toList

/-- The text begins with the header, and behind a line feed stands the name of the project, with
blank characters around it in its line. -/
def Marked (text : String) : Prop :=
  header.toList <+: text.toList ∧ ∃ front lead trail back : List Char,
    text.toList = front ++ '\n' :: (lead ++ (nameLine ++ trail) ++ back) ∧
    (∀ c ∈ lead ++ trail, Text.isBlankChar c = true ∧ c ≠ '\n') ∧
    (back = [] ∨ back.head? = some '\n')

theorem exists_nameLine : ∃ mid, nameLine = 'n' :: (mid ++ ['"']) :=
  ⟨"ame = \"inline-sol-forge-project".toList, by decide⟩

theorem trimChars_nameLine {lead trail : List Char}
    (hblank : ∀ c ∈ lead ++ trail, Text.isBlankChar c = true) :
    Text.trimChars (lead ++ (nameLine ++ trail)) = nameLine := by
  obtain ⟨mid, hmid⟩ := exists_nameLine
  rw [hmid]
  exact Text.trimChars_append hblank (by decide) (by decide)

/-- Behind the header, the line that is the name when it is trimmed is not the first one. -/
theorem marked_of_line {text : String} {piece : List Char} (hbegins : header.toList <+: text.toList)
    (hpiece : piece ∈ Text.lineChars text.toList) (hname : Text.trimChars piece = nameLine) :
    Marked text := by
  obtain ⟨front, raw, back, htext, hfront, hraw, hends⟩ :=
    Text.exists_of_mem_lineCharsFrom List.not_mem_nil hpiece
  rw [List.reverse_nil, List.nil_append] at htext
  have htrim : Text.trimChars raw = nameLine := by
    obtain ⟨-, rfl⟩ | ⟨-, rfl⟩ := hends
    · exact hname
    · rwa [Text.trimChars_dropFinalReturn] at hname
  obtain ⟨lead, trail, hline, hblank⟩ := Text.exists_trimChars raw
  rw [htrim] at hline
  obtain rfl | ⟨before, rfl⟩ := hfront
  · -- The header begins neither with a blank character nor like the name.
    obtain ⟨rest, hrest⟩ := hbegins
    rw [← hrest, hline] at htext
    cases lead with
    | nil =>
      obtain ⟨mid, hmid⟩ := exists_nameLine
      rw [hmid] at htext
      exact absurd (List.cons.inj htext).1 (by decide)
    | cons c lead =>
      obtain rfl : '[' = c := (List.cons.inj htext).1
      exact absurd (hblank '[' List.mem_cons_self) (by decide)
  · refine ⟨hbegins, before, lead, trail, back, by simp [htext, hline], fun c hc => ?_,
      hends.imp And.left And.left⟩
    refine ⟨hblank c hc, fun heq => hraw ?_⟩
    rw [hline, ← heq]
    simp only [List.mem_append] at hc ⊢
    exact hc.imp_right .inr

/-- A marked text has a line that is the name when it is trimmed. -/
theorem Marked.exists_line {text : String} (h : Marked text) :
    ∃ piece ∈ Text.lineChars text.toList, Text.trimChars piece = nameLine := by
  obtain ⟨-, front, lead, trail, back, htext, hblank, hback⟩ := h
  have htrim := trimChars_nameLine fun c hc => (hblank c hc).1
  have hline : '\n' ∉ lead ++ (nameLine ++ trail) := by
    have hname : '\n' ∉ nameLine := by decide
    have houter : '\n' ∉ lead ++ trail := fun hmem => (hblank '\n' hmem).2 rfl
    simp only [List.mem_append, not_or] at houter ⊢
    exact ⟨houter.1, hname, houter.2⟩
  have hbehind : ∃ piece ∈ Text.lineChars (lead ++ (nameLine ++ trail) ++ back),
      Text.trimChars piece = nameLine := by
    obtain rfl | hhead := hback
    · refine ⟨lead ++ (nameLine ++ trail), ?_, htrim⟩
      rw [List.append_nil, Text.lineChars_of_not_mem hline (by simp [nameLine, assignment])]
      exact List.mem_singleton_self _
    · obtain ⟨rest, rfl⟩ := List.head?_eq_some_iff.1 hhead
      refine ⟨Text.dropFinalReturn (lead ++ (nameLine ++ trail)), ?_, ?_⟩
      · rw [Text.lineChars_append hline]
        exact List.mem_cons_self
      · rw [Text.trimChars_dropFinalReturn, htrim]
  obtain ⟨piece, hpiece, hname⟩ := hbehind
  rw [htext]
  exact ⟨piece, Text.mem_lineCharsFrom_append hpiece front [], hname⟩

/-- A manifest is recognized by the mark. -/
theorem isGenerated_iff_marked {text : String} : isGenerated text = true ↔ Marked text := by
  have hlines : ((Text.lines text).any fun line => Text.trim line == assignment "name" projectName) =
      true ↔ ∃ piece ∈ Text.lineChars text.toList, Text.trimChars piece = nameLine := by
    simp only [Text.lines, List.any_map, List.any_eq_true, Function.comp_apply, Text.trim,
      String.toList_ofList, beq_iff_eq, nameLine, ← String.toList_inj]
  unfold isGenerated
  rw [Bool.and_eq_true, hlines, List.isPrefixOf_iff_prefix]
  constructor
  · rintro ⟨hbegins, piece, hpiece, hname⟩
    exact marked_of_line hbegins hpiece hname
  · exact fun hmarked => ⟨hmarked.1, hmarked.exists_line⟩

/-- Every manifest of a project of this name has the mark. -/
theorem marked_render {m : Manifest} (hname : m.name = projectName) : Marked m.render := by
  have htext : m.render.toList = mark.toList ++ '\n' :: (assignment "src" m.src ++ "\n" ++
      assignment "out" m.out ++ "\n" ++ assignment "solc" m.solc ++ "\n").toList := by
    simp [render, mark, hname]
  exact isGenerated_iff_marked.1 (isGenerated_mark_append _ htext (Or.inr ⟨_, rfl⟩))

/-- A manifest ends its last line with a quotation mark. -/
theorem toList_render (m : Manifest) : ∃ front, m.render.toList = front ++ ['"', '\n'] := by
  refine ⟨(header ++ assignment "name" m.name ++ "\n" ++ assignment "src" m.src ++ "\n" ++
    assignment "out" m.out ++ "\n" ++ ("solc" ++ " = \"" ++ m.solc)).toList, ?_⟩
  simp [render, assignment]

end Manifest

/-! ## Directories that are taken -/

namespace Workspace

variable {h : Host} {w : Workspace} {t : FileTree} {c : Config} {names : List String}

/-- The manifest at the root has the mark. -/
def MarkedAt (h : Host) (w : Workspace) (t : FileTree) : Prop :=
  ∃ text, Plan.textAt h t w.manifestPath = .ok text ∧ Manifest.Marked text

theorem generated_iff_markedAt : w.Generated h t ↔ w.MarkedAt h t :=
  exists_congr fun _ => and_congr_right fun _ => Manifest.isGenerated_iff_marked

/-- A directory with something in it is left, with the error that says so, exactly if its manifest
does not have the mark. -/
theorem create_eq_notWorkspace_iff (hdefault : c.isDefaultRoot = false)
    (hkind : t.kind h.current c.root = .ok .directory) (hlist : t.list h.current c.root = .ok names)
    (hne : names ≠ []) :
    (create c).run h t = (.error (notWorkspace c.root), t) ↔ ¬ MarkedAt h ⟨c.root⟩ t := by
  rw [← generated_iff_markedAt]
  constructor
  · intro hrun hgenerated
    have hdeclined := declined_of_refused hdefault (by rw [hrun]) (Or.inr rfl)
    exact hdeclined.not_replaced ⟨hkind, Or.inr hgenerated⟩
  · intro hgenerated
    obtain ⟨hresult, htree⟩ :=
      ensures_create_declined hdefault (.foreign hkind hlist hne hgenerated)
    exact Prod.ext hresult htree

/-- Nothing is left below the directory of a root that was cleared because of its manifest. -/
theorem ensures_removePrevious_marked (hwf : t.WellFormed)
    (hcurrent : t.get? h.current = some .directory) (hmarked : MarkedAt h w t) :
    Plan.Ensures h w.removePrevious t fun r t' => r = .ok () →
      ∀ p q, t.entryAt h.current true w.root = .ok (p, .directory) → Below p q →
        t'.get? q = none := by
  refine (ensures_removePrevious hwf hcurrent).mono fun r t' ⟨_, hfree⟩ hr p q hentry hbelow => ?_
  exact hfree () hr q ⟨generated_iff_markedAt.2 hmarked, p, hentry, hbelow⟩

end Workspace

namespace Run

open Workspace

variable {h : Host} {t : FileTree} {c : Config} {names : List String}

/-- The end of a run whose workspace could not be made removes what is at the root exactly if its
manifest has the mark. -/
theorem ensures_finish_failed (hdefault : c.isDefaultRoot = false) (e : Error) :
    Plan.Ensures h (finish ⟨c, some (.error e)⟩) t fun r t' =>
      (¬ MarkedAt h ⟨c.root⟩ t → r = .ok () ∧ t' = t) ∧
      (MarkedAt h ⟨c.root⟩ t → r = .ok () → t'.kind h.current c.root = .error .notFound) := by
  rw [finish_eq, ← generated_iff_markedAt]
  refine Plan.ensures_bind (P := fun out t' => out.1 = .error e ∧ t' = t) ⟨rfl, rfl⟩ ?_
  rintro ⟨made, r⟩ _ ⟨hmade, rfl⟩
  dsimp only at hmade ⊢
  subst hmade
  refine (ensures_release_error hdefault e _).mono ?_
  rintro result t' (⟨hgenerated, -, hgone⟩ | ⟨hnot, hok, rfl⟩)
  · exact ⟨fun hnot => absurd hgenerated hnot, fun _ => hgone⟩
  · exact ⟨fun _ => ⟨hok, rfl⟩, fun hgenerated => absurd hgenerated hnot⟩

/-- The test for manifests accepts the texts with the mark, among them every manifest of a project
of this name. A directory of the caller's choice with something in it is refused, and nothing
changes, exactly if its manifest does not have the mark; if it has, clearing the root leaves nothing
below it. The end of a run that has no workspace removes what is at the root if its manifest has the
mark, and changes nothing otherwise. -/
theorem taken_iff_marked (hwf : t.WellFormed) (hcurrent : t.get? h.current = some .directory)
    (hdefault : c.isDefaultRoot = false) (hkind : t.kind h.current c.root = .ok .directory)
    (hlist : t.list h.current c.root = .ok names) (hne : names ≠ []) :
    (∀ text, Manifest.isGenerated text = true ↔ Manifest.Marked text) ∧
      (∀ m : Manifest, m.name = Manifest.projectName → Manifest.Marked m.render) ∧
      ((create c).run h t = (.error (notWorkspace c.root), t) ↔ ¬ MarkedAt h ⟨c.root⟩ t) ∧
      (MarkedAt h ⟨c.root⟩ t → Plan.Ensures h (removePrevious ⟨c.root⟩) t fun r t' => r = .ok () →
        ∀ p q, t.entryAt h.current true c.root = .ok (p, .directory) → Below p q →
          t'.get? q = none) ∧
      ∀ e, Plan.Ensures h (finish ⟨c, some (.error e)⟩) t fun r t' =>
        (¬ MarkedAt h ⟨c.root⟩ t → r = .ok () ∧ t' = t) ∧
        (MarkedAt h ⟨c.root⟩ t → r = .ok () → t'.kind h.current c.root = .error .notFound) :=
  ⟨fun _ => Manifest.isGenerated_iff_marked, fun _ => Manifest.marked_render,
    create_eq_notWorkspace_iff hdefault hkind hlist hne,
    fun hmarked => ensures_removePrevious_marked hwf hcurrent hmarked,
    fun e => ensures_finish_failed hdefault e⟩

/-- A directory `w` with a manifest and a file of the user. -/
def withManifest (text : String) : FileTree :=
  ⟨[(["w"], .directory), (["w", Manifest.fileName], .file text.toUTF8 false),
    (["w", "notes.txt"], .file "keep me".toUTF8 false)]⟩

/-- A manifest with a section of the user's in place of the lines for the directories. -/
def extended : String :=
  "[project]\nname = \"inline-sol-forge-project\"\n\n[profile.default]\noptimizer = true\n"

/-- A directory whose manifest is that of another project stays, and one whose manifest was extended
does not. -/
theorem taken_iff_marked_mine_extended :
    (∀ e, Plan.Ensures bare (finish ⟨chosen "w", some (.error e)⟩)
        (withManifest "[project]\nname = \"mine\"\n") fun r t' =>
          r = .ok () ∧ t' = withManifest "[project]\nname = \"mine\"\n") ∧
      ∀ e, Plan.Ensures bare (finish ⟨chosen "w", some (.error e)⟩) (withManifest extended)
        fun r t' => r = .ok () → t'.kind [] "w" = .error .notFound := by
  have hlist : (withManifest "[project]\nname = \"mine\"\n").list [] "w" =
      .ok ["foundry.toml", "notes.txt"] := by
    decide +kernel
  have hlist' : (withManifest extended).list [] "w" = .ok ["foundry.toml", "notes.txt"] := by
    decide +kernel
  obtain ⟨-, -, hmine, -, hkept⟩ := taken_iff_marked (h := bare) (c := chosen "w")
    (wellFormed_of_entries (by decide +kernel)) rfl rfl (by decide +kernel) hlist (by decide)
  obtain ⟨-, -, hextended, -, hgone⟩ := taken_iff_marked (h := bare) (c := chosen "w")
    (wellFormed_of_entries (by decide +kernel)) rfl rfl (by decide +kernel) hlist' (by decide)
  have hmade : ((create (chosen "w")).run bare (withManifest extended)).1 = .ok ⟨"w"⟩ := by
    decide +kernel
  have hrefused : (create (chosen "w")).run bare (withManifest "[project]\nname = \"mine\"\n") =
      (.error (notWorkspace "w"), withManifest "[project]\nname = \"mine\"\n") :=
    rfl
  have hmarked : MarkedAt bare ⟨"w"⟩ (withManifest extended) :=
    Classical.byContradiction fun hnot => by
      rw [hextended.2 hnot] at hmade
      cases hmade
  exact ⟨fun e => (hkept e).mono fun _ _ hk => hk.1 (hmine.1 hrefused),
    fun e => (hgone e).mono fun _ _ hg => hg.2 hmarked⟩

/-- An extended manifest is recognized, though it is the manifest of no workspace : making a
workspace at its directory removes the file of the user, and so does the end of a run whose
workspace could not be made because a file was at the root. -/
theorem extended_taken :
    Manifest.isGenerated extended = true ∧ (∀ m : Manifest, extended ≠ m.render) ∧
      ((create (chosen "w")).run bare (withManifest extended)).1 = .ok ⟨"w"⟩ ∧
      ((create (chosen "w")).run bare (withManifest extended)).2.get? ["w", "notes.txt"] = none ∧
      (created bare (chosen "w") ⟨[(["w"], .file ByteArray.empty false)]⟩).1 =
        .error (notDirectory "w") ∧
      ((finish ⟨chosen "w", some (.error (notDirectory "w"))⟩).run bare
        (withManifest extended)).2.get? ["w", "notes.txt"] = none := by
  refine ⟨by decide +kernel, fun m heq => ?_, by decide +kernel, by decide +kernel,
    by decide +kernel, by decide +kernel⟩
  obtain ⟨front, hfront⟩ := Manifest.toList_render m
  rw [← heq] at hfront
  have hlast := congrArg (fun cs : List Char => cs.reverse.take 2) hfront
  simp only [List.reverse_append, List.reverse_cons, List.reverse_nil, List.nil_append,
    List.cons_append, List.take_succ_cons, List.take_zero] at hlast
  exact absurd hlast (by decide)

end Run

end EmbeddedSolidity
