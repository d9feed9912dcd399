import EmbeddedSolidity.Options.Basic
import EmbeddedSolidity.Text.Utf8

/-!
# Parts of manifests

A manifest is known by its first two lines, of which the second has the name of the project. So of a
manifest that has been written in part it is known how much of it must be there : these lines, with
or without the line feed behind them.

* `Manifest.isGenerated_render` : a manifest is known again;
* `Manifest.known_iff` : which parts of a manifest are known.
-/

namespace EmbeddedSolidity

/-! ## Parts of ASCII texts -/

namespace Text

/-- Every character of the text is one byte. -/
def Ascii (s : String) : Prop :=
  ∀ c ∈ s.toList, c.utf8Size = 1

instance (s : String) : Decidable (Ascii s) :=
  List.decidableBAll (fun c : Char => c.utf8Size = 1) s.toList

theorem Ascii.append {s s' : String} (h : Ascii s) (h' : Ascii s') : Ascii (s ++ s') := by
  unfold Ascii
  rw [String.toList_append, List.forall_mem_append]
  exact ⟨h, h'⟩

/-- The first bytes of an ASCII text are those of its first characters. -/
theorem eq_take_of_append {s : String} (h : Ascii s) {front rest : ByteArray}
    (heq : s.toUTF8 = front ++ rest) :
    front = (String.ofList (s.toList.take front.size)).toUTF8 := by
  have hsize : s.toList.length = front.size + rest.size := by
    rw [← utf8ByteSize_ofList h, String.ofList_toList, ← ByteArray.size_append, ← heq]
    rfl
  have hle : front.size ≤ s.toList.length := by omega
  have htake : (String.ofList (s.toList.take front.size)).toUTF8.size = front.size := by
    change (String.ofList _).utf8ByteSize = _
    rw [utf8ByteSize_ofList fun c hc => h c (List.mem_of_mem_take hc), List.length_take,
      Nat.min_eq_left hle]
  have hsplit : s.toUTF8 = (String.ofList (s.toList.take front.size)).toUTF8 ++
      (String.ofList (s.toList.drop front.size)).toUTF8 := by
    change _ = String.toByteArray _ ++ String.toByteArray _
    rw [← String.toByteArray_append, ← String.ofList_append, List.take_append_drop,
      String.ofList_toList]
    rfl
  have hfront := congrArg (ByteArray.extract · 0 front.size) (heq.symm.trans hsplit)
  rwa [ByteArray.extract_append_eq_left rfl, ByteArray.extract_append_eq_left htake.symm] at hfront

theorem mem_of_cut (separator : Char) {c : Char} {cs : List Char} (h : c ∈ cs) :
    c = separator ∨ ∃ piece ∈ cut separator cs, c ∈ piece := by
  induction cs with
  | nil => cases h
  | cons x cs ih =>
    rw [cut]
    split
    · next hx =>
      rcases List.mem_cons.1 h with rfl | h
      · exact Or.inl (eq_of_beq hx)
      · rcases ih h with hc | ⟨piece, hpiece, hc⟩
        · exact Or.inl hc
        · exact Or.inr ⟨piece, List.mem_cons_of_mem _ hpiece, hc⟩
    · obtain ⟨piece, pieces, hcut⟩ := List.exists_cons_of_ne_nil (cut_ne_nil separator cs)
      rw [hcut] at ih ⊢
      rcases List.mem_cons.1 h with rfl | h
      · exact Or.inr ⟨_, List.mem_cons_self, List.mem_cons_self⟩
      · rcases ih h with hc | ⟨piece', hpiece, hc⟩
        · exact Or.inl hc
        · rcases List.mem_cons.1 hpiece with rfl | hpiece
          · exact Or.inr ⟨_, List.mem_cons_self, List.mem_cons_of_mem _ hc⟩
          · exact Or.inr ⟨piece', List.mem_cons_of_mem _ hpiece, hc⟩

theorem lineCharsFrom_append {xs : List Char} (h : '\n' ∉ xs) (line rest : List Char) :
    lineCharsFrom line (xs ++ '\n' :: rest) =
      dropFinalReturn (line.reverse ++ xs) :: lineCharsFrom [] rest := by
  induction xs generalizing line with
  | nil => simp [lineCharsFrom]
  | cons x xs ih =>
    rw [List.mem_cons, not_or] at h
    rw [List.cons_append, lineCharsFrom, ih h.2, List.reverse_cons, List.append_assoc,
      List.singleton_append]
    exact fun hx => h.1 hx.symm

/-- No line is longer than the text. -/
theorem length_le_of_mem_lineCharsFrom {line piece cs : List Char}
    (h : piece ∈ lineCharsFrom line cs) : piece.length ≤ line.length + cs.length := by
  induction cs generalizing line with
  | nil =>
    unfold lineCharsFrom at h
    split at h
    · cases h
    · rw [List.mem_singleton.1 h, List.length_reverse]
      exact Nat.le_refl _
  | cons c cs ih =>
    by_cases hc : c = '\n'
    · subst hc
      rw [lineCharsFrom] at h
      rcases List.mem_cons.1 h with rfl | h
      · have hdrop : (dropFinalReturn line.reverse).length ≤ line.length := by
          unfold dropFinalReturn
          split <;> simp
        exact Nat.le_trans hdrop (Nat.le_add_right _ _)
      · have hrest := ih h
        rw [List.length_nil] at hrest
        rw [List.length_cons]
        omega
    · have hcons : lineCharsFrom line (c :: cs) = lineCharsFrom (c :: line) cs := by
        rw [lineCharsFrom]
        exact hc
      rw [hcons] at h
      have hrest := ih h
      rw [List.length_cons] at hrest ⊢
      omega

theorem length_trimChars_le (cs : List Char) : (trimChars cs).length ≤ cs.length := by
  unfold trimChars trimStartChars
  rw [List.length_reverse]
  refine Nat.le_trans (List.dropWhile_suffix _).length_le ?_
  rw [List.length_reverse]
  exact (List.dropWhile_suffix _).length_le

end Text

theorem utf8Size_of_isDigit {c : Char} (h : c.isDigit = true) : c.utf8Size = 1 := by
  unfold Char.isDigit at h
  rw [Bool.and_eq_true, decide_eq_true_eq, decide_eq_true_eq] at h
  unfold Char.utf8Size
  rw [if_pos]
  exact UInt32.le_trans h.2 (by decide)

/-- A version is made of digits and points. -/
theorem ascii_of_isVersion {version : String} (h : isVersion version = true) :
    Text.Ascii version := by
  intro c hc
  unfold isVersion at h
  dsimp only at h
  rw [Bool.and_eq_true, List.all_eq_true] at h
  rcases Text.mem_of_cut '.' hc with rfl | ⟨piece, hpiece, hc⟩
  · rfl
  · have hdigits := h.2 piece hpiece
    rw [Bool.and_eq_true, List.all_eq_true] at hdigits
    exact utf8Size_of_isDigit (hdigits.2 c hc)

/-! ## Manifests -/

namespace Manifest

/-- The lines by which a manifest is known. -/
def mark : String :=
  header ++ assignment "name" projectName

theorem render_ofVersion (solc : String) : ∃ rest, (ofVersion solc).render = mark ++ ("\n" ++ rest) :=
  ⟨assignment "src" sourceDirectory ++ "\n" ++ assignment "out" outputDirectory ++ "\n" ++
    assignment "solc" solc ++ "\n", by
      simp only [render, ofVersion, mark, String.append_assoc]⟩

/-- A text that begins with the mark is a manifest, if the second line is no longer than that. -/
theorem isGenerated_mark_append {text : String} (rest : List Char)
    (htext : text.toList = mark.toList ++ rest) (hrest : rest = [] ∨ ∃ rest', rest = '\n' :: rest') :
    isGenerated text = true := by
  have hbegins : header.toList.isPrefixOf text.toList = true := by
    rw [htext, List.isPrefixOf_iff_prefix, mark, String.toList_append, List.append_assoc]
    exact List.prefix_append _ _
  have htrim : Text.trim (assignment "name" projectName) = assignment "name" projectName := by
    decide
  have hline : assignment "name" projectName ∈ Text.lines text := by
    unfold Text.lines Text.lineChars
    rw [htext, show mark.toList = "[project]".toList ++ '\n' :: (assignment "name" projectName).toList
      from rfl, List.append_assoc, List.cons_append, Text.lineCharsFrom_append (by decide)]
    refine List.mem_map.2 ⟨(assignment "name" projectName).toList, List.mem_cons_of_mem _ ?_,
      String.ofList_toList⟩
    rcases hrest with rfl | ⟨rest', rfl⟩
    · rw [List.append_nil]
      decide
    · rw [Text.lineCharsFrom_append (by decide)]
      exact List.mem_cons_self
  unfold isGenerated
  rw [hbegins, Bool.true_and, List.any_eq_true]
  exact ⟨_, hline, by rw [htrim, beq_self_eq_true]⟩

/-- A manifest is at least as long as the mark. -/
theorem length_mark_le {text : String} (h : isGenerated text = true) :
    mark.toList.length ≤ text.toList.length := by
  unfold isGenerated at h
  rw [Bool.and_eq_true, List.isPrefixOf_iff_prefix, List.any_eq_true] at h
  obtain ⟨⟨rest, hrest⟩, line, hline, hname⟩ := h
  have hlines : Text.lineChars text.toList = "[project]".toList :: Text.lineChars rest := by
    unfold Text.lineChars
    rw [← hrest, show header.toList = "[project]".toList ++ ['\n'] from rfl, List.append_assoc,
      List.singleton_append, Text.lineCharsFrom_append (by decide)]
    rfl
  unfold Text.lines at hline
  rw [hlines] at hline
  obtain ⟨piece, hpiece, rfl⟩ := List.mem_map.1 hline
  rw [beq_iff_eq] at hname
  rcases List.mem_cons.1 hpiece with rfl | hpiece
  · exact absurd hname (by decide)
  · have hshort := Text.length_le_of_mem_lineCharsFrom hpiece
    have htrim := Text.length_trimChars_le piece
    have hlength := congrArg (List.length ∘ String.toList) hname
    simp only [Function.comp_apply, Text.trim, String.toList_ofList] at hlength
    rw [← hrest, mark, String.toList_append, List.length_append, List.length_append, ← hlength]
    rw [List.length_nil] at hshort
    omega

/-- The manifest of a workspace is known again. -/
theorem isGenerated_render (solc : String) : isGenerated (ofVersion solc).render = true := by
  obtain ⟨rest, hrest⟩ := render_ofVersion solc
  refine isGenerated_mark_append ('\n' :: rest.toList) ?_ (Or.inr ⟨_, rfl⟩)
  rw [hrest, String.toList_append, String.toList_append]
  rfl

/-- The bytes are the text of a manifest. -/
def Known (content : ByteArray) : Prop :=
  ∃ text, Text.decode? content = some text ∧ isGenerated text = true

theorem known_toUTF8 {text : String} : Known text.toUTF8 ↔ isGenerated text = true := by
  refine ⟨fun ⟨text', hdecoded, hgenerated⟩ => ?_, fun h => ⟨text, Text.decode?_toUTF8 text, h⟩⟩
  rw [Text.decode?_toUTF8] at hdecoded
  rwa [Option.some.inj hdecoded]

theorem ascii_render {solc : String} (h : isVersion solc = true) :
    Text.Ascii (ofVersion solc).render := by
  have hsolc : Text.Ascii (assignment "solc" solc) := by
    unfold assignment
    exact .append (.append (by decide) (ascii_of_isVersion h)) (by decide)
  have hfront : Text.Ascii (header ++ assignment "name" projectName ++ "\n" ++
      assignment "src" sourceDirectory ++ "\n" ++ assignment "out" outputDirectory ++ "\n") := by
    decide
  exact .append (.append hfront hsolc) (by decide)

/-- A part of a manifest is known if it has the mark. -/
theorem known_iff {solc : String} (hversion : isVersion solc = true) {front rest : ByteArray}
    (heq : (ofVersion solc).render.toUTF8 = front ++ rest) :
    Known front ↔ mark.utf8ByteSize ≤ front.size := by
  have hfront := Text.eq_take_of_append (ascii_render hversion) heq
  have hmark : mark.utf8ByteSize = mark.toList.length := by decide
  obtain ⟨tail, htail⟩ := render_ofVersion solc
  have hlist : (ofVersion solc).render.toList = mark.toList ++ '\n' :: tail.toList := by
    rw [htail, String.toList_append, String.toList_append]
    rfl
  rw [hmark]
  generalize front.size = n at hfront
  rw [hfront, known_toUTF8, hlist]
  by_cases hn : n < mark.toList.length
  · refine iff_of_false (fun hgenerated => ?_) (Nat.not_le.2 hn)
    have hlength := length_mark_le hgenerated
    rw [String.toList_ofList, List.length_take] at hlength
    omega
  · rw [Nat.not_lt] at hn
    refine iff_of_true (isGenerated_mark_append
      (('\n' :: tail.toList).take (n - mark.toList.length)) ?_ ?_) hn
    · rw [String.toList_ofList, List.take_append, List.take_of_length_le hn]
    · cases n - mark.toList.length with
      | zero => exact Or.inl rfl
      | succ k => exact Or.inr ⟨_, rfl⟩

end Manifest

end EmbeddedSolidity
