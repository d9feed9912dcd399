import EmbeddedSolidity.FileSystem.Operation
import EmbeddedSolidity.Proofs.FileSystem.Path
import Mathlib.Data.List.Forall2
import Mathlib.Data.List.Infix
import Mathlib.Data.String.Basic

/-!
# The directories above a path

The paths of the directories above a path are written from its components. Their names are the first
names of the path, without dots, and nothing is wrong with them if nothing is wrong with the path.

* `Path.components_foldl_join` : the components of a path that is joined from names;
* `Path.parts_render` : the names of a text that is written from components;
* `FileTree.exists_ancestors` : the last directories above a path.
-/

namespace EmbeddedSolidity

namespace Text

/-- Text between separators is left out. -/
theorem sublist_intercalate (separator : Char) {pieces pieces' : List (List Char)}
    (h : pieces.Sublist pieces') :
    ([separator].intercalate pieces).Sublist ([separator].intercalate pieces') := by
  induction h with
  | slnil => exact List.Sublist.refl _
  | @cons l₁ l₂ piece h ih =>
    cases l₂ with
    | nil =>
      rw [List.sublist_nil.1 h]
      exact List.nil_sublist _
    | cons piece' l₂ =>
      rw [List.intercalate_cons_cons]
      exact ih.trans (List.sublist_append_right _ _)
  | @cons_cons l₁ l₂ piece h ih =>
    cases l₂ with
    | nil =>
      rw [List.sublist_nil.1 h]
    | cons piece₂ l₂ =>
      cases l₁ with
      | nil =>
        rw [List.intercalate_singleton, List.intercalate_cons_cons, List.append_assoc]
        exact List.sublist_append_left _ _
      | cons piece₁ l₁ =>
        rw [List.intercalate_cons_cons, List.intercalate_cons_cons]
        exact ih.append_left _

theorem not_mem_of_mem_cut {separator : Char} {cs piece : List Char} (h : piece ∈ cut separator cs) :
    separator ∉ piece := by
  induction cs generalizing piece with
  | nil =>
    rw [cut, List.mem_singleton] at h
    rw [h]
    exact List.not_mem_nil
  | cons c cs ih =>
    rw [cut] at h
    split at h
    · rcases List.mem_cons.1 h with rfl | h
      · exact List.not_mem_nil
      · exact ih h
    · next hc =>
      obtain ⟨first, pieces, hcut⟩ := List.exists_cons_of_ne_nil (cut_ne_nil separator cs)
      rw [hcut] at h ih
      rcases List.mem_cons.1 h with rfl | h
      · rw [List.mem_cons, not_or]
        exact ⟨fun he => hc (beq_iff_eq.2 he.symm), ih List.mem_cons_self⟩
      · exact ih (List.mem_cons_of_mem _ h)

theorem cut_intercalate {separator : Char} {pieces : List (List Char)} (hne : pieces ≠ [])
    (h : ∀ piece ∈ pieces, separator ∉ piece) :
    cut separator ([separator].intercalate pieces) = pieces := by
  induction pieces with
  | nil => exact absurd rfl hne
  | cons piece pieces ih =>
    rw [List.forall_mem_cons] at h
    cases pieces with
    | nil => rw [List.intercalate_singleton, cut_of_not_mem h.1]
    | cons piece' pieces =>
      rw [List.intercalate_cons_cons, List.append_assoc, List.singleton_append, cut_append,
        cut_of_not_mem h.1, ih (List.cons_ne_nil _ _) h.2]
      rfl

end Text

/-! ## Texts of components -/

namespace Path

variable {path : String} {cs : List Component}

theorem simple_of_mem_parts {name : String} (h : name ∈ parts path) : Simple name := by
  unfold parts at h
  obtain ⟨piece, hpiece, rfl⟩ := List.mem_map.1 h
  obtain ⟨hcut, hne⟩ := List.mem_filter.1 hpiece
  unfold Simple
  rw [String.toList_ofList]
  refine ⟨fun hempty => ?_, Text.not_mem_of_mem_cut hcut⟩
  have htext := congrArg String.toList hempty
  rw [String.toList_ofList] at htext
  rw [htext] at hne
  exact absurd hne (by decide)

/-- What stands before the components of the names. -/
def lead (path : String) : List Component :=
  if isAbsolute path then [.root] else if (parts path).head? == some "." then [.current] else []

theorem components_eq (path : String) :
    components path = lead path ++ (parts path).filterMap component? := by
  unfold components lead
  dsimp only
  split_ifs <;> rfl

theorem map_text_filterMap (names : List String) :
    (names.filterMap component?).map Component.text = names.filter (· != ".") := by
  induction names with
  | nil => rfl
  | cons name names ih =>
    rw [List.filterMap_cons, List.filter_cons, ← ih]
    unfold component?
    by_cases hdot : name = "."
    · rw [hdot]
      rfl
    by_cases hup : name = ".."
    · rw [hup]
      rfl
    rw [if_neg (by simpa using hdot), if_neg (by simpa using hup), if_pos (by simpa using hdot)]
    rfl

/-- The texts of the components are pieces of the path. -/
theorem sublist_components (path : String) :
    ((components path).map fun c => c.text.toList).Sublist (Text.cut '/' path.toList) := by
  have hparts : (parts path).map String.toList = (Text.cut '/' path.toList).filter (!·.isEmpty) := by
    unfold parts
    rw [List.map_map]
    exact (List.map_congr_left fun _ _ => String.toList_ofList).trans (List.map_id _)
  have hnames : ∀ names : List String, ((names.filterMap component?).map fun c => c.text.toList).Sublist
      (names.map String.toList) := fun names => by
    have htexts := congrArg (List.map String.toList) (map_text_filterMap names)
    rw [List.map_map] at htexts
    exact htexts ▸ List.filter_sublist.map _
  rw [components_eq, List.map_append, lead]
  split_ifs with habsolute hdot
  · obtain ⟨cs, hcs⟩ : ∃ cs, path.toList = '/' :: cs := by
      unfold isAbsolute at habsolute
      exact List.head?_eq_some_iff.1 (by simpa using habsolute)
    have hcut : Text.cut '/' path.toList = [] :: Text.cut '/' cs := by
      rw [hcs]
      rfl
    have hrest : ((Text.cut '/' path.toList).filter (!·.isEmpty)).Sublist (Text.cut '/' cs) := by
      rw [hcut, List.filter_cons_of_neg (by simp)]
      exact List.filter_sublist
    rw [hcut]
    exact .cons_cons _ ((hnames (parts path)).trans (hparts ▸ hrest))
  · obtain ⟨names, hnames'⟩ := List.head?_eq_some_iff.1 (by simpa using hdot)
    have hrest : (parts path).filterMap component? = names.filterMap component? := by
      rw [hnames']
      rfl
    rw [hnames'] at hparts
    rw [hrest]
    refine List.Sublist.trans ?_ (List.filter_sublist (p := (!·.isEmpty)))
    rw [← hparts]
    exact .cons_cons _ (hnames names)
  · exact (hparts ▸ hnames (parts path)).trans List.filter_sublist

section Join

open FileSystem.FileTree

variable {base name : String} {names : List String}

/-- Joining a plain name adds the component of the name, whatever the base ends in. -/
theorem components_join (h : Simple name) (hname : Plain name) :
    components (join base name) = components base ++ [.named name] := by
  have hcomponent : component? name = some (.named name) := by
    unfold component?
    rw [if_neg (by simpa using hname.2.1), if_neg (by simpa using hname.2.2.1)]
  have hdot : (some name == some ".") = false := beq_eq_false_iff_ne.2 (by simpa using hname.2.1)
  have hlead : lead (join base name) = lead base := by
    by_cases hbase : base = ""
    · unfold lead
      rw [hbase, join_empty, isAbsolute_simple h, parts_simple h, List.head?_cons, hdot]
      rfl
    · unfold lead
      rw [isAbsolute_join hbase h, parts_join h]
      cases parts base with
      | nil =>
        rw [List.nil_append, List.head?_cons, hdot]
        rfl
      | cons first rest => rfl
  rw [components_eq, components_eq, hlead, parts_join h, List.filterMap_append, List.filterMap_cons,
    hcomponent, List.append_assoc]
  rfl

theorem components_foldl_join (h : ∀ name ∈ names, Simple name ∧ Plain name) :
    components (names.foldl join base) = components base ++ names.map .named := by
  induction names generalizing base with
  | nil => exact (List.append_nil _).symm
  | cons name names ih =>
    rw [List.forall_mem_cons] at h
    rw [List.foldl_cons, ih h.2, components_join h.1.1 h.1.2, List.append_assoc]
    rfl

end Join

/-! ## Paths that are written from components -/

theorem render_eq (h : cs ≠ [.root]) : render cs = "/".intercalate (cs.map Component.text) := by
  unfold render
  split
  · exact absurd rfl h
  · rfl

/-- The path is as long as what is written from its first components, or longer. -/
theorem render_sublist (hcs : cs <+: components path) (hroot : cs ≠ [.root]) :
    (render cs).toList.Sublist path.toList := by
  have htexts : (cs.map Component.text).map String.toList = cs.map fun c => c.text.toList :=
    List.map_map
  rw [render_eq hroot, String.toList_intercalate, htexts, ← Text.intercalate_cut '/' path.toList]
  exact Text.sublist_intercalate '/' ((hcs.sublist.map _).trans (sublist_components path))

theorem not_mem_text {c : Component} (h : c ∈ components path) : '/' ∉ c.text.toList :=
  Text.not_mem_of_mem_cut ((sublist_components path).subset (List.mem_map_of_mem h))

theorem parts_intercalate {names : List String} (hne : names ≠ [])
    (h : ∀ name ∈ names, '/' ∉ name.toList) :
    parts ("/".intercalate names) = names.filter (· != "") := by
  have hpieces : Text.cut '/' ("/".intercalate names).toList = names.map String.toList := by
    rw [String.toList_intercalate]
    refine Text.cut_intercalate (by simpa using hne) fun piece hpiece => ?_
    obtain ⟨name, hname, rfl⟩ := List.mem_map.1 hpiece
    exact h name hname
  have hempty : ((!·.isEmpty) ∘ String.toList : String → Bool) = (· != "") := funext fun name => by
    rw [Bool.eq_iff_iff]
    simp
  unfold parts
  rw [hpieces, List.filter_map, hempty, List.map_map]
  exact (List.map_congr_left fun _ _ => String.ofList_toList).trans (List.map_id _)

theorem parts_render (hcs : cs <+: components path) (hne : cs ≠ []) (hroot : cs ≠ [.root]) :
    parts (render cs) = (cs.map Component.text).filter (· != "") := by
  rw [render_eq hroot]
  refine parts_intercalate (by simpa using hne) fun name hname => ?_
  obtain ⟨c, hc, rfl⟩ := List.mem_map.1 hname
  exact not_mem_text (hcs.subset hc)

theorem simple_text {c : Component} (h : c ∈ components path) (hroot : c ≠ .root) :
    Simple c.text := by
  rw [components_eq, List.mem_append] at h
  rcases h with h | h
  · unfold lead at h
    split_ifs at h
    · exact absurd (List.mem_singleton.1 h) hroot
    · rw [List.mem_singleton.1 h]
      decide
    · cases h
  · have htext := List.mem_map_of_mem (f := Component.text) h
    rw [map_text_filterMap] at htext
    exact simple_of_mem_parts (List.mem_of_mem_filter htext)

/-- The path begins at the root if its first component is the root. -/
theorem isAbsolute_iff_head? {c : Component} (h : (components path).head? = some c) :
    isAbsolute path = true ↔ c = .root := by
  rw [components_eq, lead] at h
  constructor
  · intro habsolute
    rw [if_pos habsolute] at h
    exact (Option.some.inj h).symm
  · rintro rfl
    by_contra habsolute
    rw [if_neg habsolute] at h
    have hmem : Component.root ∈ (parts path).filterMap component? := by
      split_ifs at h
      · cases h
      · exact List.mem_of_mem_head? h
    have htext := List.mem_map_of_mem (f := Component.text) hmem
    rw [map_text_filterMap] at htext
    exact (simple_of_mem_parts (List.mem_of_mem_filter htext)).1 rfl

theorem isAbsolute_render (hcs : cs <+: components path) (hne : cs ≠ []) (hroot : cs ≠ [.root]) :
    isAbsolute (render cs) = isAbsolute path := by
  obtain ⟨c, cs', rfl⟩ := List.exists_cons_of_ne_nil hne
  have hc : c ∈ components path := hcs.subset List.mem_cons_self
  have hfirst : (components path).head? = some c := by
    obtain ⟨after, hafter⟩ := hcs
    rw [← hafter]
    rfl
  rw [Bool.eq_iff_iff, isAbsolute_iff_head? hfirst, isAbsolute, render_eq hroot,
    String.toList_intercalate, beq_iff_eq]
  constructor
  · intro hslash
    by_contra hc'
    obtain ⟨hne', hmem⟩ := simple_text hc hc'
    obtain ⟨x, xs, htext⟩ := List.exists_cons_of_ne_nil fun hnil => hne' (String.toList_eq_nil_iff.1 hnil)
    have hx : x = '/' := by
      rw [List.map_cons, List.map_cons, htext] at hslash
      cases cs' <;> exact Option.some.inj hslash
    rw [htext, hx] at hmem
    exact hmem List.mem_cons_self
  · rintro rfl
    obtain ⟨c', cs'', rfl⟩ := List.exists_cons_of_ne_nil fun hnil : cs' = [] => hroot (by rw [hnil])
    rw [List.map_cons, List.map_cons, List.map_cons, List.map_cons, List.intercalate_cons_cons]
    rfl

end Path

namespace FileSystem.FileTree

open EmbeddedSolidity.Path

variable {path : String} {cs : List Component}

theorem pathFault?_render (hpath : pathFault? path = none) (hcs : cs <+: components path)
    (hroot : cs ≠ [.root]) (hne : parts (render cs) ≠ []) : pathFault? (render cs) = none := by
  rw [pathFault?_eq_none_iff] at hpath ⊢
  have hsublist := render_sublist hcs hroot
  refine ⟨fun hnul => hpath.1 (hsublist.subset hnul), fun hempty => ?_, ?_⟩
  · rw [hempty] at hne
    exact hne rfl
  · refine Nat.lt_of_le_of_lt ?_ hpath.2.2
    have hsize := String.utf8Len_le_of_sublist hsublist
    rwa [← String.utf8ByteSize_ofList, ← String.utf8ByteSize_ofList, String.ofList_toList,
      String.ofList_toList] at hsize

/-! ## The last directories above a path -/

section Inits

variable {α : Type} {xs ys : List α}

theorem ne_nil_of_mem_tail_inits (h : xs ∈ ys.inits.tail) : xs ≠ [] := by
  cases ys with
  | nil => exact absurd h List.not_mem_nil
  | cons y ys =>
    rw [List.inits_cons, List.tail_cons] at h
    obtain ⟨zs, -, rfl⟩ := List.mem_map.1 h
    exact List.cons_ne_nil _ _

theorem dropLast_inits_append (xs : List α) (hne : ys ≠ []) :
    (xs ++ ys).inits.dropLast = xs.inits ++ ys.inits.tail.dropLast.map fun zs => xs ++ zs := by
  obtain ⟨y, ys, rfl⟩ := List.exists_cons_of_ne_nil hne
  have hinits : ys.inits ≠ [] := List.ne_nil_of_mem ((List.mem_inits ys ys).2 (List.prefix_refl _))
  rw [List.inits_append, List.dropLast_append_of_ne_nil, List.map_dropLast]
  rw [List.inits_cons, List.tail_cons, List.map_map]
  simpa using hinits

theorem tail_inits_cons (x : α) (xs : List α) :
    (x :: xs).inits.tail = [x] :: xs.inits.tail.map fun zs => x :: zs := by
  rw [List.inits_cons, List.tail_cons]
  cases xs <;> rfl

theorem tail_inits (h : xs ≠ []) : xs.inits.tail = xs.inits.tail.dropLast ++ [xs] := by
  obtain ⟨xs, x, rfl⟩ := List.eq_nil_or_concat xs |>.resolve_left h
  have hinits : xs.inits ≠ [] := List.ne_nil_of_mem ((List.mem_inits xs xs).2 (List.prefix_refl _))
  rw [List.concat_eq_append, List.inits_append, List.tail_append_of_ne_nil hinits]
  change _ ++ [xs ++ [x]] = (_ ++ [xs ++ [x]]).dropLast ++ _
  rw [List.dropLast_concat]

end Inits

/-- The path `q` leads where `path` does by its first names and then has the names `ns`. -/
structure Shortens (path : String) (front : List String) (q : String) (ns : List String) : Prop where
  fault : pathFault? path = none → pathFault? q = none
  absolute : isAbsolute q = isAbsolute path
  names : ∃ front', parts q = front' ++ ns ∧ front'.filter (· != ".") = front.filter (· != ".")
  plain : ∀ name ∈ ns, Plain name

theorem filterMap_component? {tail names : List String} (hnames : tail.filter (· != ".") = names)
    (hplain : ∀ name ∈ names, Plain name) :
    tail.filterMap component? = names.map Component.named := by
  induction tail generalizing names with
  | nil =>
    subst hnames
    rfl
  | cons name tail ih =>
    rw [List.filterMap_cons]
    by_cases hdot : name = "."
    · subst hdot
      exact ih hnames hplain
    · rw [List.filter_cons_of_pos (by simpa using hdot)] at hnames
      subst hnames
      rw [List.forall_mem_cons] at hplain
      have hcomponent : component? name = some (.named name) := by
        unfold component?
        rw [if_neg (by simpa using hdot), if_neg (by simpa using hplain.1.2.2.1)]
      rw [hcomponent, ih rfl hplain.2]
      rfl

/-- Components that end in a name are not those of the root. -/
theorem named_ne_root {names : List String} (pre : List Component) (hne : names ≠ []) :
    pre ++ names.map Component.named ≠ [] ∧ pre ++ names.map Component.named ≠ [.root] := by
  obtain ⟨names, last, rfl⟩ := List.eq_nil_or_concat names |>.resolve_left hne
  refine ⟨by simp, fun hroot => ?_⟩
  have hlast := congrArg List.getLast? hroot
  simp at hlast

/-- What is written from the first components of a path that ends in names. -/
theorem shortens_render {front ns : List String}
    (hcs : (lead path ++ front.filterMap component?) ++ ns.map .named <+: components path)
    (hfront : ∀ name ∈ front, name ≠ "") (hplain : ∀ name ∈ ns, Plain name) (hne : ns ≠ []) :
    Shortens path front (render ((lead path ++ front.filterMap component?) ++ ns.map .named)) ns := by
  obtain ⟨hnil, hroot⟩ := named_ne_root (lead path ++ front.filterMap component?) hne
  have hnames : (ns.map (Component.text ∘ Component.named)).filter (· != "") = ns := by
    have htext : Component.text ∘ Component.named = id := rfl
    rw [htext, List.map_id, List.filter_eq_self]
    exact fun name hname => bne_iff_ne.2 (hplain name hname).1
  have htexts := parts_render hcs hnil hroot
  rw [List.map_append, List.filter_append, List.map_map, hnames] at htexts
  refine ⟨fun hfault => pathFault?_render hfault hcs hroot ?_, isAbsolute_render hcs hnil hroot,
    ⟨_, htexts, ?_⟩, hplain⟩
  · rw [htexts]
    exact List.append_ne_nil_of_right_ne_nil _ hne
  · have hlead : (((lead path).map Component.text).filter (· != "")).filter (· != ".") = [] := by
      unfold lead
      split_ifs <;> decide
    have hempty : (front.filter (· != ".")).filter (· != "") = front.filter (· != ".") :=
      List.filter_eq_self.2 fun name hname => bne_iff_ne.2 (hfront name (List.mem_of_mem_filter hname))
    rw [List.map_append, map_text_filterMap, List.filter_append, List.filter_append, hlead,
      List.nil_append, hempty, List.filter_filter]
    simp only [Bool.and_self]

/-- The last directories above a path are those of its last names. -/
theorem exists_ancestors {front tail names : List String} (hparts : parts path = front ++ tail)
    (hnames : tail.filter (· != ".") = names) (hplain : ∀ name ∈ names, Plain name)
    (hne : names ≠ []) :
    ∃ paths above, ancestors path = path :: (paths.reverse ++ above) ∧
      List.Forall₂ (Shortens path front) paths names.inits.tail.dropLast := by
  have hcomponents : components path =
      (lead path ++ front.filterMap component?) ++ names.map Component.named := by
    rw [components_eq, hparts, List.filterMap_append, filterMap_component? hnames hplain,
      List.append_assoc]
  have hfront : ∀ name ∈ front, name ≠ "" := fun name hname =>
    (simple_of_mem_parts (hparts ▸ List.mem_append_left _ hname)).1
  have hshortens : ∀ ns ∈ names.inits.tail.dropLast, Shortens path front
      (render ((lead path ++ front.filterMap component?) ++ ns.map .named)) ns := fun ns hns => by
    have htail := List.mem_of_mem_dropLast hns
    have hbegins := (List.mem_inits ns names).1 (List.mem_of_mem_tail htail)
    refine shortens_render ?_ hfront (fun name hname => hplain name (hbegins.subset hname))
      (ne_nil_of_mem_tail_inits htail)
    rw [hcomponents, List.prefix_append_right_inj]
    exact hbegins.map _
  generalize lead path ++ front.filterMap component? = pre at hcomponents hshortens
  have hshorter : (List.range (components path).length).map (fun n => (components path).take n) =
      pre.inits ++ names.inits.tail.dropLast.map fun ns => pre ++ ns.map .named := by
    have hinits : (List.range (components path).length).map (fun n => (components path).take n) =
        (components path).inits.dropLast :=
      List.ext_getElem (by simp) fun _ _ _ => by simp
    rw [hinits, hcomponents, dropLast_inits_append pre (by simpa using hne), List.map_inits,
      ← List.map_tail, ← List.map_dropLast, List.map_map]
    rfl
  refine ⟨names.inits.tail.dropLast.map fun ns => render (pre ++ ns.map .named),
    (pre.inits.reverse.filter fun c => c != [] && c != [.root]).map render, ?_, ?_⟩
  · unfold ancestors
    dsimp only
    rw [List.map_reverse, hshorter, List.reverse_append, List.filter_append, List.filter_eq_self.2,
      List.map_append, List.map_reverse, List.map_map]
    · rfl
    · intro c hc
      obtain ⟨ns, hns, rfl⟩ := List.mem_map.1 (List.mem_reverse.1 hc)
      rw [Bool.and_eq_true, bne_iff_ne, bne_iff_ne]
      exact named_ne_root pre (ne_nil_of_mem_tail_inits (List.mem_of_mem_dropLast hns))
  · rw [List.forall₂_map_left_iff, List.forall₂_same]
    exact hshortens

end FileSystem.FileTree

end EmbeddedSolidity
