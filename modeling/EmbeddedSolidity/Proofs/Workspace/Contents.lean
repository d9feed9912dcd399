import EmbeddedSolidity.Proofs.Workspace.Root
import EmbeddedSolidity.Workspace.Build

/-!
# What is in a workspace

A workspace holds a manifest and the texts of the snippets that were written to it. A tree shows these
contents at a place if the files for them are there, and nothing else.

* `Workspace.Contents`, `Workspace.Shows` : contents, and the trees that show them;
* `Workspace.shows_built`, `Workspace.Shows.put_source` : a new workspace, and one more source;
* `Workspace.Shows.generated`, `Workspace.Shows.stage` : what is known and done through paths.
-/

namespace EmbeddedSolidity

open FileSystem FileSystem.FileTree

namespace FileSystem.FileTree

variable {t : FileTree} {current d : Place} {path name : String} {m : Nat}

/-- Behind a path that names a place, names are walked on from its directory. -/
theorem Names.resolve_join (h : Names t current path m d name) {names : List String}
    (hnames : ∀ name ∈ names, Path.Simple name) (hne : names ≠ [])
    (hfault : pathFault? (names.foldl Path.join path) = none) (follow : Bool) :
    t.resolve current follow (names.foldl Path.join path) = t.walk follow m d (name :: names) := by
  obtain ⟨front, hparts, hreach⟩ := h.reaches
  rw [FileTree.resolve, resolveNames_eq hfault, Path.namesOf_foldl_join hnames hne, hparts,
    List.append_assoc]
  unfold startOf
  rw [Path.isAbsolute_foldl_join h.ne_empty hnames]
  exact walk_append hreach (Or.inl (List.cons_ne_nil _ _))

/-- Nothing is found behind a free place. -/
theorem Names.resolve_join_free (h : Names t current path m d name)
    (hfree : t.get? (d ++ [name]) = none) {names : List String}
    (hnames : ∀ name ∈ names, Path.Simple name) (hne : names ≠ [])
    (hfault : pathFault? (names.foldl Path.join path) = none) (follow : Bool) :
    t.resolve current follow (names.foldl Path.join path) = .error .notFound := by
  rw [h.resolve_join hnames hne hfault, walk_plain h.plain, hfree]
  obtain ⟨first, rest, rfl⟩ := List.exists_cons_of_ne_nil hne
  have hfirst : (first == "") = false := beq_eq_false_iff_ne.2 (hnames first List.mem_cons_self).1
  exact if_neg fun hall => by
    rw [List.all_cons, hfirst] at hall
    exact absurd hall.2 Bool.false_ne_true

end FileSystem.FileTree

namespace Workspace

/-- What is in a workspace : the version of the language in its manifest, and the texts in the source
files of snippets. The first text of a snippet counts. -/
structure Contents where
  solc : String
  sources : List (Snippet.Id × String) := []
deriving DecidableEq

namespace Contents

/-- The text in a source file. -/
def text? (c : Contents) (file : String) : Option String :=
  (c.sources.find? (·.1.sourceFile == file)).map (·.2)

/-- The contents with the text of one more snippet, or another text of it. -/
def insert (c : Contents) (id : Snippet.Id) (text : String) : Contents :=
  { c with sources := (id, text) :: c.sources }

/-- The entry of a workspace at a place that is seen from its root. -/
def image? (c : Contents) : Place → Option Entry
  | [] => some .directory
  | [name] =>
    if name = Manifest.fileName then some (.file (Manifest.ofVersion c.solc).render.toUTF8 false)
    else if name = Manifest.sourceDirectory then some .directory
    else none
  | [directory, file] =>
    if directory = Manifest.sourceDirectory then
      (c.text? file).map fun text => .file text.toUTF8 false
    else none
  | _ => none

theorem text?_insert (c : Contents) (id : Snippet.Id) (text file : String) :
    (c.insert id text).text? file = if id.sourceFile = file then some text else c.text? file := by
  unfold text? insert
  rw [List.find?_cons]
  by_cases hfile : id.sourceFile = file
  · rw [if_pos hfile, beq_iff_eq.2 hfile]
    rfl
  · rw [if_neg hfile, beq_eq_false_iff_ne.2 hfile]

/-- One more text changes the source file of its snippet only. -/
theorem image?_insert (c : Contents) (id : Snippet.Id) (text : String) (rest : Place) :
    (c.insert id text).image? rest =
      if rest = [Manifest.sourceDirectory, id.sourceFile] then some (.file text.toUTF8 false)
      else c.image? rest := by
  match rest with
  | [] | [_] | _ :: _ :: _ :: _ => exact (if_neg (by simp)).symm
  | [directory, file] =>
    change (if directory = _ then ((c.insert id text).text? file).map _ else none) =
      if _ then _ else if directory = _ then (c.text? file).map _ else none
    rw [text?_insert]
    by_cases hdirectory : directory = Manifest.sourceDirectory <;>
      by_cases hfile : id.sourceFile = file <;>
      simp [hdirectory, hfile, @eq_comm _ file]

end Contents

/-- A workspace, or none. -/
abbrev Store : Type :=
  Option Contents

/-- The entry at a place that is seen from the root. -/
def Store.image? (s : Store) (rest : Place) : Option Entry :=
  s.bind (·.image? rest)

/-- What the tree has at the place `p` and below it is the store. -/
def Shows (p : Place) (s : Store) (t : FileTree) : Prop :=
  ∀ rest, t.get? (p ++ rest) = s.image? rest

variable {h : Host} {w : Workspace} {t : FileTree} {c : Contents} {s : Store} {m : Nat} {d p q : Place}
  {name solc : String}

/-! ## Trees that show a store -/

theorem shows_none_iff : Shows p none t ↔ ∀ q, p <+: q → t.get? q = none :=
  ⟨fun hshows _ ⟨rest, hq⟩ => hq ▸ hshows rest, fun hfree rest => hfree _ (List.prefix_append p rest)⟩

theorem shows_none_eraseAll (hp : p ≠ []) : Shows p none (t.eraseAll p) :=
  shows_none_iff.2 fun _ hq => get?_eraseAll_eq_none t hp hq

theorem Shows.root (hshows : Shows p s t) : t.get? p = s.image? [] := by
  rw [← hshows [], List.append_nil]

theorem Shows.manifest (hshows : Shows p (some c) t) :
    t.get? (manifestPlace p) = some (.file (Manifest.ofVersion c.solc).render.toUTF8 false) :=
  hshows [Manifest.fileName]

theorem Shows.sources (hshows : Shows p (some c) t) : t.get? (sourcePlace p) = some .directory :=
  hshows [Manifest.sourceDirectory]

theorem Shows.source (hshows : Shows p (some c) t) (id : Snippet.Id) :
    t.get? (id.sourcePlace p) =
      (c.text? id.sourceFile).map fun text => .file text.toUTF8 false := by
  unfold Snippet.Id.sourcePlace sourcePlace
  rw [List.append_assoc, hshows]
  rfl

/-- A new workspace has no sources. -/
theorem shows_built (hp : p ≠ []) (hfree : ∀ q, p <+: q → t.get? q = none) :
    Shows p (some ⟨solc, []⟩) (built p solc t) := by
  intro rest
  match rest with
  | [] =>
    rw [List.append_nil]
    exact get?_built_root t hp
  | [name] =>
    by_cases hmanifest : name = Manifest.fileName
    · subst hmanifest
      exact get?_built_manifest p t
    · by_cases hsources : name = Manifest.sourceDirectory
      · subst hsources
        exact get?_built_sources p t
      · rw [get?_built_of_ne t (below_append p _ _).2
          (fun heq => hmanifest (List.singleton_inj.1 (List.append_cancel_left heq)))
          (fun heq => hsources (List.singleton_inj.1 (List.append_cancel_left heq))),
          hfree _ (List.prefix_append p _)]
        simp [Store.image?, Contents.image?, hmanifest, hsources]
  | first :: second :: more =>
    have hlong : ∀ name : String, p ++ first :: second :: more ≠ p ++ [name] := fun name heq => by
      simpa using List.append_cancel_left heq
    rw [get?_built_of_ne t (below_append p _ _).2 (hlong _) (hlong _),
      hfree _ (List.prefix_append p _)]
    cases more with
    | nil => exact (ite_self none).symm
    | cons => rfl

/-- The source of a snippet is added, or takes the place of an earlier one. -/
theorem Shows.put_source (hshows : Shows p (some c) t) (id : Snippet.Id) (text : String) :
    Shows p (some (c.insert id text)) (t.put (id.sourcePlace p) (.file text.toUTF8 false)) := by
  have hplace : id.sourcePlace p = p ++ [Manifest.sourceDirectory, id.sourceFile] := by
    unfold Snippet.Id.sourcePlace sourcePlace
    rw [List.append_assoc]
    rfl
  intro rest
  change _ = (c.insert id text).image? rest
  rw [Contents.image?_insert, hplace]
  by_cases hrest : rest = [Manifest.sourceDirectory, id.sourceFile]
  · rw [if_pos hrest, hrest]
    exact get?_put_self t _ (below_ne_nil (below_append p _ _))
  · rw [if_neg hrest, get?_put_of_ne t _ fun heq => hrest (List.append_cancel_left heq)]
    exact hshows rest

/-! ## Through paths -/

/-- A workspace is known by its manifest. -/
theorem Shows.generated (hshows : Shows p (some c) t) (hleads : Leads t h.current w.root m p)
    (hmanifest : pathFault? w.manifestPath = none) : w.Generated h t :=
  (generated_iff_known hleads hmanifest hshows.manifest).2
    (Manifest.known_toUTF8.2 (Manifest.isGenerated_render c.solc))

/-- Nothing is known where nothing is. -/
theorem not_generated_of_free (hroot : Names t h.current w.root m d name)
    (hfree : t.get? (d ++ [name]) = none) : ¬ w.Generated h t := by
  rintro ⟨text, htext, -⟩
  obtain ⟨q, content, executable, hentry, -⟩ := entryAt_of_textAt htext
  obtain ⟨m', p, hleads, -⟩ := leads_of_resolve hroot.ne_empty
    (List.forall_mem_singleton.2 named_manifest.simple) (List.cons_ne_nil _ _)
    (resolve_of_entryAt hentry)
  exact kind_of_leads hleads (hroot.kind_free hfree)

/-- What is at the source file of a snippet. -/
theorem resolve_source {id : Snippet.Id} (hleads : Leads t h.current w.root m p)
    (hsources : t.get? (sourcePlace p) = some .directory) (hid : Named id.sourceFile)
    (hroom : pathFault? (w.sourcePath id) = none) (follow : Bool) :
    t.resolve h.current follow (w.sourcePath id) =
      t.walk follow m (sourcePlace p) [id.sourceFile] := by
  have hempty : w.root ≠ "" := (pathFault?_eq_none_iff.1 hleads.fault).2.1
  have hnames : ∀ name ∈ [Manifest.sourceDirectory, id.sourceFile], Path.Simple name :=
    List.forall_mem_cons.2 ⟨named_sources.simple, List.forall_mem_singleton.2 hid.simple⟩
  rw [sourcePath_eq] at hroom ⊢
  rw [resolve_of_leads hempty hnames (List.cons_ne_nil _ _) hroom hleads,
    walk_down named_sources.plain hsources]
  rfl

/-- The text of a snippet is written to its source file. -/
theorem Shows.stage (hshows : Shows p (some c) t) (hleads : Leads t h.current w.root m p)
    (hroom : w.HasRoom) (s : Snippet) :
    (w.stage s).run h t =
      (.ok (w.sourcePath s.id), t.put (s.id.sourcePlace p) (.file s.text.toUTF8 false)) := by
  have hnamed : Named s.id.sourceFile := Snippet.Id.named_sourceFile s.text
  have hresolve := resolve_source hleads hshows.sources hnamed (hroom s.text) true
  have hslash : endsInSlash (w.sourcePath s.id) = false := Path.endsInSlash_join hnamed.simple
  have hwrite : t.write h.current (w.sourcePath s.id) s.text.toUTF8 =
      .ok (t.put (s.id.sourcePlace p) (.file s.text.toUTF8 false)) := by
    have hold := hshows.source s.id
    cases htext : c.text? s.id.sourceFile with
    | none =>
      rw [htext] at hold
      exact write_new hslash (hresolve.trans (walk_free hnamed.plain hshows.sources hold))
    | some old =>
      rw [htext] at hold
      exact write_old hslash (hresolve.trans (walk_file hnamed.plain hold))
  unfold Workspace.stage
  rw [Plan.run_bind, Plan.run_writeText, hwrite]
  rfl

/-- Where nothing is, no text is written. -/
theorem stage_free (hroot : Names t h.current w.root m d name)
    (hfree : t.get? (d ++ [name]) = none) (hroom : w.HasRoom) (s : Snippet) :
    (w.stage s).run h t =
      (.error (.workspace (w.sourcePath s.id) Fault.notFound.text), t) := by
  have hresolve : t.resolve h.current true (w.sourcePath s.id) = .error .notFound := by
    have hfault := hroom s.text
    rw [sourcePath_eq] at hfault ⊢
    exact hroot.resolve_join_free hfree
      (fun name hname => (named_sourcePath s.text name hname).simple) (List.cons_ne_nil _ _) hfault true
  have hslash : endsInSlash (w.sourcePath s.id) = false :=
    Path.endsInSlash_join (Snippet.Id.named_sourceFile s.text).simple
  unfold Workspace.stage
  rw [Plan.run_bind, Plan.run_writeText, write_of_error hslash hresolve]
  rfl

end Workspace

end EmbeddedSolidity
