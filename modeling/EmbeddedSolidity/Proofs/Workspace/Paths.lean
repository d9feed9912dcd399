import EmbeddedSolidity.Proofs.FileSystem.Ancestors
import EmbeddedSolidity.Proofs.Workspace.Layout
import Mathlib.Order.Comparable

/-!
# Paths in a workspace

The paths of a workspace go down from its root by names that are fixed or contain the name of a snippet.
Two of them part at the first name in which they differ. If neither name is a beginning of the other,
as texts, neither path is a beginning of the other, whatever follows and whatever root is above. Names
of snippets are all equally long, so they are such names if they are different at all.

* `Path.descends_foldl_join` : a path that is joined from a base and names is below the base;
* `Path.Descends.unrelated` : paths that part;
* `Workspace.pairwise_unrelated_iff` : which paths of two texts have nothing to do with each other;
* `Workspace.paths_partitioned` : names and paths together.
-/

namespace EmbeddedSolidity

open FileSystem.FileTree

namespace Path

/-! ## Lists that part -/

section Part

variable {α : Type*} {l l' : List α}

theorem incompRel_of_length (hlength : l.length = l'.length) (hne : l ≠ l') :
    IncompRel List.IsPrefix l l' :=
  ⟨fun h => hne (h.eq_of_length hlength), fun h => hne (h.eq_of_length hlength.symm).symm⟩

/-- Lists that part stay apart whatever follows. -/
theorem incompRel_append (h : IncompRel List.IsPrefix l l') (r r' : List α) :
    IncompRel List.IsPrefix (l ++ r) (l' ++ r') := by
  have hboth : ∀ {whole}, l <+: whole → l' <+: whole → False := fun hl hl' =>
    (List.prefix_or_prefix_of_prefix hl hl').elim h.1 h.2
  exact ⟨fun hp => hboth ((List.prefix_append l r).trans hp) (List.prefix_append l' r'),
    fun hp => hboth (List.prefix_append l r) ((List.prefix_append l' r').trans hp)⟩

theorem incompRel_append_left (front : List α) (h : IncompRel List.IsPrefix l l') :
    IncompRel List.IsPrefix (front ++ l) (front ++ l') :=
  ⟨mt (List.prefix_append_right_inj front).1 h.1, mt (List.prefix_append_right_inj front).1 h.2⟩

end Part

/-- What is written from names that part is a text that parts. -/
theorem incompRel_intercalate {x y : String} (h : IncompRel List.IsPrefix x.toList y.toList)
    (front rest rest' : List String) :
    IncompRel List.IsPrefix ("/".intercalate (front ++ x :: rest)).toList
      ("/".intercalate (front ++ y :: rest')).toList := by
  have hfirst : ∀ (z : String) (rest : List String), ∃ more,
      ("/".intercalate (z :: rest)).toList = z.toList ++ more := by
    intro z rest
    cases rest with
    | nil => exact ⟨[], by rw [String.intercalate_singleton, List.append_nil]⟩
    | cons next rest =>
      rw [String.intercalate_cons_cons, String.append_assoc, String.toList_append]
      exact ⟨_, rfl⟩
  -- What stands in front is written in the same way, so only the first names that differ matter.
  induction front with
  | nil =>
    obtain ⟨more, hx⟩ := hfirst x rest
    obtain ⟨more', hy⟩ := hfirst y rest'
    rw [List.nil_append, List.nil_append, hx, hy]
    exact incompRel_append h more more'
  | cons z front ih =>
    have hne : ∀ (x : String) (rest : List String), front ++ x :: rest ≠ [] := by simp
    rw [List.cons_append, List.cons_append, String.intercalate_cons_of_ne_nil (hne x rest),
      String.intercalate_cons_of_ne_nil (hne y rest')]
    simp only [String.toList_append]
    exact incompRel_append_left _ ih

/-! ## Paths that go down -/

section Descends

variable {base path path' : String} {names : List String}

/-- The path is strictly below the base, by these names and no others: it is the base, a slash unless
there is one, and the names with slashes between them, and it has the components of the base and one
more for each name. No name is a dot or two dots, or more than one name. -/
structure Descends (base : String) (names : List String) (path : String) : Prop where
  ne_nil : names ≠ []
  plain : ∀ name ∈ names, Simple name ∧ Plain name
  text : path = base ++ joint base ++ "/".intercalate names
  components : components path = components base ++ names.map .named

theorem descends_foldl_join (hne : names ≠ []) (h : ∀ name ∈ names, Simple name ∧ Plain name) :
    Descends base names (names.foldl join base) :=
  ⟨hne, h, foldl_join_eq hne fun name hname => (h name hname).1, components_foldl_join h⟩

/-- Neither path is a beginning of the other, neither as texts nor by components. -/
structure Unrelated (path path' : String) : Prop where
  text : IncompRel List.IsPrefix path.toList path'.toList
  components : IncompRel List.IsPrefix (components path) (components path')

theorem Unrelated.symm (h : Unrelated path path') : Unrelated path' path :=
  ⟨h.text.symm, h.components.symm⟩

theorem not_unrelated_self (path : String) : ¬ Unrelated path path := fun h =>
  h.text.1 (List.prefix_refl _)

/-- Paths below a base are unrelated if they part at names of which neither begins the other. -/
theorem Descends.unrelated (front : List String) {x y : String} {rest rest' : List String}
    (h : Descends base (front ++ x :: rest) path) (h' : Descends base (front ++ y :: rest') path')
    (hxy : IncompRel List.IsPrefix x.toList y.toList) : Unrelated path path' where
  text := by
    rw [h.text, h'.text]
    simp only [String.toList_append]
    exact incompRel_append_left _ (incompRel_intercalate hxy front rest rest')
  components := by
    have hne : x ≠ y := fun heq => hxy.1 (heq ▸ List.prefix_refl _)
    have hparts : IncompRel List.IsPrefix [Component.named x] [Component.named y] :=
      incompRel_of_length rfl (by simpa using hne)
    rw [h.components, h'.components, List.map_append, List.map_append, List.map_cons, List.map_cons]
    exact incompRel_append_left _ (incompRel_append_left _ (incompRel_append hparts _ _))

end Descends

end Path

namespace Snippet.Id

/-- Files of different snippets have names of which neither begins the other. -/
theorem incompRel_sourceFile {t u : String} (h : ofText t ≠ ofText u) :
    IncompRel List.IsPrefix (ofText t).sourceFile.toList (ofText u).sourceFile.toList := by
  refine Path.incompRel_of_length ?_ fun heq => h (sourceFile_inj (String.toList_inj.1 heq))
  unfold sourceFile
  rw [String.toList_append, String.toList_append, List.length_append, List.length_append,
    (wellFormed_ofText t).length_name, (wellFormed_ofText u).length_name]

end Snippet.Id

namespace Workspace

open Snippet

/-! ## The paths of a workspace -/

section Paths

variable (w : Workspace) (t u : String)

theorem descends_manifestPath : Path.Descends w.root ["foundry.toml"] w.manifestPath :=
  Path.descends_foldl_join (List.cons_ne_nil _ _)
    (List.forall_mem_singleton.2 ⟨named_manifest.simple, named_manifest.plain⟩)

example : ["", "/", "a/", "a/.."].map (fun root => (Workspace.mk root).manifestPath) =
    ["foundry.toml", "/foundry.toml", "a/foundry.toml", "a/../foundry.toml"] := by decide

theorem descends_sourcePath :
    Path.Descends w.root ["src", (Id.ofText t).sourceFile] (w.sourcePath (.ofText t)) := by
  rw [sourcePath_eq]
  exact Path.descends_foldl_join (List.cons_ne_nil _ _) fun name hname =>
    ⟨(named_sourcePath t name hname).simple, (named_sourcePath t name hname).plain⟩

theorem descends_artifactPath :
    Path.Descends w.root ["dist", (Id.ofText t).sourceFile, (Id.ofText t).artifactFile]
      (w.artifactPath (.ofText t)) := by
  rw [artifactPath_eq]
  exact Path.descends_foldl_join (List.cons_ne_nil _ _) fun name hname =>
    ⟨(named_artifactPath t name hname).simple, (named_artifactPath t name hname).plain⟩

/-- Sources, artifacts and the manifest are apart, also those of one snippet. -/
theorem unrelated_source_artifact :
    Path.Unrelated (w.sourcePath (.ofText t)) (w.artifactPath (.ofText u)) :=
  (w.descends_sourcePath t).unrelated [] (w.descends_artifactPath u) (by decide)

theorem unrelated_source_manifest : Path.Unrelated (w.sourcePath (.ofText t)) w.manifestPath :=
  (w.descends_sourcePath t).unrelated [] w.descends_manifestPath (by decide)

theorem unrelated_artifact_manifest : Path.Unrelated (w.artifactPath (.ofText t)) w.manifestPath :=
  (w.descends_artifactPath t).unrelated [] w.descends_manifestPath (by decide)

variable {t u}

theorem unrelated_sources (h : Id.ofText t ≠ Id.ofText u) :
    Path.Unrelated (w.sourcePath (.ofText t)) (w.sourcePath (.ofText u)) :=
  (w.descends_sourcePath t).unrelated ["src"] (w.descends_sourcePath u)
    (Id.incompRel_sourceFile h)

theorem unrelated_artifacts (h : Id.ofText t ≠ Id.ofText u) :
    Path.Unrelated (w.artifactPath (.ofText t)) (w.artifactPath (.ofText u)) :=
  (w.descends_artifactPath t).unrelated ["dist"] (w.descends_artifactPath u)
    (Id.incompRel_sourceFile h)

end Paths

/-- The paths of two texts in a workspace, and that of its manifest. -/
def pathsOf (w : Workspace) (t u : String) : List String :=
  [w.sourcePath (.ofText t), w.artifactPath (.ofText t), w.sourcePath (.ofText u),
    w.artifactPath (.ofText u), w.manifestPath]

/-- Two texts share paths if they share a name, and else none of their paths begins another. -/
theorem pairwise_unrelated_iff (w : Workspace) (t u : String) :
    (w.pathsOf t u).Pairwise Path.Unrelated ↔ Id.ofText t ≠ Id.ofText u := by
  constructor
  · intro h heq
    have hsources : Path.Unrelated (w.sourcePath (.ofText t)) (w.sourcePath (.ofText u)) :=
      List.rel_of_pairwise_cons h (List.mem_cons_of_mem _ List.mem_cons_self)
    rw [heq] at hsources
    exact Path.not_unrelated_self _ hsources
  · intro h
    unfold pathsOf
    simp only [List.pairwise_cons, List.forall_mem_cons, List.not_mem_nil, false_implies,
      implies_true, and_true, List.Pairwise.nil]
    exact ⟨⟨w.unrelated_source_artifact t t, w.unrelated_sources h, w.unrelated_source_artifact t u,
        w.unrelated_source_manifest t⟩,
      ⟨(w.unrelated_source_artifact u t).symm, w.unrelated_artifacts h,
        w.unrelated_artifact_manifest t⟩,
      ⟨w.unrelated_source_artifact u u, w.unrelated_source_manifest u⟩,
      w.unrelated_artifact_manifest u⟩

/-- The name of a text can be cut from the digest and is the tag with eight hexadecimal digits. Under
every root, the source and the artifact of a text are strictly below the root, by names that are fixed
or made from the name of the text. The paths of two texts and of the manifest are different, and none
begins another, if and only if the names of the texts differ. -/
theorem paths_partitioned (w : Workspace) (t u : String) :
    (Id.identify? t = some (.ofText t) ∧ (Id.ofText t).WellFormed) ∧
      Path.Descends w.root ["src", (Id.ofText t).name ++ ".sol"] (w.sourcePath (.ofText t)) ∧
      Path.Descends w.root ["dist", (Id.ofText t).name ++ ".sol", (Id.ofText t).name ++ ".json"]
        (w.artifactPath (.ofText t)) ∧
      Path.Descends w.root ["foundry.toml"] w.manifestPath ∧
      ((w.pathsOf t u).Pairwise Path.Unrelated ↔ Id.ofText t ≠ Id.ofText u) :=
  ⟨⟨Id.identify?_eq t, Id.wellFormed_ofText t⟩, w.descends_sourcePath t, w.descends_artifactPath t,
    w.descends_manifestPath, w.pairwise_unrelated_iff t u⟩

end Workspace

end EmbeddedSolidity
