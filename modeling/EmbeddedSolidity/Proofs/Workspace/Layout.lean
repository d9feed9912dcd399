import EmbeddedSolidity.Proofs.FileSystem.Path
import EmbeddedSolidity.Proofs.Snippet.Name
import EmbeddedSolidity.Workspace.Layout

/-!
# Names and places in a workspace

The manifest, the directories and the files of each snippet have plain names without a slash, so
what is at their paths is found by walking on from the root of the workspace.

* `Snippet.Id.named_sourceFile`, `Snippet.Id.named_artifactFile` : the files of a snippet;
* `Workspace.sourcePlace`, `Snippet.Id.sourcePlace`, `Snippet.Id.artifactPlace` : where they are.
-/

namespace EmbeddedSolidity

open FileSystem FileSystem.FileTree

/-- A short name that stands for itself, of one entry. -/
structure Workspace.Named (name : String) : Prop where
  simple : Path.Simple name
  plain : Plain name
  noNul : '\x00' ∉ name.toList
  short : name.utf8ByteSize ≤ 48

namespace Snippet.Id

/-- The tag of a snippet, its digits and a short extension make the name of a file. -/
theorem named_file (text : String) {extension : String}
    (hchars : ∀ c ∈ extension.toList, c ∉ ['/', '\x00']) (hsize : extension.utf8ByteSize ≤ 5) :
    Workspace.Named ((ofText text).name ++ extension) := by
  have hlist : ((ofText text).name ++ extension).toList =
      'S' :: ("olSnippet_".toList ++ (digits text ++ extension.toList)) := by
    simp only [ofText, tag, String.toList_append, String.toList_ofList, List.append_assoc]
    rfl
  have hbytes : ((ofText text).name ++ extension).utf8ByteSize = 19 + extension.utf8ByteSize := by
    have hdigits : (String.ofList (digits text)).utf8ByteSize = 8 := Digest.utf8ByteSize_hexOfWord _
    rw [String.utf8ByteSize_append]
    simp only [ofText, String.utf8ByteSize_append, hdigits]
    rfl
  have hall : ∀ c ∈ ((ofText text).name ++ extension).toList, c ∉ ['/', '\x00'] := by
    intro c hc
    rw [String.toList_append, List.mem_append] at hc
    rcases hc with hc | hc
    · have hbad : ∀ c ∈ ['/', '\x00'], ¬ (c.isAlphanum = true ∨ c = '_') := by simp
      exact fun hc' => hbad c hc' ((wellFormed_ofText text).isAlphanum_of_mem hc)
    · exact hchars c hc
  have hne : ∀ s : String, s.toList.head? ≠ some 'S' → (ofText text).name ++ extension ≠ s := by
    rintro _ hs rfl
    rw [hlist] at hs
    exact hs rfl
  have hnotEmpty := hne "" (by decide)
  refine ⟨⟨hnotEmpty, fun hc => hall _ hc (by decide)⟩,
    ⟨hnotEmpty, hne _ (by decide), hne _ (by decide), ?_⟩, fun hc => hall _ hc (by decide), by omega⟩
  unfold maxName
  omega

theorem named_sourceFile (text : String) : Workspace.Named (ofText text).sourceFile :=
  named_file text (by simp) (by decide)

theorem named_artifactFile (text : String) : Workspace.Named (ofText text).artifactFile :=
  named_file text (by simp) (by decide)

end Snippet.Id

namespace Workspace

theorem named_manifest : Named Manifest.fileName := by
  constructor <;> decide

theorem named_sources : Named Manifest.sourceDirectory := by
  constructor <;> decide

theorem named_artifacts : Named Manifest.outputDirectory := by
  constructor <;> decide

/-- The names of the source file of a snippet. -/
theorem named_sourcePath (text : String) : ∀ name ∈ [Manifest.sourceDirectory,
    (Snippet.Id.ofText text).sourceFile], Named name :=
  List.forall_mem_cons.2 ⟨named_sources,
    List.forall_mem_singleton.2 (Snippet.Id.named_sourceFile text)⟩

/-- The names of the artifact of a snippet. -/
theorem named_artifactPath (text : String) : ∀ name ∈ [Manifest.outputDirectory,
    (Snippet.Id.ofText text).sourceFile, (Snippet.Id.ofText text).artifactFile], Named name :=
  List.forall_mem_cons.2 ⟨named_artifacts, List.forall_mem_cons.2
    ⟨Snippet.Id.named_sourceFile text,
      List.forall_mem_singleton.2 (Snippet.Id.named_artifactFile text)⟩⟩

/-- A path with room for names has no fault with them. -/
theorem pathFault?_foldl_named {base : String} {names : List String}
    (hnames : ∀ name ∈ names, Named name) (hbase : pathFault? base = none)
    (hroom : base.utf8ByteSize + 49 * names.length < maxPath) :
    pathFault? (names.foldl Path.join base) = none := by
  induction names generalizing base with
  | nil => exact hbase
  | cons name names ih =>
    rw [List.forall_mem_cons] at hnames
    rw [List.length_cons] at hroom
    obtain ⟨hjoined, hsize⟩ := pathFault?_join_of_room hnames.1.simple hnames.1.noNul hbase
      (Nat.lt_of_le_of_lt (Nat.add_le_add_left (Nat.add_le_add_left hnames.1.short 1) _)
        (by omega))
    exact ih hnames.2 hjoined (by have := hnames.1.short; omega)

/-! ## Places -/

/-- Where the manifest of the workspace in the directory `p` is. -/
def manifestPlace (p : Place) : Place :=
  p ++ [Manifest.fileName]

/-- Where the sources of the workspace in the directory `p` are. -/
def sourcePlace (p : Place) : Place :=
  p ++ [Manifest.sourceDirectory]

theorem below_manifestPlace (p : Place) : Below p (manifestPlace p) :=
  below_append p _ []

theorem below_sourcePlace (p : Place) : Below p (sourcePlace p) :=
  below_append p _ []

theorem manifestPlace_ne_sourcePlace (p : Place) : manifestPlace p ≠ sourcePlace p := fun heq =>
  absurd (List.singleton_inj.1 (List.append_cancel_left heq)) (by decide)

end Workspace

namespace Snippet.Id

/-- Where the source of a snippet is. -/
def sourcePlace (id : Id) (p : Place) : Place :=
  Workspace.sourcePlace p ++ [id.sourceFile]

/-- Where the artifact of a snippet is. -/
def artifactPlace (id : Id) (p : Place) : Place :=
  p ++ [Manifest.outputDirectory, id.sourceFile, id.artifactFile]

theorem sourceFile_inj {id id' : Id} (heq : id.sourceFile = id'.sourceFile) : id = id' := by
  obtain ⟨name⟩ := id
  obtain ⟨name'⟩ := id'
  have hlist := congrArg String.toList heq
  simp only [sourceFile, String.toList_append] at hlist
  obtain rfl : name = name' := String.toList_inj.1 (List.append_cancel_right hlist)
  rfl

theorem below_sourcePlace (id : Id) (p : Place) : Below p (id.sourcePlace p) := by
  unfold sourcePlace Workspace.sourcePlace
  rw [List.append_assoc]
  exact below_append p _ _

end Snippet.Id

namespace Workspace

/-! ## Short paths -/

theorem sourcePath_eq (w : Workspace) (id : Snippet.Id) :
    w.sourcePath id = [Manifest.sourceDirectory, id.sourceFile].foldl Path.join w.root :=
  rfl

theorem artifactPath_eq (w : Workspace) (id : Snippet.Id) :
    w.artifactPath id =
      [Manifest.outputDirectory, id.sourceFile, id.artifactFile].foldl Path.join w.root :=
  rfl

/-- The paths of all sources are short enough to be resolved. -/
def HasRoom (w : Workspace) : Prop :=
  ∀ text, pathFault? (w.sourcePath (.ofText text)) = none

/-- A workspace with a short path has room. -/
theorem hasRoom_of_short {w : Workspace} (hroot : pathFault? w.root = none)
    (hshort : w.root.utf8ByteSize + 98 < maxPath) : w.HasRoom := fun text => by
  rw [sourcePath_eq]
  exact pathFault?_foldl_named (named_sourcePath text) hroot hshort

theorem HasRoom.root {w : Workspace} (h : w.HasRoom) (hroot : w.root ≠ "") :
    pathFault? w.root = none :=
  Path.pathFault?_foldl_join hroot (fun name hname => (named_sourcePath "" name hname).simple) (h "")

/-- The manifest has a shorter path than the sources. -/
theorem HasRoom.manifest {w : Workspace} (h : w.HasRoom) (hroot : w.root ≠ "") :
    pathFault? w.manifestPath = none := by
  obtain ⟨hnul, -, -⟩ := pathFault?_eq_none_iff.1 (h.root hroot)
  have hshort := (pathFault?_eq_none_iff.1 (h "")).2.2
  have hfile : 11 ≤ (Snippet.Id.ofText "").sourceFile.utf8ByteSize := by
    unfold Snippet.Id.sourceFile Snippet.Id.ofText
    rw [String.utf8ByteSize_append, String.utf8ByteSize_append]
    exact Nat.le_trans (Nat.le_add_right 11 _) (Nat.le_add_right _ _)
  have hsources := Path.utf8ByteSize_join hroot named_sources.simple
  have hsource : (w.sourcePath (.ofText "")).utf8ByteSize = _ := Path.utf8ByteSize_join
    (Path.join_ne_empty named_sources.simple) (Snippet.Id.named_sourceFile "").simple
  have hmanifest := Path.utf8ByteSize_join hroot named_manifest.simple
  have hslash : w.sourceDirectory.toList.getLast? ≠ some '/' := by
    have hend : endsInSlash w.sourceDirectory = false := Path.endsInSlash_join named_sources.simple
    unfold endsInSlash at hend
    simpa using hend
  have hsizes : Manifest.fileName.utf8ByteSize = 12 ∧ Manifest.sourceDirectory.utf8ByteSize = 3 := by
    decide
  have hfault := pathFault?_foldl_join_eq hroot hnul
    (List.forall_mem_singleton.2 named_manifest.simple)
    (List.forall_mem_singleton.2 named_manifest.noNul)
  rw [if_neg (by simpa using hslash)] at hsource
  refine hfault.trans (if_neg ?_)
  change ¬ maxPath ≤ (Path.join w.root Manifest.fileName).utf8ByteSize
  unfold sourceDirectory at hsource
  omega

/-- The directory of the sources has a shorter path than the manifest. -/
theorem pathFault?_sourceDirectory {w : Workspace} (hroot : w.root ≠ "")
    (hmanifest : pathFault? w.manifestPath = none) : pathFault? w.sourceDirectory = none := by
  have hfault := pathFault?_of_join hroot named_manifest.simple hmanifest
  obtain ⟨hnul, -, -⟩ := pathFault?_eq_none_iff.1 hfault
  have hshort := (pathFault?_eq_none_iff.1 hmanifest).2.2
  have hsources := Path.utf8ByteSize_join hroot named_sources.simple
  have hfile := Path.utf8ByteSize_join hroot named_manifest.simple
  have hsizes : Manifest.fileName.utf8ByteSize = 12 ∧ Manifest.sourceDirectory.utf8ByteSize = 3 := by
    decide
  refine (pathFault?_foldl_join_eq hroot hnul (List.forall_mem_singleton.2 named_sources.simple)
    (List.forall_mem_singleton.2 named_sources.noNul)).trans (if_neg ?_)
  change ¬ maxPath ≤ (Path.join w.root Manifest.sourceDirectory).utf8ByteSize
  unfold manifestPath at hshort
  omega

end Workspace

end EmbeddedSolidity
