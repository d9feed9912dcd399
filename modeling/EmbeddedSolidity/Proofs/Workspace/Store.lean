import EmbeddedSolidity.Proofs.Workspace.Contents
import EmbeddedSolidity.Proofs.Workspace.Refusal

/-!
# Workspaces as a store

Whoever makes a workspace, writes snippets to it, asks whether it is known and removes it sees a
store that is absent, or holds a version and the texts of snippets. The tree at the root is at any
time the image of the store, and nothing else changes.

* `Workspace.Request`, `Workspace.Store.after`, `Workspace.Store.reply` : the store;
* `Workspace.Stores` : the trees that a store stands for, and how its root is found;
* `Workspace.Stores.serve` : one request;
* `Workspace.serveAll_eq_replies` : every sequence of requests.
-/

namespace EmbeddedSolidity.Workspace

open FileSystem FileSystem.FileTree

/-- What is asked of a workspace. -/
inductive Request where
  /-- Make the workspace for a version of the language. -/
  | create (solc : String)
  /-- Write a snippet. -/
  | stage (s : Snippet)
  /-- Whether the workspace is known. -/
  | known
  /-- Remove the workspace. -/
  | destroy

/-- The reply to a request. -/
inductive Reply where
  | created (r : Except Error Workspace)
  | staged (r : Except Error String)
  | known (generated : Bool)
  | destroyed (r : Except Error Unit)

/-- What a request asks for, at the root of a configuration. -/
def Request.serve (c : Config) : Request → Plan Reply
  | .create solc => return .created (← Workspace.create { c with solc })
  | .stage s => return .staged (← Workspace.stage ⟨c.root⟩ s)
  | .known => return .known (← hasGeneratedManifest ⟨c.root⟩)
  | .destroy => return .destroyed (← Workspace.destroy ⟨c.root⟩)

/-- Requests one after the other. -/
def serveAll (c : Config) : List Request → Plan (List Reply)
  | [] => return []
  | r :: rs => do
    let reply ← r.serve c
    return reply :: (← serveAll c rs)

namespace Store

/-- The store after a request. -/
def after (s : Store) : Request → Store
  | .create solc => some ⟨solc, []⟩
  | .stage snippet => s.map (·.insert snippet.id snippet.text)
  | .known => s
  | .destroy => none

/-- The reply of a store to a request, in the name of a workspace. A text is written only if there is
a workspace. -/
def reply (w : Workspace) (s : Store) : Request → Reply
  | .create _ => .created (.ok w)
  | .stage snippet => .staged <|
    if s.isSome then .ok (w.sourcePath snippet.id)
    else .error (.workspace (w.sourcePath snippet.id) Fault.notFound.text)
  | .known => .known s.isSome
  | .destroy => .destroyed (.ok ())

/-- The store after requests. -/
def afterAll (s : Store) (rs : List Request) : Store :=
  rs.foldl after s

/-- The replies of a store to requests. -/
def replies (w : Workspace) : Store → List Request → List Reply
  | _, [] => []
  | s, r :: rs => s.reply w r :: replies w (s.after r) rs

end Store

/-- The root denotes the place of `name` in `d`, where the tree shows the store. -/
structure Stores (h : Host) (root : String) (m : Nat) (d : Place) (name : String) (s : Store)
    (t : FileTree) : Prop where
  denotes : Denotes t h.current root m d name
  shows : Shows (d ++ [name]) s t

variable {h : Host} {c : Config} {s : Store} {t t' : FileTree} {m : Nat} {d : Place} {name : String}

/-- Only the place of the root matters. -/
theorem Stores.of_sameApart {s' : Store} (hs : Stores h c.root m d name s t)
    (hsame : SameApart (d ++ [name]) t t') (hshows : Shows (d ++ [name]) s' t') :
    Stores h c.root m d name s' t' :=
  ⟨hs.denotes.congr hsame, hshows⟩

theorem Stores.leads {k : Contents} (hs : Stores h c.root m d name (some k) t) :
    Leads t h.current c.root m (d ++ [name]) :=
  hs.denotes.names.leads hs.shows.root

/-- A workspace is made whatever the store was. -/
theorem Stores.create (hs : Stores h c.root m d name s t)
    (hmanifest : pathFault? (manifestPath ⟨c.root⟩) = none) :
    ∃ t', (Workspace.create c).run h t = (.ok ⟨c.root⟩, t') ∧
      Shows (d ++ [name]) (some ⟨c.solc, []⟩) t' ∧ SameApart (d ++ [name]) t t' := by
  have hne := concat_ne_nil d name
  have hnames := hs.denotes.names
  cases s with
  | none =>
    have hfree := shows_none_iff.1 hs.shows
    have hclear : (clear c).run h t = (.ok (), t) := by
      unfold clear
      split
      · exact removeExisting_free (w := ⟨c.root⟩) hnames hs.shows.root
      · exact removePrevious_free hnames hs.shows.root
    exact ⟨_, create_of_clear hclear hnames hfree hmanifest, shows_built hne hfree,
      sameApart_built _ _ _⟩
  | some k =>
    have hfree := shows_none_iff.1 (shows_none_eraseAll (t := t) hne)
    exact ⟨_, create_directory hs.denotes hs.shows.root
      (fun _ => Or.inr (hs.shows.generated hs.leads hmanifest)) hmanifest, shows_built hne hfree,
      (sameApart_eraseAll _ t).trans (sameApart_built _ _ _)⟩

/-- A text is written if there is a workspace. -/
theorem Stores.stage (hs : Stores h c.root m d name s t) (hroom : HasRoom ⟨c.root⟩)
    (snippet : Snippet) :
    ∃ t', (Workspace.stage ⟨c.root⟩ snippet).run h t =
        (if s.isSome then .ok (sourcePath ⟨c.root⟩ snippet.id)
          else .error (.workspace (sourcePath ⟨c.root⟩ snippet.id) Fault.notFound.text), t') ∧
      Shows (d ++ [name]) (s.after (.stage snippet)) t' ∧ SameApart (d ++ [name]) t t' := by
  cases s with
  | none =>
    exact ⟨t, stage_free hs.denotes.names hs.shows.root hroom snippet, hs.shows, .refl _ t⟩
  | some k =>
    exact ⟨_, hs.shows.stage hs.leads hroom snippet, hs.shows.put_source _ _,
      sameApart_put (snippet.id.below_sourcePlace _).1 _⟩

/-- A workspace is known exactly if there is one. -/
theorem Stores.known (hs : Stores h c.root m d name s t)
    (hmanifest : pathFault? (manifestPath ⟨c.root⟩) = none) :
    (hasGeneratedManifest ⟨c.root⟩).run h t = (s.isSome, t) := by
  obtain ⟨known, hrun, hknown⟩ := run_hasGeneratedManifest h ⟨c.root⟩ t
  rw [hrun]
  cases s with
  | none =>
    have hnot := not_generated_of_free (w := ⟨c.root⟩) hs.denotes.names hs.shows.root
    rw [Bool.eq_false_iff.2 fun htrue => hnot (hknown.1 htrue)]
    rfl
  | some k =>
    rw [hknown.2 (hs.shows.generated hs.leads hmanifest)]
    rfl

/-- Nothing is left of a workspace that is removed. -/
theorem Stores.destroy (hs : Stores h c.root m d name s t) :
    ∃ t', (Workspace.destroy ⟨c.root⟩).run h t = (.ok (), t') ∧ Shows (d ++ [name]) none t' ∧
      SameApart (d ++ [name]) t t' := by
  cases s with
  | none => exact ⟨t, destroy_free hs.denotes.names hs.shows.root, hs.shows, .refl _ t⟩
  | some k =>
    exact ⟨_, destroy_directory hs.denotes hs.shows.root, shows_none_eraseAll (concat_ne_nil d name),
      sameApart_eraseAll _ t⟩

/-- One request is served as the store replies to it. -/
theorem Stores.serve (hs : Stores h c.root m d name s t) (hroom : HasRoom ⟨c.root⟩) (r : Request) :
    ∃ t', (r.serve c).run h t = (s.reply ⟨c.root⟩ r, t') ∧
      Shows (d ++ [name]) (s.after r) t' ∧ SameApart (d ++ [name]) t t' := by
  have hmanifest := hroom.manifest hs.denotes.names.ne_empty
  cases r with
  | create solc =>
    obtain ⟨t', hrun, hafter⟩ := Stores.create (c := { c with solc }) hs hmanifest
    refine ⟨t', ?_, hafter⟩
    rw [Request.serve, Plan.run_bind, hrun]
    rfl
  | stage snippet =>
    obtain ⟨t', hrun, hafter⟩ := hs.stage hroom snippet
    refine ⟨t', ?_, hafter⟩
    rw [Request.serve, Plan.run_bind, hrun]
    rfl
  | known =>
    refine ⟨t, ?_, hs.shows, .refl _ t⟩
    rw [Request.serve, Plan.run_bind, hs.known hmanifest]
    rfl
  | destroy =>
    obtain ⟨t', hrun, hafter⟩ := hs.destroy
    refine ⟨t', ?_, hafter⟩
    rw [Request.serve, Plan.run_bind, hrun]
    rfl

/-- Requests are served as the store replies to them. -/
theorem Stores.serveAll (hs : Stores h c.root m d name s t) (hroom : HasRoom ⟨c.root⟩)
    (rs : List Request) :
    ∃ t', (Workspace.serveAll c rs).run h t = (s.replies ⟨c.root⟩ rs, t') ∧
      Shows (d ++ [name]) (s.afterAll rs) t' ∧ SameApart (d ++ [name]) t t' := by
  induction rs generalizing s t with
  | nil => exact ⟨t, rfl, hs.shows, .refl _ t⟩
  | cons r rs ih =>
    obtain ⟨between, hfirst, hshows, hsame⟩ := hs.serve hroom r
    obtain ⟨t', hrest, hshows', hsame'⟩ := ih (hs.of_sameApart hsame hshows)
    refine ⟨t', ?_, hshows', hsame.trans hsame'⟩
    rw [Workspace.serveAll, Plan.run_bind, hfirst, Plan.run_bind, hrest]
    rfl

/-- If at first nothing is at the root, then every sequence of requests is served as by a store that
is absent at first : with its replies, and with a tree that shows the store at the root and is as
before elsewhere. -/
theorem serveAll_eq_replies (hwf : t.WellFormed) (hroot : Names t h.current c.root m d name)
    (hfree : t.get? (d ++ [name]) = none) (hroom : HasRoom ⟨c.root⟩) (rs : List Request) :
    ∃ t', (serveAll c rs).run h t = (Store.replies ⟨c.root⟩ none rs, t') ∧
      Shows (d ++ [name]) (Store.afterAll none rs) t' ∧ SameApart (d ++ [name]) t t' :=
  Stores.serveAll ⟨hroot.denotes hwf hfree, shows_none_iff.2 (hwf.cut hfree).free⟩ hroom rs

/-! ## A root beside a file -/

/-- A directory with a file in it. -/
def noted : FileTree :=
  ⟨[(["d"], .directory), (["d", "notes.txt"], .file "keep me".toUTF8 false)]⟩

theorem wellFormed_noted : noted.WellFormed :=
  wellFormed_of_entries (by decide)

theorem names_noted : Names noted [] "d/w" maxLinks ["d"] "w" :=
  ⟨by decide +kernel, by decide, by decide, ["d"], by decide +kernel, .down (by decide) rfl (.nil _ _)⟩

/-- A snippet. -/
def emptyContract : Snippet :=
  ⟨"contract C {}", by decide⟩

/-- A text is written before there is a workspace, and then to one that is made anew and removed. -/
theorem serveAll_twice :
    ∃ t', (serveAll (chosen "d/w") [.stage emptyContract, .create "0.8.17", .stage emptyContract,
        .known, .create "0.8.20", .destroy]).run bare noted =
        ([.staged (.error (.workspace (sourcePath ⟨"d/w"⟩ emptyContract.id) Fault.notFound.text)),
          .created (.ok ⟨"d/w"⟩), .staged (.ok (sourcePath ⟨"d/w"⟩ emptyContract.id)), .known true,
          .created (.ok ⟨"d/w"⟩), .destroyed (.ok ())], t') ∧
      Shows ["d", "w"] none t' ∧ SameApart ["d", "w"] noted t' :=
  serveAll_eq_replies (h := bare) (c := chosen "d/w") wellFormed_noted names_noted (by decide)
    (hasRoom_of_short (by decide +kernel) (by decide +kernel)) _

end EmbeddedSolidity.Workspace
