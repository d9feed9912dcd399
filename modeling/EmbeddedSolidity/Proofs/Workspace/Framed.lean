import EmbeddedSolidity.Proofs.Compile.Rule
import EmbeddedSolidity.Proofs.Workspace.Settled

/-!
# Making a workspace beside other work

Whatever is at a root that denotes its place, clearing it, making a workspace there and removing it
again depend on what is at the root, and concern nothing else. Only the test for an earlier workspace
may look elsewhere, if a link is in the place of its manifest.

* `Workspace.agrees_removeTree` : what is at a root is removed alike;
* `Workspace.Houses.along_create`, `Workspace.Houses.along_abandon` : all calls that make a workspace,
  and those at the end of a run that could not make one;
* `Workspace.Houses.along_destroy` : the removal of a workspace.
-/

namespace EmbeddedSolidity

open FileSystem FileSystem.FileTree

namespace FileSystem.FileTree

variable {t t' : FileTree} {current d : Place} {path name : String} {m : Nat}

/-- What is at a path that names a place depends on what is at the place. -/
theorem Names.entryAt_congr (hpath : Names t current path m d name)
    (hpath' : Names t' current path m d name)
    (hsame : t'.get? (d ++ [name]) = t.get? (d ++ [name]))
    (hslash : Workspace.SlashOfDirectory t path (d ++ [name])) :
    t'.entryAt current false path = t.entryAt current false path := by
  have hwalk : ∀ rest, rest = [] ∨ rest = [""] ∧ (∀ target, t.get? (d ++ [name]) ≠ some (.link target)) →
      t'.walk false m d (name :: rest) = t.walk false m d (name :: rest) := by
    intro rest hrest
    refine (walk_congr false m d _ ?_).1
    have hd : t'.get? d = t.get? d := hpath'.directory.trans hpath.directory.symm
    have hrest' : ∀ q, t.visits false m q rest = [] := by
      intro q
      rcases hrest with rfl | ⟨rfl, -⟩
      · cases m <;> rfl
      · rw [visits_skip (Or.inl rfl)]
        cases m <;> rfl
    rw [visits_plain hpath.plain]
    split
    · exact List.forall_mem_cons.2 ⟨hsame, List.forall_mem_singleton.2 hd⟩
    · rw [hrest']
      exact List.forall_mem_singleton.2 hsame
    · exact List.forall_mem_singleton.2 hsame
    · next target hlink =>
      rcases hrest with rfl | ⟨-, hnone⟩
      · exact List.forall_mem_singleton.2 hsame
      · exact absurd hlink (hnone target)
  refine entryAt_of_resolve_eq ?_
  rcases hpath.resolve false with ⟨hr, hend⟩ | ⟨hr, hend⟩ <;>
    rcases hpath'.resolve false with ⟨hr', hend'⟩ | ⟨hr', hend'⟩
  · rw [hr, hr', hwalk [] (Or.inl rfl)]
  · rw [hend] at hend'
    cases hend'
  · rw [hend] at hend'
    cases hend'
  · rw [hr, hr', hwalk [""] (Or.inr ⟨rfl, hslash hend⟩)]

/-- A file is not removed as a directory. -/
theorem Names.removeTree_file {content : ByteArray} {executable : Bool}
    (hpath : Names t current path m d name)
    (hthere : t.get? (d ++ [name]) = some (.file content executable)) :
    t.removeTree current path = (.error .notDirectory, t) := by
  unfold removeTree
  have hkind := hpath.kind_file hthere
  unfold FileTree.kind at hkind
  rcases hentry : t.entryAt current false path with f | ⟨q, _ | _ | _⟩ <;> rw [hentry] at hkind
  · rcases hkind with ⟨hkind, -⟩ | ⟨hkind, -⟩
    · cases hkind
    · cases hkind
      rfl
  · rcases hkind with ⟨hkind, -⟩ | ⟨hkind, -⟩ <;> cases hkind
  · rcases hkind with ⟨hkind, -⟩ | ⟨hkind, -⟩ <;> cases hkind

/-- A link at the place is what the path stands for. -/
theorem Names.entryAt_link {target : String} (hpath : Names t current path m d name)
    (hthere : t.get? (d ++ [name]) = some (.link target)) (hslash : endsInSlash path = false) :
    t.entryAt current false path = .ok (d ++ [name], .link target) := by
  rcases hpath.resolve false with ⟨hr, -⟩ | ⟨-, hend⟩
  · refine entryAt_of_resolve ?_
    rw [hr, walk_plain hpath.plain, hthere]
    rfl
  · rw [hslash] at hend
    cases hend

end FileSystem.FileTree

namespace Workspace

variable {h : Host} {root : String} {c : Config} {t t' t₀ : FileTree} {m : Nat} {d : Place}
  {name : String} {F : Frame} {Safe : Call → FileTree → Prop}

/-! ## What is at the root -/

/-- Whatever is at a root is removed alike. -/
theorem agrees_removeTree (hroot : Denotes t h.current root m d name)
    (hroot' : Denotes t' h.current root m d name)
    (hsame : t'.get? (d ++ [name]) = t.get? (d ++ [name]))
    (hslash : SlashOfDirectory t root (d ++ [name])) :
    (Call.removeTree root).Agrees h {q | d ++ [name] <+: q} t t' := by
  rcases hthere : t.get? (d ++ [name]) with _ | ⟨_ | ⟨content, executable⟩ | target⟩
  all_goals rw [hthere] at hsame
  · exact Call.agrees_of_unchanged _ (hroot.names.removeTree_free hthere)
      (hroot'.names.removeTree_free hsame)
  · exact Call.agrees_of_edits (edits_eraseAll fun q hq => hq) (hroot.removeTree_directory hthere)
      (hroot'.removeTree_directory hsame)
  · exact Call.agrees_of_unchanged _ (hroot.names.removeTree_file hthere)
      (hroot'.names.removeTree_file hsame)
  · have hend : endsInSlash root = false :=
      Bool.eq_false_iff.2 fun hend => hslash hend target hthere
    exact Call.agrees_of_edits (edits_erase (p := d ++ [name]) List.prefix_rfl)
      (removeTree_link (hroot.names.entryAt_link hthere hend))
      (removeTree_link (hroot'.names.entryAt_link hsame hend))

theorem Houses.allows_removeTree (hF : Houses h root m d name F)
    (hroot : Denotes t h.current root m d name)
    (hslash : SlashOfDirectory t root (d ++ [name])) : F.Allows h (.removeTree root) t :=
  Frame.allows_of_agrees hF.own
    (fun t' hapart hgood => agrees_removeTree hroot (hF.denotes t' hgood)
      (hF.same hapart _ List.prefix_rfl) hslash)
    fun t' hown hgood => hF.keeps t' _ id hown hgood

/-- A file or a link that is seen at the root is removed alike. -/
theorem Houses.allows_removeFile (hF : Houses h root m d name F)
    (hroot : Denotes t h.current root m d name) {e : Entry} (hthere : t.get? (d ++ [name]) = some e)
    (hother : e ≠ .directory) (hend : endsInSlash root = false) :
    F.Allows h (.removeFile root) t := by
  have hremove : ∀ {t}, Denotes t h.current root m d name → t.get? (d ++ [name]) = some e →
      h.answer t (.removeFile root) = ((.ok () : Except Fault Unit), t.erase (d ++ [name])) := by
    intro t hroot hthere
    rw [Host.answer, hroot.names.removeFile_other hthere hother hend]
    rfl
  refine Frame.allows_of_agrees hF.own (fun t' hapart hgood => ?_)
    fun t' hown hgood => hF.keeps t' _ id hown hgood
  have hthere' := (hF.same hapart _ List.prefix_rfl).trans hthere
  exact Call.agrees_of_edits (edits_erase (p := d ++ [name]) List.prefix_rfl) (hremove hroot hthere)
    (hremove (hF.denotes t' hgood) hthere')

theorem Houses.allows_kind (hF : Houses h root m d name F) (hroot : Denotes t h.current root m d name)
    (hslash : SlashOfDirectory t root (d ++ [name])) : F.Allows h (.kind root) t := by
  intro t' hapart hgood
  refine ⟨?_, hapart, .refl _ _, hgood⟩
  change t'.kind h.current root = t.kind h.current root
  unfold FileTree.kind
  rw [hroot.names.entryAt_congr (hF.denotes t' hgood).names (hF.same hapart _ List.prefix_rfl) hslash]

theorem Houses.allows_list (hF : Houses h root m d name F) (hroot : Denotes t h.current root m d name)
    (hthere : t.get? (d ++ [name]) = some .directory) : F.Allows h (.list root) t := by
  intro t' hapart hgood
  have hthere' := (hF.same hapart _ List.prefix_rfl).trans hthere
  have hlist : t.list h.current root = .ok (t.names (d ++ [name])) :=
    list_directory (w := ⟨root⟩) hroot.names hthere
  have hlist' : t'.list h.current root = .ok (t'.names (d ++ [name])) :=
    list_directory (w := ⟨root⟩) (hF.denotes t' hgood).names hthere'
  refine ⟨?_, hapart, .refl _ _, hgood⟩
  change t'.list h.current root = t.list h.current root
  rw [hlist, hlist', hapart.names fun name' => hF.other _ (List.prefix_append _ _)]

/-! ## Clearing the root -/

/-- The test for an earlier workspace is a look at its manifest. -/
theorem along_hasGeneratedManifest
    (hsafe : ∀ call t, ¬ call.Starts → F.Allows h call t → Safe call t)
    (hmanifest : F.Allows h (.read (manifestPath ⟨c.root⟩)) t) :
    Plan.Along h Safe (hasGeneratedManifest ⟨c.root⟩) t fun _ t' => t = t' := by
  have hread : Plan.Along h Safe (Plan.readText (manifestPath ⟨c.root⟩)) t fun _ t' => t = t' := by
    refine Plan.Along.bind (P := fun _ t' => t = t') (.call (hsafe _ t id hmanifest) rfl) ?_
    rintro (f | bytes) t' ht'
    · exact ht'
    · dsimp only
      split <;> exact ht'
  refine Plan.Along.bind hread ?_
  rintro (f | text) t' ht' <;> exact ht'

/-- The result of clearing the root : nothing is left there, or nothing has changed. -/
structure ClearedAt (p : Place) (t : FileTree) (r : Except Error Unit) (t' : FileTree) : Prop where
  apart : Apart {q | p <+: q} t t'
  free : r = .ok () → ∀ q, p <+: q → t'.get? q = none
  unchanged : ∀ e, r = .error e → t' = t

theorem clearedAt_error (p : Place) (t : FileTree) (e : Error) : ClearedAt p t (.error e) t :=
  ⟨.refl _ t, nofun, fun _ _ => rfl⟩

variable (hF : Houses h c.root m d name F)
  (hsafe : ∀ call t, ¬ call.Starts → F.Allows h call t → Safe call t)

include hF hsafe

theorem Houses.along_removeExisting (hwf : t.WellFormed)
    (hroot : Denotes t h.current c.root m d name)
    (hslash : SlashOfDirectory t c.root (d ++ [name])) :
    Plan.Along h Safe (removeExisting c.root) t (ClearedAt (d ++ [name]) t) := by
  have hne := concat_ne_nil d name
  unfold removeExisting
  refine Plan.Along.bind (P := fun answer t' => answer = t.kind h.current c.root ∧ t = t')
    (.call (hsafe _ t id (hF.allows_kind hroot hslash)) ⟨rfl, rfl⟩) ?_
  rintro _ _ ⟨rfl, rfl⟩
  cases hthere : t.get? (d ++ [name]) with
  | none =>
    rw [hroot.names.kind_free hthere]
    exact ⟨.refl _ t, fun _ => (hwf.cut hthere).free, nofun⟩
  | some e =>
    by_cases hdirectory : e = .directory
    · subst hdirectory
      rw [hroot.names.kind_directory hthere]
      have hremove : h.answer t (.removeTree c.root) =
          ((.ok () : Except Fault Unit), t.eraseAll (d ++ [name])) :=
        hroot.removeTree_directory hthere
      refine Plan.Along.bind (P := fun answer t' =>
          answer = (.ok () : Except Fault Unit) ∧ t' = t.eraseAll (d ++ [name]))
        (.call (hsafe _ t id (hF.allows_removeTree hroot hslash))
          ⟨congrArg Prod.fst hremove, congrArg Prod.snd hremove⟩) ?_
      rintro _ _ ⟨rfl, rfl⟩
      exact ⟨apart_eraseAll t fun q hq => hq, fun _ q hq => get?_eraseAll_eq_none t hne hq, nofun⟩
    · rcases kind_other (w := ⟨c.root⟩) hroot.names hthere hdirectory hslash with
        ⟨⟨k, hkind, hk⟩, hend⟩ | hkind
      · rw [hkind]
        have hremove : h.answer t (.removeFile c.root) =
            ((.ok () : Except Fault Unit), t.erase (d ++ [name])) := by
          rw [Host.answer, hroot.names.removeFile_other hthere hdirectory hend]
          rfl
        have hafter : Plan.Along h Safe (attempt c.root (Plan.call (.removeFile c.root))) t
            (ClearedAt (d ++ [name]) t) := by
          refine Plan.Along.bind (P := fun answer t' =>
              answer = (.ok () : Except Fault Unit) ∧ t' = t.erase (d ++ [name]))
            (.call (hsafe _ t id (hF.allows_removeFile hroot hthere hdirectory hend))
              ⟨congrArg Prod.fst hremove, congrArg Prod.snd hremove⟩) ?_
          rintro _ _ ⟨rfl, rfl⟩
          refine ⟨apart_erase t List.prefix_rfl, fun _ => (hwf.cut_erase hne ?_).free, nofun⟩
          rw [hthere]
          exact fun heq => hdirectory (Option.some.inj heq)
        cases k with
        | directory => exact absurd rfl hk
        | file | link => exact hafter
      · rw [hkind]
        exact clearedAt_error _ t _

theorem Houses.along_clear (hwf : t.WellFormed) (hroot : Denotes t h.current c.root m d name)
    (hslash : SlashOfDirectory t c.root (d ++ [name]))
    (hmanifest : c.isDefaultRoot = false → F.Allows h (.read (manifestPath ⟨c.root⟩)) t) :
    Plan.Along h Safe (clear c) t (ClearedAt (d ++ [name]) t) := by
  have hclear := hF.along_removeExisting hsafe hwf hroot hslash
  unfold clear
  split
  · exact hclear
  next hchosen =>
  unfold removePrevious
  refine Plan.Along.bind (P := fun answer t' => answer = t.kind h.current c.root ∧ t = t')
    (.call (hsafe _ t id (hF.allows_kind hroot hslash)) ⟨rfl, rfl⟩) ?_
  rintro _ _ ⟨rfl, rfl⟩
  cases hthere : t.get? (d ++ [name]) with
  | none =>
    rw [hroot.names.kind_free hthere]
    exact ⟨.refl _ t, fun _ => (hwf.cut hthere).free, nofun⟩
  | some e =>
    by_cases hdirectory : e = .directory
    · subst hdirectory
      rw [hroot.names.kind_directory hthere]
      refine Plan.Along.bind (P := fun _ t' => t = t')
        (.call (hsafe _ t id (hF.allows_list hroot hthere)) rfl) ?_
      rintro (f | names) _ rfl
      · exact clearedAt_error _ _ _
      · dsimp only
        split
        · exact hclear
        · refine Plan.Along.bind (along_hasGeneratedManifest hsafe
            (hmanifest (Bool.eq_false_iff.2 hchosen))) ?_
          rintro known _ rfl
          split
          · exact hclear
          · exact clearedAt_error _ _ _
    · rcases kind_other (w := ⟨c.root⟩) hroot.names hthere hdirectory hslash with
        ⟨⟨k, hkind, hk⟩, -⟩ | hkind
      · rw [hkind]
        cases k with
        | directory => exact absurd rfl hk
        | file | link => exact clearedAt_error _ _ _
      · rw [hkind]
        exact clearedAt_error _ _ _

/-! ## Making and removing a workspace -/

/-- What a run knows of the tree once it has tried to make its workspace in the tree `t₀`. -/
structure MadeAt (h : Host) (root : String) (m : Nat) (d : Place) (name : String) (t₀ : FileTree)
    (made : Except Error Workspace) (t : FileTree) : Prop where
  apart : Apart {q | d ++ [name] <+: q} t₀ t
  settled : ∀ w, made = .ok w → w = ⟨root⟩ ∧ Settled h root m d name t
  failed : ∀ e, made = .error e → t = t₀ ∨ Settled h root m d name t

omit hF hsafe in
/-- No link is made with a workspace. -/
theorem MadeAt.noNewLinks {made : Except Error Workspace} (hmade : MadeAt h c.root m d name t₀ made t) :
    NoNewLinks t₀ t := by
  have hlinks : Settled h c.root m d name t → NoNewLinks t₀ t := by
    intro hs q target hlink
    by_cases hq : d ++ [name] <+: q
    · exact absurd hlink (hs.not_link q target hq)
    · rwa [hmade.apart.get? hq] at hlink
  cases made with
  | ok w => exact hlinks (hmade.settled w rfl).2
  | error e =>
    rcases hmade.failed e rfl with rfl | hs
    · exact .refl t
    · exact hlinks hs

/-- The directory of the workspace is made where nothing is. -/
theorem Houses.along_makeRoot (hroot : Denotes t h.current c.root m d name)
    (hfree : t.get? (d ++ [name]) = none) :
    Plan.Along h Safe (attempt c.root (Plan.call (.makeDirectories c.root))) t fun r t' =>
      r = .ok () ∧ t' = t.put (d ++ [name]) .directory := by
  have hself : d ++ [name] <+: d ++ [name] := List.prefix_rfl
  have hmake : ∀ {t}, Denotes t h.current c.root m d name → t.get? (d ++ [name]) = none →
      h.answer t (.makeDirectories c.root) =
        ((.ok () : Except Fault Unit), t.put (d ++ [name]) .directory) :=
    fun hroot hfree => hroot.names.makeDirectories_free hfree
  have hallowed : F.Allows h (.makeDirectories c.root) t := by
    refine Frame.allows_of_agrees hF.own (fun t' hapart hgood => ?_)
      fun t' hown hgood => hF.keeps t' _ id hown hgood
    exact Call.agrees_of_edits (edits_put (p := d ++ [name]) .directory hself) (hmake hroot hfree)
      (hmake (hF.denotes t' hgood) ((hF.same hapart _ hself).trans hfree))
  have hanswer := hmake hroot hfree
  refine Plan.Along.attempt c.root (P := fun r t' => r = .ok () ∧ t' = t.put (d ++ [name]) .directory)
    (.call (hsafe _ t id hallowed) ⟨congrArg Prod.fst hanswer, congrArg Prod.snd hanswer⟩) ?_
  rintro _ _ ⟨rfl, rfl⟩
  exact ⟨rfl, rfl⟩

/-- The manifest is written into an empty directory, unless its path is too long. -/
theorem Houses.along_writeManifest (hs : Settled h c.root m d name t)
    (hfree : ∀ q, Below (d ++ [name]) q → t.get? q = none) (text : String) :
    Plan.Along h Safe (attempt (manifestPath ⟨c.root⟩) (Plan.writeText (manifestPath ⟨c.root⟩) text))
      t fun r t' => Settled h c.root m d name t' ∧ Apart {q | d ++ [name] <+: q} t t' ∧
        (r = .ok () → pathFault? (manifestPath ⟨c.root⟩) = none ∧
          t'.get? (sourcePlace (d ++ [name])) = none) := by
  have hworks : (Call.write (manifestPath ⟨c.root⟩) text.toUTF8).Works c.root :=
    ⟨[Manifest.fileName], List.cons_ne_nil _ _, List.forall_mem_singleton.2 named_manifest, rfl⟩
  obtain ⟨hs', hapart⟩ := hs.works hworks
  refine Plan.Along.attempt _ (P := fun r t' => r = (h.answer t (.write (manifestPath ⟨c.root⟩)
    text.toUTF8)).1 ∧ t' = (h.answer t (.write (manifestPath ⟨c.root⟩) text.toUTF8)).2)
    (.call (hsafe _ t id (hF.allows_works hs hworks)) ⟨rfl, rfl⟩) ?_
  rintro _ _ ⟨rfl, rfl⟩
  refine ⟨hs', hapart, fun hok => ?_⟩
  have hend : endsInSlash (manifestPath ⟨c.root⟩) = false :=
    Path.endsInSlash_join named_manifest.simple
  cases hfault : pathFault? (manifestPath ⟨c.root⟩) with
  | some f =>
    have hanswer : h.answer t (.write (manifestPath ⟨c.root⟩) text.toUTF8) =
        ((.error f : Except Fault Unit), t) := by
      rw [Host.answer, write_of_error hend (resolve_of_fault hfault)]
      rfl
    rw [hanswer] at hok
    cases hok
  | none =>
    refine ⟨rfl, ?_⟩
    rw [Host.answer, write_manifest (w := ⟨c.root⟩) hs.leads hs.directory
      (hfree _ (below_manifestPlace _)) hfault]
    exact (get?_put_of_ne t _ (manifestPlace_ne_sourcePlace _).symm).trans
      (hfree _ (below_sourcePlace _))

/-- The directory of the sources is made in the workspace. -/
theorem Houses.along_makeSources (hs : Settled h c.root m d name t)
    (hfree : t.get? (sourcePlace (d ++ [name])) = none)
    (hmanifest : pathFault? (manifestPath ⟨c.root⟩) = none) :
    Plan.Along h Safe (attempt (sourceDirectory ⟨c.root⟩)
      (Plan.call (.makeDirectories (sourceDirectory ⟨c.root⟩)))) t fun r t' =>
        r = .ok () ∧ Settled h c.root m d name t' ∧ Apart {q | d ++ [name] <+: q} t t' := by
  have hbelow := below_sourcePlace (d ++ [name])
  have hmake : ∀ {t}, Denotes t h.current c.root m d name →
      t.get? (d ++ [name]) = some .directory → t.get? (sourcePlace (d ++ [name])) = none →
      h.answer t (.makeDirectories (sourceDirectory ⟨c.root⟩)) =
        ((.ok () : Except Fault Unit), t.put (sourcePlace (d ++ [name])) .directory) :=
    fun hroot hthere hfree =>
      makeDirectories_sources (w := ⟨c.root⟩) (hroot.names.leads hthere) hthere hfree hmanifest
  have hallowed : F.Allows h (.makeDirectories (sourceDirectory ⟨c.root⟩)) t := by
    refine Frame.allows_of_agrees hF.own (fun t' hapart hgood => ?_)
      fun t' hown hgood => hF.keeps t' _ id hown hgood
    exact Call.agrees_of_edits (edits_put (p := sourcePlace (d ++ [name])) .directory hbelow.1)
      (hmake hs.denotes hs.directory hfree)
      (hmake (hF.denotes t' hgood) ((hF.same hapart _ List.prefix_rfl).trans hs.directory)
        ((hF.same hapart _ hbelow.1).trans hfree))
  have hanswer := hmake hs.denotes hs.directory hfree
  refine Plan.Along.attempt _ (P := fun r t' => r = .ok () ∧
    t' = t.put (sourcePlace (d ++ [name])) .directory)
    (.call (hsafe _ t id hallowed) ⟨congrArg Prod.fst hanswer, congrArg Prod.snd hanswer⟩) ?_
  rintro _ _ ⟨rfl, rfl⟩
  have hput := apart_put (Y := {q | d ++ [name] <+: q}) t .directory hbelow.1
  refine ⟨rfl, hs.of_apart hput ?_ (noNewLinks_put t (below_ne_nil hbelow) fun _ => nofun), hput⟩
  rw [get?_put_of_ne _ _ hbelow.2.symm]
  exact hs.directory

/-- Where nothing is, a workspace is built. -/
theorem Houses.along_build (hroot : Denotes t h.current c.root m d name)
    (hfree : ∀ q, d ++ [name] <+: q → t.get? q = none) (ht : Apart {q | d ++ [name] <+: q} t₀ t) :
    Plan.Along h Safe (build ⟨c.root⟩ c.solc) t (MadeAt h c.root m d name t₀) := by
  have hself : d ++ [name] <+: d ++ [name] := List.prefix_rfl
  have hempty : ∀ q, Below (d ++ [name]) q → (t.put (d ++ [name]) .directory).get? q = none :=
    fun q hq => (get?_put_of_ne t _ hq.2).trans (hfree q hq.1)
  unfold build
  refine Plan.Along.andThen (hF.along_makeRoot hsafe hroot (hfree _ hself))
    (fun e _ he => absurd he.1 nofun) ?_
  rintro u _ ⟨-, rfl⟩
  have hs : Settled h c.root m d name (t.put (d ++ [name]) .directory) :=
    ⟨hroot.congr (sameApart_put hself _), get?_put_self t _ (concat_ne_nil d name),
      fun q target hq hlink => by
        rw [hempty q hq] at hlink
        cases hlink⟩
  have hput := ht.trans (apart_put (Y := {q | d ++ [name] <+: q}) t .directory hself)
  refine Plan.Along.andThen (hF.along_writeManifest hsafe hs hempty _) ?_ ?_
  · rintro e t' ⟨hs', hapart, -⟩
    exact ⟨hput.trans hapart, nofun, fun _ _ => Or.inr hs'⟩
  rintro u t₁ ⟨hs₁, hapart₁, hok⟩
  obtain ⟨hmanifest, hsources⟩ := hok rfl
  refine Plan.Along.andThen (hF.along_makeSources hsafe hs₁ hsources hmanifest)
    (fun e _ he => absurd he.1 nofun) ?_
  rintro u t₂ ⟨-, hs₂, hapart₂⟩
  exact ⟨hput.trans (hapart₁.trans hapart₂), fun w hw => ⟨(Except.ok.inj hw).symm, hs₂⟩, nofun⟩

/-- A workspace is made in the place of whatever is at the root. -/
theorem Houses.along_create (hwf : t.WellFormed) (hroot : Denotes t h.current c.root m d name)
    (hslash : SlashOfDirectory t c.root (d ++ [name]))
    (hmanifest : c.isDefaultRoot = false → F.Allows h (.read (manifestPath ⟨c.root⟩)) t) :
    Plan.Along h Safe (create c) t (MadeAt h c.root m d name t) := by
  refine Plan.Along.andThen
    (hF.along_clear hsafe hwf hroot hslash hmanifest) ?_ ?_
  · intro e t' hcleared
    exact ⟨hcleared.apart, nofun, fun _ _ => Or.inl (hcleared.unchanged e rfl)⟩
  · intro u t' hcleared
    exact hF.along_build hsafe (hroot.congr hcleared.apart.sameApart) (hcleared.free rfl)
      hcleared.apart

/-- The removal of a workspace. -/
theorem Houses.along_destroy (hroot : Denotes t h.current c.root m d name)
    (hslash : SlashOfDirectory t c.root (d ++ [name])) (ht : Apart {q | d ++ [name] <+: q} t₀ t)
    (hlinks : NoNewLinks t₀ t) :
    Plan.Along h Safe (destroy ⟨c.root⟩) t fun _ t' =>
      Apart {q | d ++ [name] <+: q} t₀ t' ∧ NoNewLinks t₀ t' := by
  refine Plan.Along.bind (P := fun _ t' => Apart {q | d ++ [name] <+: q} t₀ t' ∧ NoNewLinks t₀ t')
    (.call (hsafe _ t id (hF.allows_removeTree hroot hslash))
      ⟨ht.trans (agrees_removeTree hroot hroot rfl hslash).apart,
        hlinks.trans (noNewLinks_removeTree t h.current c.root)⟩) ?_
  rintro (f | ok) t' ht'
  · cases f <;> exact ht'
  · exact ht'

/-- The removal of a workspace that is settled leaves nothing of it. -/
theorem Houses.along_remove (hs : Settled h c.root m d name t) :
    Plan.Along h Safe (destroy ⟨c.root⟩) t fun _ t' => t.eraseAll (d ++ [name]) = t' := by
  have hanswer := hs.destroy
  refine Plan.Along.bind (P := fun r t' => r = .ok () ∧ t.eraseAll (d ++ [name]) = t')
    (.call (hsafe _ t id (hF.allows_destroy hs))
      ⟨congrArg Prod.fst hanswer, (congrArg Prod.snd hanswer).symm⟩) ?_
  rintro _ t' ⟨rfl, ht'⟩
  exact ht'

/-- What is done at the end of a run that could not make its workspace. -/
theorem Houses.along_abandon {e : Error} (hroot : Denotes t₀ h.current c.root m d name)
    (hslash : SlashOfDirectory t₀ c.root (d ++ [name]))
    (hmanifest : c.isDefaultRoot = false → F.Allows h (.read (manifestPath ⟨c.root⟩)) t₀)
    (hmade : MadeAt h c.root m d name t₀ (.error e) t) :
    Plan.Along h Safe (Run.abandon c) t fun _ t' =>
      Apart {q | d ++ [name] <+: q} t₀ t' ∧ NoNewLinks t₀ t' := by
  have hroot' : Denotes t h.current c.root m d name := hroot.congr hmade.apart.sameApart
  have hslash' : SlashOfDirectory t c.root (d ++ [name]) := by
    rcases hmade.failed e rfl with rfl | hs
    · exact hslash
    · exact fun _ target => hs.not_link _ target List.prefix_rfl
  have hdestroy := hF.along_destroy hsafe hroot' hslash' hmade.apart hmade.noNewLinks
  unfold Run.abandon
  dsimp only
  split
  · exact hdestroy
  next hchosen =>
  have hread : F.Allows h (.read (manifestPath ⟨c.root⟩)) t := by
    rcases hmade.failed e rfl with rfl | hs
    · exact hmanifest (Bool.eq_false_iff.2 hchosen)
    · exact hF.allows_works hs ⟨[Manifest.fileName], List.cons_ne_nil _ _,
        List.forall_mem_singleton.2 named_manifest, rfl⟩
  refine Plan.Along.bind (along_hasGeneratedManifest hsafe hread) ?_
  rintro known _ rfl
  split
  · exact hdestroy
  · exact ⟨hmade.apart, hmade.noNewLinks⟩

end Workspace

end EmbeddedSolidity
