import EmbeddedSolidity.Proofs.Compile.Framed

/-!
# Compiling in the place of an earlier workspace

What is at the root of a compilation does not matter once a workspace can be made there : it is erased
before anything else is done. So the compilation goes as it would if nothing were at the root, unless
its sources are there. When it is done nothing is left at the root, so the same compilation goes the same
way again, also if something has changed meanwhile that it does not look at.

* `Workspace.create_eraseAll` : making the workspace;
* `Compile.report_eraseAll` : a whole compilation;
* `Compile.report_again` : the same compilation again.
-/

namespace EmbeddedSolidity

open FileSystem FileSystem.FileTree

variable {h : Host} {c : Config} {t t' : FileTree} {m : Nat} {d : Place} {name : String}
  {Y : Set Place} {paths : List String}

/-- The frame of a plan that changes nothing. -/
abbrev Frame.still (Y : Set Place) : Frame :=
  ⟨∅, Y, fun _ => True⟩

/-- A plan that looks, and not into a region where the trees differ, has the same result in both. -/
theorem Plan.twins_of_looks {α : Type} {R : α → Prop} {Q : α → FileTree → Prop} {p : Plan α}
    (hp : p.Always Call.Looks R) (halong : Plan.Along h ((Frame.still Y).Allows h) p t Q)
    (hapart : Apart Y t t') :
    (Plan.twins h).Holds p (t, t') fun a s => a = (p.run h t).1 ∧ s = (t, t') := by
  have hlook : ∀ u : FileTree, Plan.Along h (fun _ _ => True) p u fun a t' =>
      R a ∧ t' = u ∧ a = (p.run h u).1 := fun u => .of_looks hp fun _ _ => trivial
  have hsame : ∀ u : FileTree, (p.run h u).2 = u := fun u => (hlook u).ensures.2.1
  exact ⟨(halong.lockstep hapart trivial).1, rfl, Prod.ext (hsame t) (hsame t')⟩

namespace Workspace

/-- If a workspace can be made, it is made as it would be if nothing were at the root. -/
theorem create_eraseAll (hwf : t.WellFormed) (hroot : Denotes t h.current c.root m d name)
    (hslash : SlashOfDirectory t c.root (d ++ [name])) {w : Workspace}
    (hmade : ((create c).run h t).1 = .ok w) :
    (create c).run h (t.eraseAll (d ++ [name])) = (create c).run h t := by
  have hmanifest := pathFault?_of_create hmade
  have hcut := cut_eraseAll t (concat_ne_nil d name)
  have hfree := hcut.free _ (List.prefix_refl _)
  have hnames : Names (t.eraseAll (d ++ [name])) h.current c.root m d name := hroot
  have hcleared : (clear c).run h (t.eraseAll (d ++ [name])) = (.ok (), t.eraseAll (d ++ [name])) := by
    unfold clear
    split
    · exact removeExisting_free (w := ⟨c.root⟩) hnames hfree
    · exact removePrevious_free hnames hfree
  rw [create_of_clear hcleared hnames hcut.free hmanifest]
  obtain ⟨t', hclear⟩ : ∃ t', (clear c).run h t = (.ok (), t') := by
    obtain ⟨⟨e | u, t'⟩, hclear⟩ : ∃ out, (clear c).run h t = out := ⟨_, rfl⟩
    · have herror : (create c).run h t = (.error e, t') := Plan.run_andThen_error hclear
      rw [herror] at hmade
      cases hmade
    · exact ⟨t', hclear⟩
  obtain rfl := eraseAll_of_clear hwf hroot hslash hclear
  rw [create_of_clear hclear hnames hcut.free hmanifest]

end Workspace

namespace Compile

open Workspace

/-- If a workspace can be made, a compilation whose sources are elsewhere goes as it would if nothing
were at the root. -/
theorem report_eraseAll (hwf : t.WellFormed) (hroot : Denotes t h.current c.root m d name)
    (hslash : SlashOfDirectory t c.root (d ++ [name])) {w : Workspace}
    (hmade : ((create c).run h t).1 = .ok w)
    (hcollecting : ∀ x ∈ (collect paths).log h t, x.1.Avoids h {q | d ++ [name] <+: q} t)
    (hreading : ∀ file ∈ ((collect paths).run h t).1.files,
      (Call.read file).Avoids h {q | d ++ [name] <+: q} t) :
    (report c paths).run h (t.eraseAll (d ++ [name])) = (report c paths).run h t := by
  have hapart : Apart {q | d ++ [name] <+: q} t (t.eraseAll (d ++ [name])) :=
    apart_eraseAll t fun _ => id
  have hlook : ∀ {call : Call}, call.Looks → call.Avoids h {q | d ++ [name] <+: q} t →
      (Frame.still {q | d ++ [name] <+: q}).Allows h call t :=
    fun hlooks havoids => Frame.allows_look hlooks havoids
  have hequal : ∀ {α : Type} (p : Plan α) (s : FileTree × FileTree), s.1 = s.2 →
      (Plan.twins h).Holds p s fun _ s' => s'.1 = s'.2 := by
    rintro α p ⟨u, u'⟩ hu
    obtain rfl : u = u' := hu
    exact ⟨rfl, rfl⟩
  -- Until the workspace is made the trees are those at the beginning; from then on they are one.
  have hsteps : Steps (Plan.twins h) c (· = (t, t.eraseAll (d ++ [name]))) (fun _ s => s.1 = s.2)
      ((collect paths).run h t).1.files := by
    refine ⟨?scan, fun file _ _ s => hequal _ s, ?create, fun w text s => hequal _ s⟩
    case scan =>
      rintro file hfile _ rfl
      exact (Plan.twins h).mono (Plan.twins_of_looks (Scan.always_ofFile file)
        (along_ofFile (hlook trivial (hreading file hfile))) hapart) fun _ _ hs => hs.2
    case create =>
      rintro _ rfl
      have hcreate := create_eraseAll hwf hroot hslash hmade
      exact ⟨congrArg Prod.fst hcreate, (congrArg Prod.snd hcreate).symm⟩
  have hcollect := Plan.twins_of_looks (always_collect paths)
    (along_collect fun x hx hlooks => hlook hlooks (hcollecting x hx)) hapart
  have hreport : (Plan.twins h).Holds (report c paths) (t, t.eraseAll (d ++ [name]))
      fun _ s => s.1 = s.2 := by
    rw [report_eq]
    refine (Plan.twins h).holds_bind (hsteps.progress hcollect) fun progress s hkept => ?_
    refine (Plan.twins h).holds_bind (hsteps.finish (fun w s hs => hequal _ s hs)
      (fun e s hs => hequal _ s hs) hkept) fun ended s hs => ?_
    exact hequal _ s hs
  exact Prod.ext hreport.1 hreport.2.symm

/-! ## The same compilation again -/

/-- A plan that looks, and not into a region where the trees differ, makes the same calls in both. -/
theorem log_congr {α : Type} {R : α → Prop} {Y : Set Place} {p : Plan α} (hp : p.Always Call.Looks R)
    (hlog : ∀ x ∈ p.log h t, x.1.Avoids h Y t) (hapart : Apart Y t t') :
    p.log h t' = p.log h t ∧ (p.run h t').1 = (p.run h t).1 := by
  induction p with
  | done a => exact ⟨rfl, rfl⟩
  | ask c next ih =>
    have hc : c.Looks := by
      obtain ⟨log, a, he⟩ := Plan.exists_ends (next (h.answer t c).1)
      exact (hp _ a (.ask _ he)).1 _ List.mem_cons_self
    have hrest : (next (h.answer t c).1).Always Call.Looks R := fun log a he =>
      ⟨fun x hx => (hp _ a (.ask _ he)).1 x (List.mem_cons_of_mem _ hx), (hp _ a (.ask _ he)).2⟩
    unfold Plan.log at hlog ⊢
    unfold Plan.run
    rw [List.forall_mem_cons] at hlog
    have hanswer := hlog.1.answer hc hapart
    dsimp only at hlog hanswer ⊢
    rw [hc.answer h t] at hlog
    rw [hc.answer h t, hc.answer h t', hanswer]
    obtain ⟨hlog', hrun'⟩ := ih _ hrest hlog.2
    exact ⟨congrArg _ hlog', hrun'⟩

/-- The frame of a compilation that does not need a region. -/
abbrev beside (h : Host) (root : String) (m : Nat) (d : Place) (name : String) (Y : Set Place) :
    Frame :=
  ⟨{q | d ++ [name] <+: q}, Y, fun t => Denotes t h.current root m d name⟩

theorem houses_beside (hY : ∀ q, d ++ [name] <+: q → q ∉ Y) :
    Houses h c.root m d name (beside h c.root m d name Y) where
  own := fun _ => id
  other := hY
  denotes := fun _ => id
  keeps := fun _ _ _ hapart hroot => hroot.congr hapart.sameApart

/-- Where nothing is at the root, there is no manifest. -/
theorem allows_manifest (hY : ∀ q, d ++ [name] <+: q → q ∉ Y)
    (hroot : Denotes t h.current c.root m d name) (hfree : t.get? (d ++ [name]) = none) :
    (beside h c.root m d name Y).Allows h (.read (manifestPath ⟨c.root⟩)) t := by
  have hresolve : ∀ t : FileTree, Denotes t h.current c.root m d name →
      t.get? (d ++ [name]) = none → ∀ f, pathFault? (manifestPath ⟨c.root⟩) = f →
        t.resolve h.current true (manifestPath ⟨c.root⟩) = .error (f.getD .notFound) := by
    rintro t hroot hfree (_ | f) hfault
    · exact hroot.names.resolve_join_free hfree (List.forall_mem_singleton.2 named_manifest.simple)
        (List.cons_ne_nil _ _) hfault true
    · exact resolve_of_fault hfault
  refine Frame.allows_of_agrees (Z := ∅) (Set.empty_subset _) (fun t' hapart hroot' => ?_)
    fun t' _ hroot' => hroot'
  have hfree' : t'.get? (d ++ [name]) = none := (hapart.get? (hY _ List.prefix_rfl)).trans hfree
  exact Call.agrees_read ∅ ((hresolve t' hroot' hfree' _ rfl).trans (hresolve t hroot hfree _ rfl).symm)

/-- Every call of a compilation in the tree without what is at the root, for sources that are found
without a look at the root or the region. -/
theorem along_eraseAll (hwf : t.WellFormed) (hroot : Denotes t h.current c.root m d name)
    (hencloses : h.Encloses c.root (d ++ [name])) (hY : ∀ q, d ++ [name] <+: q → q ∉ Y)
    (hcollecting : ∀ x ∈ (collect paths).log h t, x.1.Avoids h ({q | d ++ [name] <+: q} ∪ Y) t)
    (hreading : ∀ file ∈ ((collect paths).run h t).1.files,
      (Call.read file).Avoids h ({q | d ++ [name] <+: q} ∪ Y) t)
    (hlocate : ∀ u, Apart {q | d ++ [name] <+: q} t u → (Call.locate c.executable).Avoids h Y u) :
    Plan.Along h ((beside h c.root m d name Y).Allows h) (report c paths) (t.eraseAll (d ++ [name]))
      fun _ t' => (Apart {q | d ++ [name] <+: q} (t.eraseAll (d ++ [name])) t' ∧
          NoNewLinks (t.eraseAll (d ++ [name])) t') ∧
        ((∃ w, ((create c).run h (t.eraseAll (d ++ [name]))).1 = .ok w) →
          ∀ q, d ++ [name] <+: q → t'.get? q = none) := by
  have hF := houses_beside (h := h) (c := c) (m := m) hY
  have herased : Apart {q | d ++ [name] <+: q} t (t.eraseAll (d ++ [name])) :=
    apart_eraseAll t fun _ => id
  have hfree := get?_eraseAll_eq_none t (concat_ne_nil d name) List.prefix_rfl
  have hroot' : Denotes (t.eraseAll (d ++ [name])) h.current c.root m d name :=
    hroot.congr herased.sameApart
  have hboth : Apart ({q | d ++ [name] <+: q} ∪ Y) t (t.eraseAll (d ++ [name])) :=
    herased.mono Set.subset_union_left
  obtain ⟨hlog, hcollected⟩ := log_congr (always_collect paths) hcollecting hboth
  exact along_report hF (fun _ _ _ hallows => hallows)
    (fun u program hs => hF.allows_execute hs hencloses program c.timeout
      fun u hu hroot => hroot.congr hu.sameApart)
    (erase_eraseBelow t (d ++ [name]) ▸ hwf.emptied _) hroot'
    (fun _ target => by rw [hfree]; nofun) hencloses
    ⟨fun x hx => ((hcollecting x (hlog ▸ hx)).congr hboth).mono Set.subset_union_right,
      fun file hfile u hu => ((hreading file (hcollected ▸ hfile)).congr
        (hboth.trans (hu.mono Set.subset_union_left))).mono Set.subset_union_right⟩
    (fun u hu => hlocate u (herased.trans hu)) fun _ => allows_manifest hY hroot' hfree

/-- If a workspace can be made, a compilation changes the workspace only and makes no link, and the
same compilation has the same result again and leaves the tree as it is, also if something has changed
meanwhile where it does not look. -/
theorem report_again (hwf : t.WellFormed) (hroot : Denotes t h.current c.root m d name)
    (hslash : SlashOfDirectory t c.root (d ++ [name]))
    (hmade : ∃ w, ((create c).run h t).1 = .ok w) (hencloses : h.Encloses c.root (d ++ [name]))
    (hY : ∀ q, d ++ [name] <+: q → q ∉ Y)
    (hcollecting : ∀ x ∈ (collect paths).log h t, x.1.Avoids h ({q | d ++ [name] <+: q} ∪ Y) t)
    (hreading : ∀ file ∈ ((collect paths).run h t).1.files,
      (Call.read file).Avoids h ({q | d ++ [name] <+: q} ∪ Y) t)
    (hlocate : ∀ u, Apart {q | d ++ [name] <+: q} t u → (Call.locate c.executable).Avoids h Y u) :
    Apart {q | d ++ [name] <+: q} t ((report c paths).run h t).2 ∧
      NoNewLinks t ((report c paths).run h t).2 ∧
      ∀ u, Apart Y ((report c paths).run h t).2 u → KeepsWays ((report c paths).run h t).2 u →
        ((report c paths).run h u).1 = ((report c paths).run h t).1 ∧
          Apart ∅ u ((report c paths).run h u).2 := by
  obtain ⟨w, hmade⟩ := hmade
  have hne := concat_ne_nil d name
  have halong := along_eraseAll hwf hroot hencloses hY hcollecting hreading hlocate
  have hafresh := report_eraseAll hwf hroot hslash hmade
    (fun x hx => (hcollecting x hx).mono Set.subset_union_left)
    fun file hfile => (hreading file hfile).mono Set.subset_union_left
  have hcreate := create_eraseAll hwf hroot hslash hmade
  rw [← hafresh]
  obtain ⟨⟨hsame, hlinks⟩, hleft⟩ := halong.ensures
  have hgone := hleft ⟨w, (congrArg Prod.fst hcreate).trans hmade⟩
  refine ⟨(apart_eraseAll t fun _ => id).trans hsame, (noNewLinks_eraseAll t hne).trans hlinks,
    fun u hapart hkeeps => ?_⟩
  -- Nothing is at the root, neither before the first compilation begins there nor when it is done.
  have hleast : Apart ∅ (t.eraseAll (d ++ [name]))
      ((report c paths).run h (t.eraseAll (d ++ [name]))).2 :=
    Apart.of_free (hsame.mono Set.subset_union_right) (fun hmem => hne (List.prefix_nil.1 hmem))
      (fun q hq => get?_eraseAll_eq_none t hne hq) hgone
  have hapart' : Apart Y (t.eraseAll (d ++ [name])) u :=
    (hleast.mono (Set.empty_subset Y)).trans hapart
  have hroot' : Denotes u h.current c.root m d name := by
    refine Names.mono (hroot.congr ((sameApart_eraseAll _ t).trans hsame.sameApart))
      fun q e hway he => ?_
    have hq : ¬ d ++ [name] <+: q := fun hq => by
      rw [get?_eraseAll_eq_none _ hne hq] at he
      cases he
    rw [sameApart_eraseAll _ _ q hq] at he ⊢
    exact hkeeps q e hway he
  obtain ⟨hresult, hend, hown, -⟩ := halong.lockstep hapart' hroot'
  refine ⟨hresult, Apart.of_free (hown.mono Set.subset_union_right)
    (fun hmem => hne (List.prefix_nil.1 hmem)) (fun q hq => ?_) fun q hq => ?_⟩
  · rw [hapart.get? (hY q hq)]
    exact hgone q hq
  · rw [hend.get? (hY q hq)]
    exact hgone q hq

end Compile

end EmbeddedSolidity
