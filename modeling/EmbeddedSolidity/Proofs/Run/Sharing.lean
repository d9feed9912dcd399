import EmbeddedSolidity.Proofs.Run.Handlers
import EmbeddedSolidity.Proofs.Run.History
import EmbeddedSolidity.Proofs.Workspace.Renewal

/-!
# Handlers that share a workspace

However the handlers of a run are interleaved with each other, with the task that makes the workspace
and with processes, the directory of the sources belongs to the handlers : what is there are files with
their texts, and the file of a handler has its text from when it has been written.

* `Handlers.Sources` : the directory of the sources;
* `Handlers.Sources.write`, `Handlers.Sources.change` : what handlers and processes leave there;
* `Handlers.Ready.step`, `Handlers.Stage.step` : one step, in a workspace that has been made and in any
  stage;
* `Handlers.shared_of_runs` : what holds of everything that can happen;
* `Handlers.started_with_foreign_source` : a root that leads through itself.
-/

namespace EmbeddedSolidity.Handlers

open FileSystem FileSystem.FileTree

variable {ι : Type} {h : Host} {c : Config} {snippet : ι → Snippet} {t t' : FileTree} {src : Place}
  {written written' : ι → Prop} {i : ι}

/-! ## The directory of the sources -/

/-- In the directory of the sources are files with the texts of handlers, and those of the handlers
that have written theirs. -/
structure Sources (h : Host) (c : Config) (snippet : ι → Snippet) (src : Place) (written : ι → Prop)
    (t : FileTree) : Prop where
  there : t.entryAt h.current true (Workspace.sourceDirectory ⟨c.root⟩) = .ok (src, .directory)
  directory : t.get? src = some .directory
  texts : ∀ i, written i → pathFault? (Workspace.sourcePath ⟨c.root⟩ (snippet i).id) = none ∧
    t.HasFile (src ++ [(snippet i).id.sourceFile]) (snippet i).text.toUTF8
  only : ∀ q e, Below src q → t.get? q = some e →
    ∃ j executable, q = src ++ [(snippet j).id.sourceFile] ∧
      e = .file (snippet j).text.toUTF8 executable

theorem Sources.mono (hs : Sources h c snippet src written t) (hle : ∀ i, written' i → written i) :
    Sources h c snippet src written' t :=
  ⟨hs.there, hs.directory, fun i hi => hs.texts i (hle i hi), hs.only⟩

/-- Processes leave the sources. -/
theorem Sources.change (hs : Sources h c snippet src written t) (hkeeps : KeepsSources h c t t') :
    Sources h c snippet src written t' := by
  obtain ⟨hthere, hsame⟩ := hkeeps src hs.there
  refine ⟨hthere, (hsame src (List.prefix_refl src)).trans hs.directory, fun i hi => ?_,
    fun q e hq he => hs.only q e hq ((hsame q hq.1).symm.trans he)⟩
  obtain ⟨hfault, executable, hfile⟩ := hs.texts i hi
  exact ⟨hfault, executable, (hsame _ (List.prefix_append src _)).trans hfile⟩

/-- The text of a handler is read from its source file. -/
theorem Sources.textAt (hs : Sources h c snippet src written t) (hi : written i) :
    Plan.textAt h t (Workspace.sourcePath ⟨c.root⟩ (snippet i).id) = .ok (snippet i).text := by
  obtain ⟨hfault, executable, hfile⟩ := hs.texts i hi
  obtain ⟨m, hleads⟩ := leads_of_entryAt hs.there
  have hnamed := Snippet.Id.named_sourceFile (snippet i).text
  have hresolve := (Workspace.resolve_join (w := ⟨Workspace.sourceDirectory ⟨c.root⟩⟩) hleads hnamed
    hfault true).1.trans (walk_file hnamed.plain hfile)
  exact Workspace.textAt_of_entryAt (entryAt_of_resolve hresolve) (Text.decode?_toUTF8 _)

/-- Where a handler writes its text. -/
theorem Sources.place (hs : Sources h c snippet src written t) {q : Place}
    (htargets : t.Targets h.current (Workspace.sourcePath ⟨c.root⟩ (snippet i).id) q) :
    q = src ++ [(snippet i).id.sourceFile] := by
  obtain ⟨found, hfound, hfor⟩ := htargets
  obtain ⟨m, hleads⟩ := leads_of_entryAt hs.there
  have hnamed := Snippet.Id.named_sourceFile (snippet i).text
  have hempty := (pathFault?_eq_none_iff.1 hleads.fault).2.1
  rw [Workspace.sourcePath, ← List.foldl_nil (f := Path.join) (b := Path.join _ _),
    ← List.foldl_cons] at hfound
  obtain ⟨m', p, hleads', hwalk⟩ := leads_of_resolve hempty
    (List.forall_mem_singleton.2 hnamed.simple) (List.cons_ne_nil _ _) hfound
  obtain ⟨rfl, rfl⟩ := hleads.unique (.refl t) hleads'
  refine (hfor.at_name hnamed.plain hwalk).resolve_right ?_
  rintro ⟨target, hlink⟩
  obtain ⟨j, executable, -, hfile⟩ := hs.only _ _ (below_append p _ []) hlink
  cases hfile

/-- A handler that writes its text leaves the texts of the others. -/
theorem Sources.write (hs : Sources h c snippet src written t)
    (hinj : ∀ i j, (snippet i).id = (snippet j).id → (snippet i).text = (snippet j).text) (i : ι) :
    Sources h c snippet src
      (fun j => written j ∨ j = i ∧
        (h.answer t (Run.writing ⟨c.root⟩ (snippet i))).1 = (.ok () : Except Fault Unit))
      (h.answer t (Run.writing ⟨c.root⟩ (snippet i))).2 := by
  have hanswer : h.answer t (Run.writing ⟨c.root⟩ (snippet i)) = t.keeping
      (t.write h.current (Workspace.sourcePath ⟨c.root⟩ (snippet i).id) (snippet i).text.toUTF8) :=
    rfl
  rw [hanswer]
  cases hwrite : t.write h.current (Workspace.sourcePath ⟨c.root⟩ (snippet i).id)
    (snippet i).text.toUTF8 with
  | error f => exact hs.mono fun j hj => hj.resolve_right fun ⟨_, hok⟩ => nomatch hok
  | ok t' =>
    obtain ⟨q, executable, rfl, htargets⟩ := write_eq_ok hwrite
    obtain ⟨m, hleads⟩ := leads_of_entryAt hs.there
    have hkeeps : KeepsWays t (t.put q (.file (snippet i).text.toUTF8 executable)) :=
      htargets.keepsWays
    have hfault := pathFault?_of_resolveNames htargets.choose_spec.1
    obtain rfl := hs.place htargets
    have hbelow := below_append src (snippet i).id.sourceFile []
    refine ⟨entryAt_of_leads (hleads.mono hkeeps), hkeeps _ _ isWay_directory hs.directory,
      fun j hj => ?_, fun q e hq he => ?_⟩
    · by_cases hsame : (snippet j).id.sourceFile = (snippet i).id.sourceFile
      · have hid := Snippet.Id.sourceFile_inj hsame
        rw [hid, hinj j i hid]
        exact ⟨hfault, executable, get?_put_self t _ (below_ne_nil hbelow)⟩
      · have hj' := hj.resolve_right fun ⟨heq, _⟩ => hsame (by rw [heq])
        obtain ⟨hfault', executable', hfile⟩ := hs.texts j hj'
        refine ⟨hfault', executable', ?_⟩
        change (t.put _ _).get? _ = _
        rw [get?_put_of_ne t _ fun heq => hsame (List.singleton_inj.1 (List.append_cancel_left heq))]
        exact hfile
    · change (t.put _ _).get? _ = _ at he
      by_cases heq : q = src ++ [(snippet i).id.sourceFile]
      · rw [heq, get?_put_self t _ (below_ne_nil hbelow)] at he
        exact ⟨i, executable, heq, (Option.some.inj he).symm⟩
      · rw [get?_put_of_ne t _ heq] at he
        exact hs.only q e hq he

/-- A new workspace has no sources. -/
theorem sources_of_shows {m : Nat} {p : Place} (hleads : Leads t h.current c.root m p)
    (hshows : Workspace.Shows p (some ⟨c.solc, []⟩) t)
    (hmanifest : pathFault? (Workspace.manifestPath ⟨c.root⟩) = none) (hnot : ∀ i, ¬ written i) :
    Sources h c snippet (Workspace.sourcePlace p) written t := by
  have hempty : c.root ≠ "" := (pathFault?_eq_none_iff.1 hleads.fault).2.1
  have hdirectory := hshows.sources
  have hsources : Leads t h.current (Workspace.sourceDirectory ⟨c.root⟩) m
      (Workspace.sourcePlace p) := by
    refine ⟨Workspace.pathFault?_sourceDirectory hempty hmanifest, ?_⟩
    unfold Workspace.sourceDirectory startOf
    rw [Path.parts_join Workspace.named_sources.simple,
      Path.isAbsolute_join hempty Workspace.named_sources.simple]
    exact hleads.reaches.append (.down Workspace.named_sources.plain hdirectory (.nil _ _))
  refine ⟨entryAt_of_leads hsources, hdirectory, fun i hi => absurd hi (hnot i), fun q e hq he => ?_⟩
  obtain ⟨name, rest, rfl⟩ := below_iff.1 hq
  unfold Workspace.sourcePlace at he
  rw [List.append_assoc, hshows] at he
  cases rest with
  | nil => exact absurd he (by simp [Workspace.Store.image?, Workspace.Contents.image?,
      Workspace.Contents.text?])
  | cons => cases he

/-! ## The calls of handlers -/

variable {trace : List (Event ι)} {s s' : State ι} {ev : Event ι} {j : ι}

/-- A trace is cut at an event of its own or at the last one. -/
theorem cut_append_singleton {before rest : List (Event ι)} {last : Event ι}
    (heq : trace ++ [last] = before ++ ev :: rest) :
    (∃ rest', trace = before ++ ev :: rest') ∨ before = trace ∧ ev = last := by
  rcases List.eq_nil_or_concat rest with rfl | ⟨rest', x, rfl⟩
  · obtain ⟨htrace, hlast⟩ := List.append_inj' heq rfl
    exact Or.inr ⟨htrace.symm, (List.singleton_inj.1 hlast).symm⟩
  · rw [List.concat_eq_append, ← List.cons_append, ← List.append_assoc] at heq
    exact Or.inl ⟨rest', (List.append_inj' heq rfl).1⟩

variable [DecidableEq ι]

theorem exchange?_eq_some_iff {x : Exchange} :
    exchange? i ev = some x ↔ ev = .asked i x ∨ ev = .ended i x := by
  cases ev <;> simp [exchange?]

theorem exchange?_eq_none_of_ne {x : Exchange} (hij : i ≠ j) :
    exchange? i (.asked j x) = none ∧ exchange? i (.ended j x) = none :=
  ⟨if_neg hij.symm, if_neg hij.symm⟩

theorem own_append (i : ι) (trace : List (Event ι)) (ev : Event ι) :
    own i (trace ++ [ev]) = own i trace ++ (exchange? i ev).toList := by
  unfold own
  rw [List.filterMap_append]
  congr 1

theorem own_append_of_none (hev : exchange? i ev = none) : own i (trace ++ [ev]) = own i trace := by
  rw [own_append, hev, Option.toList_none, List.append_nil]

/-- The calls of a handler that have been answered lead to where it is. -/
inductive Stands (c : Config) (x : Snippet) : List Exchange → Handler → Prop where
  | awaiting : Stands c x [] .awaiting
  | working {log : List Exchange} {rest : Plan (Except Error Compiled)} :
    (Run.compileIn c ⟨c.root⟩ x).Follows log rest → Stands c x log (.working rest)
  | building {log : List Exchange} {program directory : String} {limit : Option Nat}
    {next : Except Fault Outcome → Plan (Except Error Compiled)} :
    (Run.compileIn c ⟨c.root⟩ x).Follows log (.ask (.execute program directory limit) next) →
    Stands c x log (.building program directory limit next)
  | returned {log : List Exchange} {r : Except Error Compiled} :
    (Run.compileIn c ⟨c.root⟩ x).Ends log r → Stands c x log (.returned r)

theorem Stands.of_awaiting {x : Snippet} {log : List Exchange} (hs : Stands c x log .awaiting) :
    log = [] := by
  cases hs
  rfl

theorem Stands.of_working {x : Snippet} {log : List Exchange} {rest : Plan (Except Error Compiled)}
    (hs : Stands c x log (.working rest)) : (Run.compileIn c ⟨c.root⟩ x).Follows log rest := by
  cases hs
  assumption

theorem Stands.of_building {x : Snippet} {log : List Exchange} {program directory : String}
    {limit : Option Nat} {next : Except Fault Outcome → Plan (Except Error Compiled)}
    (hs : Stands c x log (.building program directory limit next)) :
    (Run.compileIn c ⟨c.root⟩ x).Follows log (.ask (.execute program directory limit) next) := by
  cases hs
  assumption

theorem Stands.of_returned {x : Snippet} {log : List Exchange} {r : Except Error Compiled}
    (hs : Stands c x log (.returned r)) : (Run.compileIn c ⟨c.root⟩ x).Ends log r := by
  cases hs
  assumption

/-- The call with which a handler goes on : it writes its text first, and then only if that succeeded
does it go on, without writing again. -/
theorem call_of_follows {x : Snippet} {log : List Exchange} {call : Call}
    {next : call.Answer → Plan (Except Error Compiled)}
    (hfollows : (Run.compileIn c ⟨c.root⟩ x).Follows log (.ask call next)) :
    log = [] ∧ call = Run.writing ⟨c.root⟩ x ∨
      ⟨Run.writing ⟨c.root⟩ x, (.ok () : Except Fault Unit)⟩ ∈ log ∧ (call.Looks ∨ call.Starts) := by
  obtain ⟨answer⟩ := Plan.nonempty_answer call
  obtain ⟨more, r, hends⟩ := hfollows.exists_ends answer
  obtain ⟨written, rest, hlog, hok, hcalls⟩ := Run.write_of_compileIn hends
  cases log with
  | nil =>
    obtain ⟨hfirst, -⟩ := List.cons.inj hlog
    exact Or.inl ⟨rfl, congrArg Sigma.fst hfirst⟩
  | cons first log =>
    obtain ⟨rfl, rfl⟩ := List.cons.inj hlog
    have hmem : (⟨call, answer⟩ : Exchange) ∈ log ++ ⟨call, answer⟩ :: more :=
      List.mem_append_right _ List.mem_cons_self
    rw [hok (List.ne_nil_of_mem hmem)]
    exact Or.inr ⟨List.mem_cons_self, hcalls _ hmem⟩

/-! ## A workspace that has been made -/

/-- The event is something that a handler does with the workspace. -/
def Event.OfHandler : Event ι → Prop
  | .entered _ | .asked _ _ | .started _ _ | .ended _ _ => True
  | _ => False

/-- Programs are started and end; what is asked starts none. -/
def Event.Proper : Event ι → Prop
  | .asked _ x => ¬ x.1.Starts
  | .ended _ x => x.1.Starts
  | _ => True

/-- The handler has written its text. -/
def Wrote (c : Config) (snippet : ι → Snippet) (trace : List (Event ι)) (i : ι) : Prop :=
  ⟨Run.writing ⟨c.root⟩ (snippet i), (.ok () : Except Fault Unit)⟩ ∈ own i trace

/-- A text has been written before, or with the last call. -/
theorem Wrote.of_append (hw : Wrote c snippet (trace ++ [ev]) i) :
    Wrote c snippet trace i ∨
      exchange? i ev = some ⟨Run.writing ⟨c.root⟩ (snippet i), (.ok () : Except Fault Unit)⟩ := by
  unfold Wrote at hw
  rw [own_append] at hw
  exact (List.mem_append.1 hw).imp_right Option.mem_toList.1

/-- The workspace has been made, and then handlers may have done something. -/
structure Ready (h : Host) (c : Config) (snippet : ι → Snippet) (t : FileTree) (src : Place)
    (trace : List (Event ι)) (s : State ι) : Prop where
  creation : s.creation = .done (.ok ⟨c.root⟩)
  ok : ((Workspace.create c).run h t).1 = .ok ⟨c.root⟩
  made : made trace = (Workspace.create c).log h t
  after : ∀ before ev rest, trace = before ++ ev :: rest → ev.OfHandler →
    Handlers.made before = (Workspace.create c).log h t
  sources : Sources h c snippet src (Wrote c snippet trace) s.tree
  stands : ∀ i, Stands c (snippet i) (own i trace) (s.handlers i)
  started : ∀ i t', .started i t' ∈ trace → Sources h c snippet src (· = i) t'
  proper : ∀ ev ∈ trace, ev.Proper

/-- What has been said of the handlers stays true if one of them, `i`, comes further. -/
theorem stands_at (hstands : ∀ j, Stands c (snippet j) (own j trace) (s.handlers j))
    (hother : ∀ j, j ≠ i → exchange? j ev = none) {handler : Handler}
    (hhandler : Stands c (snippet i) (own i trace ++ (exchange? i ev).toList) handler) :
    ∀ j, Stands c (snippet j) (own j (trace ++ [ev])) ((s.at i handler).handlers j) := fun j => by
  unfold State.at
  dsimp only
  by_cases hj : j = i
  · subst hj
    rw [own_append, Function.update_self]
    exact hhandler
  · rw [own_append_of_none (hother j hj), Function.update_of_ne hj]
    exact hstands j

/-- One more event in a workspace that has been made. -/
theorem Ready.snoc (hr : Ready h c snippet t src trace s) (hmade : ∀ x, ev ≠ .made x)
    (hcreation : s'.creation = s.creation)
    (hsources : Sources h c snippet src (Wrote c snippet (trace ++ [ev])) s'.tree)
    (hstands : ∀ i, Stands c (snippet i) (own i (trace ++ [ev])) (s'.handlers i))
    (hstarted : ∀ i t', ev = .started i t' → Sources h c snippet src (· = i) t')
    (hproper : ev.Proper) :
    Ready h c snippet t src (trace ++ [ev]) s' where
  creation := hcreation.trans hr.creation
  ok := hr.ok
  made := by
    rw [← hr.made]
    unfold Handlers.made
    rw [List.filterMap_append]
    cases ev with
    | made x => exact absurd rfl (hmade x)
    | _ => exact List.append_nil _
  after before ev' rest heq hof := by
    rcases cut_append_singleton heq with ⟨rest', htrace⟩ | ⟨rfl, -⟩
    · exact hr.after before ev' rest' htrace hof
    · exact hr.made
  sources := hsources
  stands := hstands
  started i t' hmem := by
    rcases List.mem_append.1 hmem with hmem | hmem
    · exact hr.started i t' hmem
    · exact hstarted i t' (List.mem_singleton.1 hmem).symm
  proper := List.forall_mem_append.2 ⟨hr.proper, List.forall_mem_singleton.2 hproper⟩

/-- One step in a workspace that has been made. -/
theorem Ready.step (hinj : ∀ i j, (snippet i).id = (snippet j).id → (snippet i).text = (snippet j).text)
    (hr : Ready h c snippet t src trace s) (hstep : Step h c snippet trace s ev s') :
    Ready h c snippet t src (trace ++ [ev]) s' := by
  -- Of the calls of handlers, only one that writes changes what has been written.
  have hkept : (∀ j x, exchange? j ev = some x → ¬ ∃ path content, x.1 = .write path content) →
      Sources h c snippet src (Wrote c snippet (trace ++ [ev])) s.tree := fun hev =>
    hr.sources.mono fun j hj => hj.of_append.resolve_right fun hx => hev j _ hx ⟨_, _, rfl⟩
  cases hstep with
  | make hask =>
    rw [hr.creation] at hask
    cases hask
  | @enter i w hwait hdone =>
    rw [hr.creation] at hdone
    obtain rfl := Except.ok.inj (Plan.done.inj hdone)
    have hstands := hr.stands i
    rw [hwait] at hstands
    refine hr.snoc nofun rfl (hkept nofun) (stands_at hr.stands (fun _ _ => rfl) ?_) nofun
      trivial
    rw [hstands.of_awaiting]
    exact .working (.refl _)
  | fail hwait hdone =>
    rw [hr.creation] at hdone
    cases hdone
  | @ask i call next hworking hnot =>
    have hstands := hr.stands i
    rw [hworking] at hstands
    have hfollows := hstands.of_working
    refine hr.snoc nofun rfl ?_ (stands_at hr.stands (fun j hj => (exchange?_eq_none_of_ne hj).1) ?_)
      nofun hnot
    · change Sources h c snippet src _ (h.answer s.tree call).2
      rcases call_of_follows hfollows with ⟨-, rfl⟩ | ⟨-, hlooks | hstarts⟩
      · refine (hr.sources.write hinj i).mono fun j hj => hj.of_append.imp_right fun hx => ?_
        rcases exchange?_eq_some_iff.1 hx with hx | hx
        · obtain ⟨rfl, hx⟩ := Event.asked.inj hx
          exact ⟨rfl, eq_of_heq (Sigma.mk.inj hx).2⟩
        · cases hx
      · rw [hlooks.answer]
        refine hkept fun j x hx ⟨path, content, hcall⟩ => ?_
        rcases exchange?_eq_some_iff.1 hx with hx | hx <;> cases hx
        dsimp only at hcall
        rw [hcall] at hlooks
        exact hlooks
      · exact absurd hstarts hnot
    · rw [exchange?_eq_some_iff.2 (Or.inl rfl)]
      exact .working (hfollows.snoc _)
  | @start i program directory limit next hworking =>
    have hstands := hr.stands i
    rw [hworking] at hstands
    have hfollows := hstands.of_working
    refine hr.snoc nofun rfl (hkept nofun) (stands_at hr.stands (fun _ _ => rfl) ?_)
      (fun j t' hstarted => ?_) trivial
    · rw [show exchange? i (.started i s.tree) = none from rfl, Option.toList_none, List.append_nil]
      exact .building hfollows
    · cases hstarted
      refine hr.sources.mono fun j hj => ?_
      subst hj
      rcases call_of_follows hfollows with ⟨-, hcall⟩ | ⟨hwrote, -⟩
      · cases hcall
      · exact hwrote
  | @stop i program directory limit next answer hbuilding =>
    have hstands := hr.stands i
    rw [hbuilding] at hstands
    refine hr.snoc nofun rfl (hkept ?_) (stands_at hr.stands
      (fun j hj => (exchange?_eq_none_of_ne hj).2) ?_) nofun trivial
    · rintro j x hx ⟨path, content, hcall⟩
      rcases exchange?_eq_some_iff.1 hx with hx | hx <;> cases hx
      cases hcall
    · rw [exchange?_eq_some_iff.2 (Or.inr rfl)]
      exact .working (hstands.of_building.snoc answer)
  | @finish i r hworking =>
    have hstands := hr.stands i
    rw [hworking] at hstands
    refine hr.snoc nofun rfl (hkept nofun) (stands_at hr.stands (fun _ _ => rfl) ?_) nofun
      trivial
    rw [show exchange? i (.returned i r) = none from rfl, Option.toList_none, List.append_nil]
    exact .returned hstands.of_working.done
  | @change j before t' hstarted hkeeps =>
    exact hr.snoc nofun rfl ((hkept nofun).change hkeeps)
      (fun j => by rw [own_append_of_none rfl]; exact hr.stands j) nofun trivial

/-! ## Everything that can happen -/

/-- The workspace could not be made, and handlers may have got the error. -/
structure Failed (h : Host) (c : Config) (t : FileTree) (e : Error) (trace : List (Event ι))
    (s : State ι) : Prop where
  creation : s.creation = .done (.error e)
  error : ((Workspace.create c).run h t).1 = .error e
  made : made trace = (Workspace.create c).log h t
  events : ∀ ev ∈ trace, ¬ ev.OfHandler
  handlers : ∀ i, s.handlers i = .awaiting ∨ s.handlers i = .returned (.error e)

/-- The workspace is being made, and the handlers wait. -/
structure Making (h : Host) (c : Config) (t : FileTree) (trace : List (Event ι)) (s : State ι) :
    Prop where
  handlers : ∀ i, s.handlers i = .awaiting
  events : ∀ ev ∈ trace, ∃ x, ev = .made x
  log : made trace ++ s.creation.log h s.tree = (Workspace.create c).log h t
  run : s.creation.run h s.tree = (Workspace.create c).run h t

/-- How far a run has come. -/
def Stage (h : Host) (c : Config) (snippet : ι → Snippet) (t : FileTree) (trace : List (Event ι))
    (s : State ι) : Prop :=
  Making h c t trace s ∨ (∃ e, Failed h c t e trace s) ∨ ∃ src, Ready h c snippet t src trace s

/-- A workspace that has been made is new. -/
def MadeNew (h : Host) (c : Config) (t : FileTree) : Prop :=
  ∀ w, ((Workspace.create c).run h t).1 = .ok w → w = ⟨c.root⟩ ∧
    ∃ m p, Leads ((Workspace.create c).run h t).2 h.current c.root m p ∧
      Workspace.Shows p (some ⟨c.solc, []⟩) ((Workspace.create c).run h t).2

theorem Making.own_eq_nil (hm : Making h c t trace s) (i : ι) : own i trace = [] :=
  List.filterMap_eq_nil_iff.2 fun ev hev => by
    obtain ⟨x, rfl⟩ := hm.events ev hev
    rfl

/-- When the task is done, the workspace has been made or could not be made. -/
theorem Stage.settled (hnew : MadeNew h c t) (hs : Stage h c snippet t trace s)
    {r : Except Error Workspace} (hdone : s.creation = .done r) :
    (∃ e, Failed h c t e trace s) ∨ ∃ src, Ready h c snippet t src trace s := by
  rcases hs with hm | hs
  · have hrun := hm.run
    have hlog := hm.log
    rw [hdone] at hrun hlog
    change (r, s.tree) = _ at hrun
    rw [show Plan.log h (.done r) s.tree = [] from rfl, List.append_nil] at hlog
    have hevents : ∀ ev ∈ trace, ¬ ev.OfHandler := fun ev hev hof => by
      obtain ⟨x, rfl⟩ := hm.events ev hev
      exact hof
    cases r with
    | error e => exact Or.inl ⟨e, hdone, by rw [← hrun], hlog, hevents, fun i => Or.inl (hm.handlers i)⟩
    | ok w =>
      have hok : ((Workspace.create c).run h t).1 = .ok w := by rw [← hrun]
      obtain ⟨rfl, m, p, hleads, hshows⟩ := hnew w hok
      refine Or.inr ⟨Workspace.sourcePlace p, hdone, hok, hlog, fun before ev rest heq hof => ?_, ?_,
        fun i => ?_, fun i t' hmem => ?_, fun ev hev => ?_⟩
      · exact absurd hof (hevents ev (by rw [heq]; exact List.mem_append_right _ List.mem_cons_self))
      · rw [show s.tree = ((Workspace.create c).run h t).2 by rw [← hrun]]
        refine sources_of_shows hleads hshows (Workspace.pathFault?_of_create hok) fun i hwrote => ?_
        unfold Wrote at hwrote
        rw [hm.own_eq_nil i] at hwrote
        exact absurd hwrote List.not_mem_nil
      · rw [hm.own_eq_nil i, hm.handlers i]
        exact .awaiting
      · exact absurd trivial (hevents _ hmem)
      · obtain ⟨x, rfl⟩ := hm.events ev hev
        trivial
  · exact hs

/-- One step of a run. -/
theorem Stage.step (hnew : MadeNew h c t)
    (hinj : ∀ i j, (snippet i).id = (snippet j).id → (snippet i).text = (snippet j).text)
    (hs : Stage h c snippet t trace s) (hstep : Step h c snippet trace s ev s') :
    Stage h c snippet t (trace ++ [ev]) s' := by
  by_cases hdone : ∃ r, s.creation = .done r
  · obtain ⟨r, hdone⟩ := hdone
    rcases hs.settled hnew hdone with ⟨e, hf⟩ | ⟨src, hr⟩
    · have hwaits : ∀ i, (∀ rest, s.handlers i ≠ .working rest) ∧
          ∀ program directory limit next, s.handlers i ≠ .building program directory limit next :=
        fun i => by rcases hf.handlers i with hi | hi <;> rw [hi] <;> exact ⟨nofun, nofun⟩
      cases hstep with
      | make hask =>
        rw [hf.creation] at hask
        cases hask
      | enter _ hmade =>
        rw [hf.creation] at hmade
        cases hmade
      | @fail i e' _ herror =>
        rw [hf.creation] at herror
        cases herror
        refine Or.inr (Or.inl ⟨e, hf.creation, hf.error, ?_, ?_, fun j => ?_⟩)
        · rw [← hf.made]
          unfold made
          rw [List.filterMap_append]
          exact List.append_nil _
        · exact List.forall_mem_append.2 ⟨hf.events, List.forall_mem_singleton.2 id⟩
        · unfold State.at
          dsimp only
          by_cases hj : j = i
          · rw [hj, Function.update_self]
            exact Or.inr rfl
          · rw [Function.update_of_ne hj]
            exact hf.handlers j
      | ask hworking | start hworking | finish hworking => exact absurd hworking ((hwaits _).1 _)
      | stop _ hbuilding => exact absurd hbuilding ((hwaits _).2 _ _ _ _)
      | change hstarted => exact absurd trivial (hf.events _ hstarted)
    · exact Or.inr (Or.inr ⟨src, hr.step hinj hstep⟩)
  · rcases hs with hm | ⟨e, hf⟩ | ⟨src, hr⟩
    · have hwaits := hm.handlers
      cases hstep with
      | @make call next hask =>
        have hlog := hm.log
        have hrun := hm.run
        rw [hask] at hlog hrun
        refine Or.inl ⟨hwaits, ?_, ?_, hrun⟩
        · exact List.forall_mem_append.2 ⟨hm.events, List.forall_mem_singleton.2 ⟨_, rfl⟩⟩
        · rw [← hlog]
          unfold made
          rw [List.filterMap_append, List.append_assoc]
          rfl
      | enter _ hmade | fail _ hmade => exact absurd ⟨_, hmade⟩ hdone
      | ask hworking | start hworking | finish hworking | stop _ hworking =>
        rw [hwaits] at hworking
        cases hworking
      | change hstarted =>
        obtain ⟨x, hx⟩ := hm.events _ hstarted
        cases hx
    · exact absurd ⟨_, hf.creation⟩ hdone
    · exact absurd ⟨_, hr.creation⟩ hdone

theorem stage_of_runs (hnew : MadeNew h c t)
    (hinj : ∀ i j, (snippet i).id = (snippet j).id → (snippet i).text = (snippet j).text)
    (hruns : Runs h c snippet t trace s) : Stage h c snippet t trace s := by
  induction hruns with
  | start => exact Or.inl ⟨fun _ => rfl, List.forall_mem_nil _, rfl, rfl⟩
  | step _ hstep ih => exact ih.step hnew hinj hstep

/-! ## What handlers get -/

/-- Two calls of a handler that follow each other, with what has happened between them. -/
theorem exists_of_own {first rest : List Exchange} {x y : Exchange}
    (hown : own i trace = first ++ x :: y :: rest) :
    ∃ before ev between ev' after, trace = before ++ ev :: (between ++ ev' :: after) ∧
      exchange? i ev = some x ∧ exchange? i ev' = some y := by
  obtain ⟨before, more, rfl, -, hmore⟩ := List.filterMap_eq_append_iff.1 hown
  obtain ⟨skipped, ev, more', rfl, -, hx, hmore'⟩ := List.filterMap_eq_cons_iff.1 hmore
  obtain ⟨between, ev', after, rfl, -, hy, -⟩ := List.filterMap_eq_cons_iff.1 hmore'
  exact ⟨before ++ skipped, ev, between, ev', after, (List.append_assoc _ _ _).symm, hx, hy⟩

/-- A snippet that has been compiled got the artifact that was read once its program had ended. -/
theorem Ready.artifact (hr : Ready h c snippet t src trace s) {compiled : Compiled}
    (hreturned : s.handlers i = .returned (.ok compiled)) :
    compiled.id = (snippet i).id ∧ ∃ first between last program outcome bytes text,
      trace = first ++ .ended i ⟨.execute program c.root c.timeout, .ok outcome⟩ ::
        (between ++ .asked i ⟨.read (Workspace.artifactPath ⟨c.root⟩ (snippet i).id), .ok bytes⟩ ::
          last) ∧
      Text.decode? bytes = some text ∧
      Artifact.parse (snippet i).id (Workspace.artifactPath ⟨c.root⟩ (snippet i).id) text =
        .ok compiled.artifact := by
  have hstands := hr.stands i
  rw [hreturned] at hstands
  obtain ⟨hid, program, outcome, bytes, text, hlog, hdecoded, hparsed⟩ :=
    Run.calls_of_compiled hstands.of_returned
  have hown : own i trace = [_, _] ++ _ :: _ :: [] := hlog
  obtain ⟨first, ev, between, ev', last, htrace, hended, hread⟩ := exists_of_own hown
  have hproper : ev.Proper ∧ ev'.Proper := by
    rw [htrace] at hr
    exact ⟨hr.proper _ (List.mem_append_right _ List.mem_cons_self), hr.proper _
      (List.mem_append_right _ (List.mem_cons_of_mem _ (List.mem_append_right _ List.mem_cons_self)))⟩
  refine ⟨hid, first, between, last, program, outcome, bytes, text, ?_, hdecoded, hparsed⟩
  rcases exchange?_eq_some_iff.1 hended with rfl | rfl
  · exact absurd trivial hproper.1
  rcases exchange?_eq_some_iff.1 hread with rfl | rfl
  · exact htrace
  · exact hproper.2.elim

/-- What holds of a workspace that handlers share. -/
structure Shared (h : Host) (c : Config) (snippet : ι → Snippet) (t : FileTree)
    (trace : List (Event ι)) (s : State ι) : Prop where
  /-- The workspace is made at most once, -/
  once : made trace <+: (Workspace.create c).log h t
  /-- and before it has been made no handler does anything. -/
  after : ∀ before ev rest, trace = before ++ ev :: rest → ev.OfHandler →
    made before = (Workspace.create c).log h t ∧
      ((Workspace.create c).run h t).1 = .ok ⟨c.root⟩
  /-- If it could not be made, no handler does anything, and what each gets is the error. -/
  failed : ∀ e, s.creation = .done (.error e) →
    ((Workspace.create c).run h t).1 = .error e ∧ (∀ ev ∈ trace, ¬ ev.OfHandler) ∧
      ∀ i, s.handlers i = .returned (.error e) ∨
        s.handlers i = .awaiting ∧
          Step h c snippet trace s (.returned i (.error e)) (s.at i (.returned (.error e)))
  /-- Where a program is started for a handler, its text is in its source file, and all that is in
  the directory of the sources are files with the texts of handlers. -/
  started : ∀ i t', .started i t' ∈ trace →
    Plan.textAt h t' (Workspace.sourcePath ⟨c.root⟩ (snippet i).id) = .ok (snippet i).text ∧
      ∃ src, t'.entryAt h.current true (Workspace.sourceDirectory ⟨c.root⟩) = .ok (src, .directory) ∧
        ∀ q e, Below src q → t'.get? q = some e →
          ∃ j executable, q = src ++ [(snippet j).id.sourceFile] ∧
            e = .file (snippet j).text.toUTF8 executable
  /-- An artifact has been read from its file once the program of the handler had ended. -/
  artifact : ∀ i compiled, s.handlers i = .returned (.ok compiled) →
    compiled.id = (snippet i).id ∧ ∃ first between last program outcome bytes text,
      trace = first ++ .ended i ⟨.execute program c.root c.timeout, .ok outcome⟩ ::
        (between ++ .asked i ⟨.read (Workspace.artifactPath ⟨c.root⟩ (snippet i).id), .ok bytes⟩ ::
          last) ∧
      Text.decode? bytes = some text ∧
      Artifact.parse (snippet i).id (Workspace.artifactPath ⟨c.root⟩ (snippet i).id) text =
        .ok compiled.artifact

theorem Making.shared (hm : Making h c t trace s) (hnot : ∀ e, s.creation ≠ .done (.error e)) :
    Shared h c snippet t trace s where
  once := by
    rw [← hm.log]
    exact List.prefix_append _ _
  after before ev rest heq hof := by
    obtain ⟨x, rfl⟩ := hm.events ev (by rw [heq]; exact List.mem_append_right _ List.mem_cons_self)
    exact hof.elim
  failed e he := absurd he (hnot e)
  started i t' hmem := by
    obtain ⟨x, hx⟩ := hm.events _ hmem
    cases hx
  artifact i compiled hreturned := by
    rw [hm.handlers] at hreturned
    cases hreturned

theorem Failed.shared {e : Error} (hf : Failed h c t e trace s) : Shared h c snippet t trace s where
  once := by rw [hf.made]
  after before ev rest heq hof :=
    absurd hof (hf.events ev (by rw [heq]; exact List.mem_append_right _ List.mem_cons_self))
  failed e' he' := by
    obtain rfl : e = e' := Except.error.inj (Plan.done.inj (hf.creation.symm.trans he'))
    refine ⟨hf.error, hf.events, fun i => ?_⟩
    rcases hf.handlers i with hwait | hreturned
    · exact Or.inr ⟨hwait, .fail hwait hf.creation⟩
    · exact Or.inl hreturned
  started i t' hmem := absurd trivial (hf.events _ hmem)
  artifact i compiled hreturned := by
    rcases hf.handlers i with hi | hi <;> rw [hi] at hreturned <;> cases hreturned

theorem Ready.shared (hr : Ready h c snippet t src trace s) : Shared h c snippet t trace s where
  once := by rw [hr.made]
  after before ev rest heq hof := ⟨hr.after before ev rest heq hof, hr.ok⟩
  failed e he := by
    rw [hr.creation] at he
    cases he
  started i t' hmem := by
    have hs := hr.started i t' hmem
    exact ⟨hs.textAt rfl, src, hs.there, hs.only⟩
  artifact i compiled hreturned := hr.artifact hreturned

/-- Whatever has happened, handlers whose ids tell their texts share a workspace at a root that denotes
a place. -/
theorem shared_of_runs {m : Nat} {d : Place} {name : String} (hwf : t.WellFormed)
    (hroot : Denotes t h.current c.root m d name)
    (hslash : Workspace.SlashOfDirectory t c.root (d ++ [name]))
    (hinj : ∀ i j, (snippet i).id = (snippet j).id → (snippet i).text = (snippet j).text)
    (hruns : Runs h c snippet t trace s) : Shared h c snippet t trace s := by
  have hnew : MadeNew h c t := fun w hmade => by
    obtain ⟨hw, hleads, hshows, -⟩ := Workspace.shows_of_create hwf hroot hslash hmade
    exact ⟨hw, m, _, hleads, hshows⟩
  have hstage := stage_of_runs hnew hinj hruns
  by_cases hdone : ∃ r, s.creation = .done r
  · obtain ⟨r, hdone⟩ := hdone
    rcases hstage.settled hnew hdone with ⟨e, hf⟩ | ⟨src, hr⟩
    · exact hf.shared
    · exact hr.shared
  · rcases hstage with hm | ⟨e, hf⟩ | ⟨src, hr⟩
    · exact hm.shared fun e he => hdone ⟨_, he⟩
    · exact hf.shared
    · exact hr.shared

/-! ## Two handlers -/

/-- Where the sources of the workspace `w` are its own. -/
def OwnSources (t : FileTree) : Prop :=
  t.entryAt [] true "w/src" = .ok (["w", "src"], .directory)

instance (t : FileTree) : Decidable (OwnSources t) :=
  inferInstanceAs (Decidable (_ = _))

/-- A host whose compiler leaves the sources. -/
def careful : Host where
  current := []
  search := ["/bin"]
  execute := fun program directory limit t =>
    if OwnSources t ∧ OwnSources (Run.judge.execute program directory limit t).2 then
      Run.judge.execute program directory limit t
    else (.error .notFound, t)

theorem sparesSources_careful : SparesSources careful (Run.rooted "w") := by
  intro program directory limit t p hthere
  change (if OwnSources t ∧ OwnSources (Run.judge.execute program directory limit t).2 then
      Run.judge.execute program directory limit t
    else (.error .notFound, t) : Except Fault Outcome × FileTree).2.entryAt [] true "w/src" = _ ∧
    ∀ q, _ → (if OwnSources t ∧ OwnSources (Run.judge.execute program directory limit t).2 then
      Run.judge.execute program directory limit t
    else (.error .notFound, t) : Except Fault Outcome × FileTree).2.get? q = _
  by_cases hown : OwnSources t ∧ OwnSources (Run.judge.execute program directory limit t).2
  · rw [if_pos hown]
    obtain ⟨rfl, -⟩ := Prod.mk.inj (Except.ok.inj (hown.1.symm.trans hthere))
    refine ⟨hown.2, fun q hq => ?_⟩
    change (if Run.acceptsAll t then _ else _ : Except Fault Outcome × FileTree).2.get? q = _
    by_cases haccepts : Run.acceptsAll t = true
    · rw [if_pos haccepts]
      refine Run.get?_rebuilt fun hdist => ?_
      obtain ⟨rest, rfl⟩ := hdist
      obtain ⟨rest', hrest⟩ := hq
      simp at hrest
    · rw [if_neg haccepts]
  · rw [if_neg hown]
    exact ⟨hthere, fun _ _ => rfl⟩

/-- A valid snippet and one that is not. -/
def goodOrBad : Bool → Snippet
  | true => ⟨"good", by decide +kernel⟩
  | false => ⟨"bad", by decide +kernel⟩

theorem goodOrBad_inj (i j : Bool) (h : (goodOrBad i).id = (goodOrBad j).id) :
    (goodOrBad i).text = (goodOrBad j).text := by
  have hid : Snippet.Id.ofText "good" ≠ Snippet.Id.ofText "bad" := by decide +kernel
  cases i <;> cases j <;> first | rfl | exact absurd h hid | exact absurd h hid.symm

/-- The valid one is compiled while the other waits. -/
theorem shared_good : ∃ trace s compiled,
    Runs careful (Run.rooted "w") goodOrBad Run.installed trace s ∧
      s.handlers true = .returned (.ok compiled) ∧
      Shared careful (Run.rooted "w") goodOrBad Run.installed trace s := by
  obtain ⟨trace, s, hruns, -, hreturned⟩ :=
    runs_compile sparesSources_careful goodOrBad Run.installed true
  have hok : (((Run.start (Run.rooted "w")).compile "good").run careful
      Run.installed).1.1.isOk = true := by
    decide +kernel
  obtain ⟨compiled, hcompiled⟩ : ∃ compiled,
      (((Run.start (Run.rooted "w")).compile "good").run careful Run.installed).1.1 =
        .ok compiled := by
    generalize (((Run.start (Run.rooted "w")).compile "good").run careful Run.installed).1.1 = r at hok
    cases r with
    | error e => cases hok
    | ok compiled => exact ⟨compiled, rfl⟩
  have hroot : Denotes Run.installed [] "w" maxLinks [] "w" :=
    (Workspace.names_name Run.named_w rfl).denotes Run.wellFormed_installed rfl
  have hslash : endsInSlash "w" = false := by decide
  exact ⟨trace, s, compiled, hruns, hreturned.trans (congrArg Handler.returned hcompiled),
    shared_of_runs (h := careful) (c := Run.rooted "w") Run.wellFormed_installed hroot
      (fun htrue => absurd (hslash.symm.trans htrue) Bool.false_ne_true) goodOrBad_inj hruns⟩

/-! ## A root that leads through itself -/

/-- A host whose compiler is in `bin`. -/
def equipped : Host :=
  { Workspace.bare with search := ["/bin"] }

/-- An earlier workspace with a link in it, a project, and a compiler. -/
def windingInstalled : FileTree :=
  ⟨Workspace.winding.entries ++ Run.installed.entries⟩

theorem not_blank_declared : Text.isBlank "contract C {}" = false := by
  decide +kernel

/-- A snippet. -/
def declared (_ : Unit) : Snippet :=
  ⟨"contract C {}", not_blank_declared⟩

theorem names_throughItself_installed :
    ∃ m, Names windingInstalled [] Workspace.throughItself m ["d"] "w" := by
  have hwalk : windingInstalled.walk true maxLinks (startOf [] Workspace.throughItself)
      ["d", "w", "x", "..", "..", ".."] = .ok (.entry ["d"] .directory) := by
    decide +kernel
  obtain ⟨m, hreach⟩ := reaches_of_walk hwalk
  exact ⟨m, by decide +kernel, by decide, by decide, _, by decide +kernel, hreach⟩

/-- The tree with the new workspace, which has the source of the project. -/
def intrudedTree : FileTree :=
  ⟨[(["d"], .directory), (["d", "w"], .directory), (["d", "a"], .directory),
    (["d", "a", "b"], .directory), (["d", "a", "b", "c"], .directory),
    (["w"], .directory), (["w", "src"], .directory),
    (["w", "src", "old.sol"], .file "contract Old {}".toUTF8 false),
    (["bin"], .directory), (["bin", "forge"], .file ByteArray.empty true),
    (["d", "w", "x"], .directory),
    (["w", "foundry.toml"], .file (Manifest.ofVersion Manifest.defaultSolc).render.toUTF8 false)]⟩

/-- What the writing of a snippet answers there, and the tree with the snippet. -/
def intrudedWrite : Except Fault Unit × FileTree :=
  intrudedTree.keeping (intrudedTree.write [] (Workspace.sourcePath ⟨Workspace.throughItself⟩
    (declared ()).id) (declared ()).text.toUTF8)

theorem create_intruded : (Workspace.create (Workspace.chosen Workspace.throughItself)).run equipped
    windingInstalled = (.ok ⟨Workspace.throughItself⟩, intrudedTree) := by
  have hok : ((Workspace.create (Workspace.chosen Workspace.throughItself)).run equipped
      windingInstalled).1 = .ok ⟨Workspace.throughItself⟩ := by
    decide +kernel
  have hentries : ((Workspace.create (Workspace.chosen Workspace.throughItself)).run equipped
      windingInstalled).2.entries = intrudedTree.entries := by
    decide +kernel
  generalize (Workspace.create (Workspace.chosen Workspace.throughItself)).run equipped
    windingInstalled = result at hok hentries ⊢
  exact Prod.ext hok (congrArg FileTree.mk hentries)

/-- The root names the place of an earlier workspace in a directory. Once this is emptied, the root
leads to the project, and the compiler is started with the source of the project. -/
theorem started_with_foreign_source :
    (∃ m, Names windingInstalled [] Workspace.throughItself m ["d"] "w") ∧
      ∃ trace s t', Runs equipped (Workspace.chosen Workspace.throughItself) declared windingInstalled
          trace s ∧ .started () t' ∈ trace ∧
        t'.entryAt [] true (Workspace.sourceDirectory ⟨Workspace.throughItself⟩) =
          .ok (["w", "src"], .directory) ∧
        t'.get? ["w", "src", "old.sol"] = some (.file "contract Old {}".toUTF8 false) ∧
        ¬ Shared equipped (Workspace.chosen Workspace.throughItself) declared windingInstalled
          trace s := by
  have hwrite : intrudedWrite.1 = .ok () := by decide +kernel
  have hlocate : intrudedWrite.2.locate equipped.current equipped.search
      (Workspace.chosen Workspace.throughItself).executable = some "/bin/forge" := by
    decide +kernel
  have hsources : intrudedWrite.2.entryAt [] true (Workspace.sourceDirectory ⟨Workspace.throughItself⟩) =
      .ok (["w", "src"], .directory) := by
    decide +kernel
  have hold : intrudedWrite.2.get? ["w", "src", "old.sol"] =
      some (.file "contract Old {}".toUTF8 false) := by
    decide +kernel
  have hname : ["old.sol"] ≠ [(declared ()).id.sourceFile] := by decide +kernel
  have hwritten : equipped.answer intrudedTree (Run.writing ⟨Workspace.throughItself⟩ (declared ())) =
      ((.ok () : Except Fault Unit), intrudedWrite.2) :=
    Prod.fst_eq_iff.1 hwrite
  obtain ⟨trace, s, hruns, htree, hworking⟩ := runs_entered declared create_intruded ()
  rw [← htree] at hwritten
  obtain ⟨trace', s', hruns', hstarted⟩ := hruns.started hworking hwritten hlocate
  refine ⟨names_throughItself_installed, trace', s', intrudedWrite.2, hruns', hstarted, hsources, hold,
    fun hshared => ?_⟩
  obtain ⟨-, src, hthere, honly⟩ := hshared.started () intrudedWrite.2 hstarted
  obtain ⟨rfl, -⟩ := Prod.mk.inj (Except.ok.inj (hsources.symm.trans hthere))
  obtain ⟨_, executable, hplace, -⟩ := honly _ _ (below_append ["w", "src"] "old.sol" []) hold
  exact hname (List.append_cancel_left hplace)

end EmbeddedSolidity.Handlers
