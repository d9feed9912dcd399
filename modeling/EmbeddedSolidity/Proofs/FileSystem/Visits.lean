import EmbeddedSolidity.FileSystem.Search
import EmbeddedSolidity.Proofs.FileSystem.Apart

/-!
# Places that are looked at

Following the names of a path looks at some places, and at no others : in a tree that has the same
entries at these, the path leads to the same. Behind a directory that holds no links, names without
dots do not lead out of it.

* `FileTree.visits` : the places that a walk looks at;
* `FileTree.walk_congr`, `FileTree.entryAt_congr` : where nothing changes that is looked at;
* `FileTree.walk_within` : names below a place without links.
-/

namespace EmbeddedSolidity.FileSystem

/-- The place of what is found. -/
def Found.place : Found → Place
  | .entry q _ | .free q _ => q

namespace FileTree

/-- The places that are looked at when names are followed from a directory; `visit` goes on from a
directory behind a link. -/
def visitNames (t : FileTree) (follow : Bool) (visit : Place → List String → List Place) :
    Place → List String → List Place
  | _, [] => []
  | here, name :: rest =>
    if name = "" ∨ name = "." then visitNames t follow visit here rest
    else if name = ".." then visitNames t follow visit here.dropLast rest
    else if maxName < name.utf8ByteSize then []
    else
      let there := here ++ [name]
      match t.get? there with
      | none => [there, here]
      | some .directory => there :: visitNames t follow visit there rest
      | some (.file _ _) => [there]
      | some (.link target) =>
        there ::
          if rest.isEmpty && !follow then [] else visit (startOf here target) (namesOf target ++ rest)

/-- The places that are looked at when names are followed through at most a number of links. -/
def visits (t : FileTree) (follow : Bool) : Nat → Place → List String → List Place
  | 0 => t.visitNames follow fun _ _ => []
  | n + 1 => t.visitNames follow (t.visits follow n)

/-- The places that are looked at when a path is resolved. -/
def visitsOf (t : FileTree) (current : Place) (follow : Bool) (path : String) : List Place :=
  match pathFault? path with
  | some _ => []
  | none => t.visits follow maxLinks (startOf current path) (namesOf path)

variable {t t' : FileTree} {current here p d : Place} {path name : String} {rest names : List String}
  {follow : Bool} {n m : Nat}

/-! ## Steps -/

theorem visits_skip (h : name = "" ∨ name = ".") :
    t.visits follow n here (name :: rest) = t.visits follow n here rest := by
  cases n <;> simp only [visits, visitNames, if_pos h]

theorem visits_up : t.visits follow n here (".." :: rest) = t.visits follow n here.dropLast rest := by
  cases n <;> simp [visits, visitNames]

/-- What is looked at from a plain name on. -/
theorem visits_plain (h : Plain name) :
    t.visits follow n here (name :: rest) =
      match t.get? (here ++ [name]) with
      | none => [here ++ [name], here]
      | some .directory => (here ++ [name]) :: t.visits follow n (here ++ [name]) rest
      | some (.file _ _) => [here ++ [name]]
      | some (.link target) =>
        (here ++ [name]) ::
          if rest.isEmpty && !follow then []
          else
            match n with
            | 0 => []
            | n + 1 => t.visits follow n (startOf here target) (namesOf target ++ rest) := by
  obtain ⟨h1, h2, h3, h4⟩ := h
  have hskip : ¬ (name = "" ∨ name = ".") := not_or.2 ⟨h1, h2⟩
  have hlong : ¬ maxName < name.utf8ByteSize := Nat.not_lt.2 h4
  cases n <;> simp only [visits, visitNames, if_neg hskip, if_neg h3, if_neg hlong]

/-! ## Where nothing changes -/

/-- If nothing changes at the places that a walk looks at, it leads to the same, and it looks at the
same places. -/
theorem walk_congr (follow : Bool) : ∀ (n : Nat) (here : Place) (names : List String),
    (∀ q ∈ t.visits follow n here names, t'.get? q = t.get? q) →
      t'.walk follow n here names = t.walk follow n here names ∧
        t'.visits follow n here names = t.visits follow n here names := by
  intro n
  induction n using Nat.strongRecOn with
  | ind n ihn =>
    intro here names
    induction names generalizing here with
    | nil => exact fun _ => ⟨by rw [walk_nil, walk_nil], by cases n <;> rfl⟩
    | cons name rest ih =>
      intro hsame
      rcases name_cases name with hskip | rfl | hplain | ⟨h1, h2, h3⟩
      · rw [visits_skip hskip] at hsame
        rw [walk_skip hskip, walk_skip hskip, visits_skip hskip, visits_skip hskip]
        exact ih here hsame
      · rw [visits_up] at hsame
        rw [walk_up, walk_up, visits_up, visits_up]
        exact ih _ hsame
      · rw [visits_plain hplain] at hsame
        rw [walk_plain hplain, walk_plain hplain, visits_plain hplain, visits_plain hplain]
        split at hsame
        · next hthere =>
          rw [List.forall_mem_cons, List.forall_mem_singleton] at hsame
          rw [hsame.1, hsame.2, hthere]
          exact ⟨rfl, rfl⟩
        · next hthere =>
          rw [List.forall_mem_cons] at hsame
          rw [hsame.1, hthere]
          obtain ⟨hwalk, hvisits⟩ := ih _ hsame.2
          exact ⟨hwalk, congrArg _ hvisits⟩
        · next hthere =>
          rw [hsame _ (List.mem_singleton_self _), hthere]
          exact ⟨rfl, rfl⟩
        · next target hthere =>
          rw [List.forall_mem_cons] at hsame
          obtain ⟨hhere, hbehind⟩ := hsame
          rw [hhere, hthere]
          dsimp only
          split_ifs at hbehind ⊢ with hlast
          · exact ⟨rfl, rfl⟩
          · cases n with
            | zero => exact ⟨rfl, rfl⟩
            | succ n =>
              obtain ⟨hwalk, hvisits⟩ := ihn n (Nat.lt_succ_self n) _ _ hbehind
              exact ⟨hwalk, congrArg _ hvisits⟩
      · rw [walk_tooLong h1 h2 h3, walk_tooLong h1 h2 h3]
        exact ⟨rfl, by cases n <;> simp only [visits, visitNames, if_neg h1, if_neg h2, if_pos h3]⟩

/-- If nothing changes at the places that are looked at, a path leads to the same. -/
theorem resolve_congr (h : ∀ q ∈ t.visitsOf current follow path, t'.get? q = t.get? q) :
    t'.resolve current follow path = t.resolve current follow path ∧
      t'.visitsOf current follow path = t.visitsOf current follow path := by
  unfold resolve resolveNames
  unfold visitsOf at h ⊢
  cases hfault : pathFault? path with
  | some fault => exact ⟨rfl, rfl⟩
  | none =>
    rw [hfault] at h
    exact walk_congr follow _ _ _ h

theorem entryAt_of_resolve_eq
    (h : t'.resolve current follow path = t.resolve current follow path) :
    t'.entryAt current follow path = t.entryAt current follow path := by
  unfold entryAt
  rw [h]

theorem entryAt_congr (h : ∀ q ∈ t.visitsOf current follow path, t'.get? q = t.get? q) :
    t'.entryAt current follow path = t.entryAt current follow path :=
  entryAt_of_resolve_eq (resolve_congr h).1

/-- If nothing changes at the places that are looked at, the same executable is found. -/
theorem locate_congr {search : List String}
    (h : ∀ candidate ∈ candidates current search name,
      ∀ q ∈ t.visitsOf current true candidate, t'.get? q = t.get? q) :
    t'.locate current search name = t.locate current search name := by
  have hall : ∀ paths : List String,
      (∀ candidate ∈ paths, ∀ q ∈ t.visitsOf current true candidate, t'.get? q = t.get? q) →
        paths.find? (t'.isExecutable current) = paths.find? (t.isExecutable current) := by
    intro paths
    induction paths with
    | nil => exact fun _ => rfl
    | cons candidate paths ih =>
      intro hsame
      rw [List.forall_mem_cons] at hsame
      have hfirst : t'.isExecutable current candidate = t.isExecutable current candidate := by
        unfold isExecutable
        rw [entryAt_congr hsame.1]
      rw [List.find?_cons, List.find?_cons, hfirst, ih hsame.2]
  exact hall _ h

/-! ## Below a place without links -/

/-- Names without dots that are followed from a directory without links below it. -/
theorem walk_below (hlinks : ∀ q target, p <+: q → t.get? q ≠ some (.link target)) :
    ∀ {here : Place}, p <+: here → ∀ names : List String, (∀ name ∈ names, Plain name ∨ name = "") →
      (∀ q ∈ t.visits follow n here names, p <+: q) ∧
        ∀ r, t.walk follow n here names = .ok r → p <+: r.place := by
  intro here hhere names
  induction names generalizing here with
  | nil =>
    refine fun _ => ⟨by cases n <;> exact List.forall_mem_nil _, fun r hr => ?_⟩
    rw [walk_nil] at hr
    cases hr
    exact hhere
  | cons name rest ih =>
    intro hnames
    rw [List.forall_mem_cons] at hnames
    rcases hnames.1 with hplain | rfl
    · have hthere : p <+: here ++ [name] := hhere.trans (List.prefix_append _ _)
      rw [visits_plain hplain, walk_plain hplain]
      rcases hentry : t.get? (here ++ [name]) with _ | ⟨_ | _ | target⟩
      · refine ⟨List.forall_mem_cons.2 ⟨hthere, List.forall_mem_singleton.2 hhere⟩, fun r hr => ?_⟩
        dsimp only at hr
        split_ifs at hr
        cases hr
        exact hthere
      · obtain ⟨hvisits, hplace⟩ := ih hthere hnames.2
        exact ⟨List.forall_mem_cons.2 ⟨hthere, hvisits⟩, hplace⟩
      · refine ⟨List.forall_mem_singleton.2 hthere, fun r hr => ?_⟩
        dsimp only at hr
        split_ifs at hr
        cases hr
        exact hthere
      · exact absurd hentry (hlinks _ target hthere)
    · rw [visits_skip (Or.inl rfl), walk_skip (Or.inl rfl)]
      exact ih hhere hnames.2

/-- Names without dots that are followed to a place without links at it or below it and on from there
lead to the same in every tree that is the same there. What is found is there as well. -/
theorem walk_within (hname : Plain name)
    (hlinks : ∀ q target, d ++ [name] <+: q → t.get? q ≠ some (.link target))
    (hnames : ∀ name ∈ names, Plain name ∨ name = "")
    (hd : t'.get? d = t.get? d) (hsame : ∀ q, d ++ [name] <+: q → t'.get? q = t.get? q) :
    t'.walk follow m d (name :: names) = t.walk follow m d (name :: names) ∧
      ∀ r, t.walk follow m d (name :: names) = .ok r → d ++ [name] <+: r.place := by
  have hself : d ++ [name] <+: d ++ [name] := List.prefix_rfl
  obtain ⟨hvisits, hplace⟩ : (∀ q ∈ t.visits follow m (d ++ [name]) names, d ++ [name] <+: q) ∧
      ∀ r, t.walk follow m (d ++ [name]) names = .ok r → d ++ [name] <+: r.place :=
    walk_below hlinks hself names hnames
  refine ⟨(walk_congr follow m d _ ?_).1, ?_⟩
  · rw [visits_plain hname]
    split
    · exact List.forall_mem_cons.2 ⟨hsame _ hself, List.forall_mem_singleton.2 hd⟩
    · exact List.forall_mem_cons.2 ⟨hsame _ hself, fun q hq => hsame q (hvisits q hq)⟩
    · exact List.forall_mem_singleton.2 (hsame _ hself)
    · next target hlink => exact absurd hlink (hlinks _ target hself)
  · intro r hr
    rw [walk_plain hname] at hr
    split at hr
    · split_ifs at hr
      cases hr
      exact hself
    · exact hplace r hr
    · split_ifs at hr
      cases hr
      exact hself
    · next target hlink => exact absurd hlink (hlinks _ target hself)

end FileTree

end EmbeddedSolidity.FileSystem
