import EmbeddedSolidity.Scan

/-!
# What a scan visits

An invocation in a source is reached by a route : its number among the invocations of the file, or
a route through the body of an invocation of another macro (`Reached`). The scan visits what can be
reached in the order of the routes, each once (`Visits`), and its bound on the depth is no
restriction, because what is found in a body is smaller than the body (`visits_reachable`).
-/

namespace EmbeddedSolidity.Scan

open Grammar (Invocation)
open Source (sizes)

/-! ## Routes -/

/-- The route leads from the invocations that were found to the invocation. Only the bodies of other
macros are entered, and only those that are lists of expressions. -/
inductive Reached : List Invocation → List Nat → Invocation → Prop where
  | here {found : List Invocation} {k : Nat} {i : Invocation} :
    found[k]? = some i → Reached found [k] i
  | inside {found inner : List Invocation} {k : Nat} {i j : Invocation} {route : List Nat} :
    found[k]? = some i → naming? i.path = none → Grammar.invocationsInside? i.body = some inner →
    Reached inner route j → Reached found (k :: route) j

/-- A visit to an invocation of the macro. -/
abbrev Visit := List Nat × Naming × Invocation

/-- The visits are those to the invocations of the macro that can be reached, in the order of their
routes. -/
structure Visits (found : List Invocation) (visits : List Visit) : Prop where
  mem_iff (route : List Nat) (naming : Naming) (i : Invocation) :
    (route, naming, i) ∈ visits ↔ Reached found route i ∧ naming? i.path = some naming
  ordered : visits.Pairwise fun v w => v.1 < w.1

section Routes

variable {i j : Invocation} {found inner : List Invocation} {k : Nat} {route : List Nat}

theorem not_reached_nil : ¬ Reached [] route j
  | .here h => nomatch h
  | .inside h _ _ _ => nomatch h

theorem not_reached_empty_route : ¬ Reached found [] j :=
  nofun

theorem reached_succ : Reached (i :: found) ((k + 1) :: route) j ↔ Reached found (k :: route) j := by
  constructor
  · intro h
    cases h with
    | here h => exact .here h
    | inside h hpath hbody hinner => exact .inside h hpath hbody hinner
  · intro h
    cases h with
    | here h => exact .here h
    | inside h hpath hbody hinner => exact .inside h hpath hbody hinner

theorem reached_zero :
    Reached (i :: found) (0 :: route) j ↔ (route = [] ∧ j = i) ∨
      (naming? i.path = none ∧ Reached ((Grammar.invocationsInside? i.body).getD []) route j) := by
  constructor
  · intro h
    cases h with
    | here h => exact Or.inl ⟨rfl, (Option.some.inj h).symm⟩
    | inside h hpath hbody hinner =>
      obtain rfl := Option.some.inj h
      refine Or.inr ⟨hpath, ?_⟩
      rw [hbody]
      exact hinner
  · rintro (⟨rfl, rfl⟩ | ⟨hpath, hinner⟩)
    · exact .here rfl
    · cases hbody : Grammar.invocationsInside? i.body with
      | none =>
        rw [hbody] at hinner
        exact absurd hinner not_reached_nil
      | some inner =>
        rw [hbody] at hinner
        exact .inside rfl hpath hbody hinner

end Routes

/-- The visits at and below the first invocation, given those in its body. -/
def below (i : Invocation) (inner : List Visit) : List Visit :=
  match naming? i.path with
  | some naming => [([0], naming, i)]
  | none => inner.map fun v => (0 :: v.1, v.2)

/-- The visit with one more invocation in front. -/
def behind : Visit → Visit
  | (k :: route, x) => ((k + 1) :: route, x)
  | ([], x) => ([], x)

theorem visits_nil : Visits [] [] where
  mem_iff _ _ _ := ⟨nofun, fun h => absurd h.1 not_reached_nil⟩
  ordered := List.Pairwise.nil

theorem map_below (i : Invocation) (inner : List Visit) :
    (below i inner).map (·.2) = ownOr (fun _ => inner.map (·.2)) i := by
  unfold below ownOr
  cases naming? i.path with
  | some naming => rfl
  | none => simp [Function.comp_def]

theorem map_behind (visits : List Visit) : (visits.map behind).map (·.2) = visits.map (·.2) := by
  rw [List.map_map]
  refine List.map_congr_left fun v _ => ?_
  obtain ⟨_ | ⟨k, route⟩, x⟩ := v <;> rfl

theorem mem_below {i j : Invocation} {inner : List Visit} {route : List Nat} {naming : Naming}
    (hinner : Visits ((Grammar.invocationsInside? i.body).getD []) inner)
    (found : List Invocation) :
    (0 :: route, naming, j) ∈ below i inner ↔
      Reached (i :: found) (0 :: route) j ∧ naming? j.path = some naming := by
  rw [reached_zero]
  unfold below
  cases hpath : naming? i.path with
  | some n =>
    constructor
    · intro h
      cases List.mem_singleton.1 h
      exact ⟨Or.inl ⟨rfl, rfl⟩, hpath⟩
    · rintro ⟨⟨rfl, rfl⟩ | ⟨h, -⟩, hj⟩
      · obtain rfl := Option.some.inj (hpath.symm.trans hj)
        exact List.mem_singleton.2 rfl
      · cases h
  | none =>
    constructor
    · intro h
      obtain ⟨⟨r, n, j'⟩, hv, heq⟩ := List.mem_map.1 h
      cases heq
      obtain ⟨hreached, hj⟩ := (hinner.mem_iff _ _ _).1 hv
      exact ⟨Or.inr ⟨rfl, hreached⟩, hj⟩
    · rintro ⟨⟨-, rfl⟩ | ⟨-, h⟩, hj⟩
      · exact absurd (hpath.symm.trans hj) nofun
      · exact List.mem_map.2 ⟨(route, naming, j), (hinner.mem_iff _ _ _).2 ⟨h, hj⟩, rfl⟩

theorem exists_of_mem_below {i : Invocation} {inner : List Visit} {v : Visit}
    (h : v ∈ below i inner) : ∃ route, v.1 = 0 :: route := by
  unfold below at h
  split at h
  · obtain rfl := List.mem_singleton.1 h
    exact ⟨[], rfl⟩
  · obtain ⟨w, -, rfl⟩ := List.mem_map.1 h
    exact ⟨w.1, rfl⟩

theorem exists_of_mem_visits {found : List Invocation} {visits : List Visit}
    (h : Visits found visits) {v : Visit} (hv : v ∈ visits) : ∃ k route, v.1 = k :: route := by
  obtain ⟨_ | ⟨k, route⟩, naming, i⟩ := v
  · exact absurd ((h.mem_iff _ _ _).1 hv).1 not_reached_empty_route
  · exact ⟨k, route, rfl⟩

theorem ordered_below {i : Invocation} {inner : List Visit}
    (h : inner.Pairwise fun v w => v.1 < w.1) :
    (below i inner).Pairwise fun v w => v.1 < w.1 := by
  unfold below
  split
  · exact List.pairwise_singleton _ _
  · exact List.pairwise_map.2 (h.imp fun hvw => List.cons_lt_cons_iff.2 (Or.inr ⟨rfl, hvw⟩))

theorem behind_lt {found : List Invocation} {visits : List Visit} (h : Visits found visits)
    {v w : Visit} (hv : v ∈ visits) (hw : w ∈ visits) (hvw : v.1 < w.1) :
    (behind v).1 < (behind w).1 := by
  obtain ⟨k, route, hk⟩ := exists_of_mem_visits h hv
  obtain ⟨k', route', hk'⟩ := exists_of_mem_visits h hw
  obtain ⟨_, x⟩ := v
  obtain ⟨_, x'⟩ := w
  obtain rfl : _ = k :: route := hk
  obtain rfl : _ = k' :: route' := hk'
  rcases List.cons_lt_cons_iff.1 hvw with hlt | ⟨rfl, hlt⟩
  · exact List.cons_lt_cons_iff.2 (Or.inl (Nat.succ_lt_succ hlt))
  · exact List.cons_lt_cons_iff.2 (Or.inr ⟨rfl, hlt⟩)

/-- The visits at and below the first invocation come before those at and below the others. -/
theorem visits_cons {i : Invocation} {found : List Invocation} {inner visits : List Visit}
    (hinner : Visits ((Grammar.invocationsInside? i.body).getD []) inner)
    (h : Visits found visits) : Visits (i :: found) (below i inner ++ visits.map behind) where
  mem_iff route naming j := by
    constructor
    · intro hmem
      rcases List.mem_append.1 hmem with hmem | hmem
      · obtain ⟨r, rfl⟩ := exists_of_mem_below hmem
        exact (mem_below hinner found).1 hmem
      · obtain ⟨⟨r, n, j'⟩, hv, heq⟩ := List.mem_map.1 hmem
        obtain ⟨k, r, rfl⟩ := exists_of_mem_visits h hv
        cases heq
        obtain ⟨hreached, hj⟩ := (h.mem_iff _ _ _).1 hv
        exact ⟨reached_succ.2 hreached, hj⟩
    · rintro ⟨hreached, hj⟩
      rcases route with _ | ⟨_ | k, r⟩
      · exact absurd hreached not_reached_empty_route
      · exact List.mem_append_left _ ((mem_below hinner found).2 ⟨hreached, hj⟩)
      · refine List.mem_append_right _ (List.mem_map.2 ⟨(k :: r, naming, j), ?_, rfl⟩)
        exact (h.mem_iff _ _ _).2 ⟨reached_succ.1 hreached, hj⟩
  ordered := by
    refine List.pairwise_append.2 ⟨ordered_below hinner.ordered, ?_, ?_⟩
    · exact List.pairwise_map.2 (h.ordered.imp_of_mem fun hv hw => behind_lt h hv hw)
    · intro v hv w hw
      obtain ⟨r, hr⟩ := exists_of_mem_below hv
      obtain ⟨u, hu, rfl⟩ := List.mem_map.1 hw
      obtain ⟨k, r', hk⟩ := exists_of_mem_visits h hu
      obtain ⟨_, x⟩ := u
      obtain rfl : _ = k :: r' := hk
      rw [hr]
      exact List.cons_lt_cons_iff.2 (Or.inl (Nat.succ_pos k))

/-! ## The bound on the depth -/

/-- If no body is larger than the bound, the visits are what the scan considers. -/
theorem visits_reachable : ∀ (depth : Nat) (found : List Invocation),
    (∀ i ∈ found, sizes i.body < depth) →
    ∃ visits, Visits found visits ∧ visits.map (·.2) = reachable depth found
  | 0, [], _ => ⟨[], visits_nil, rfl⟩
  | 0, i :: _, h => absurd (h i List.mem_cons_self) (Nat.not_lt_zero _)
  | _ + 1, [], _ => ⟨[], visits_nil, rfl⟩
  | depth + 1, i :: found, h => by
    obtain ⟨visits, hvisits, hmap⟩ := visits_reachable (depth + 1) found
      fun j hj => h j (List.mem_cons_of_mem i hj)
    -- what is found in the body is smaller than the body
    obtain ⟨inner, hinner, hmapInner⟩ := visits_reachable depth
      ((Grammar.invocationsInside? i.body).getD []) (by
        intro j hj
        cases hbody : Grammar.invocationsInside? i.body with
        | none =>
          rw [hbody] at hj
          cases hj
        | some l =>
          rw [hbody] at hj
          have hlt := (Grammar.of_mem_invocationsInside? hbody hj).inside.sizes_lt
          have hle := h i List.mem_cons_self
          omega)
    refine ⟨_, visits_cons hinner hvisits, ?_⟩
    rw [List.map_append, map_below, map_behind, hmap, hmapInner]
    rfl

end EmbeddedSolidity.Scan
