import EmbeddedSolidity.Proofs.Scan.Visit
import EmbeddedSolidity.Proofs.Source.Place
import Mathlib.Data.List.Induction

/-!
# The snippets of a source

The scan gives the snippets and the rejections of its visits in the order of the visits : a body
that is one string is a snippet (`snippet?`), and another body is rejected where the macro is
written with its path (`rejection?`). The place of each is the place of its invocation, told by the
line feeds in front of it (`locationOf_eq`).

* `ofSource_eq_ok` : the snippets and rejections of a source.
-/

namespace EmbeddedSolidity.Scan

open Grammar (Invocation)
open Source (Tree Position places Placed)

/-! ## Bodies -/

/-- The snippet of an invocation of the macro whose body is one string. -/
def snippet? (file : String) (source : List Char) (i : Invocation) : Option FoundSnippet :=
  match i.body with
  | [.literal (.string text)] => some ⟨String.ofList text, locationOf file source i⟩
  | _ => none

/-- The rejection of an invocation that names the macro with its path and whose body is not one
string. -/
def rejection? (file : String) (source : List Char) : Naming × Invocation → Option Diagnostic
  | (.bare, _) => none
  | (.qualified, i) =>
    match Grammar.stringOf i.body with
    | .ok _ => none
    | .error message =>
      some (.located (locationOf file source i)
        (.scan file ("sol! expects a single string literal: " ++ message)))

/-- A body is one string if and only if it is one token, a string. -/
theorem stringOf_eq_ok_iff {trees : List Tree} {text : List Char} :
    Grammar.stringOf trees = .ok text ↔ trees = [.literal (.string text)] := by
  constructor
  · intro h
    match trees, h with
    | [], h => cases h
    | .group _ _ :: _, h => cases h
    | .word _ _ _ :: _, h => cases h
    | .mark _ _ _ :: _, h => cases h
    | .literal .other :: _, h => cases h
    | .literal (.integer _) :: _, h => cases h
    | .literal (.float _) :: _, h => cases h
    | .literal (.string _) :: _ :: _, h => cases h
    | [.literal (.string _)], h =>
      cases h
      rfl
  · rintro rfl
    rfl

theorem snippet?_eq (file : String) (source : List Char) (i : Invocation) :
    snippet? file source i =
      (Grammar.stringOf i.body).toOption.map fun text =>
        ⟨String.ofList text, locationOf file source i⟩ := by
  unfold snippet?
  split
  · next text hbody =>
    rw [hbody]
    rfl
  · next hbody =>
    cases h : Grammar.stringOf i.body with
    | error _ => rfl
    | ok text => exact absurd (stringOf_eq_ok_iff.1 h) (hbody text)

/-- A visit adds its snippet or its rejection. -/
theorem add_eq (file : String) (source : List Char) (s : Scan) (v : Naming × Invocation) :
    add file source s v =
      ⟨s.snippets ++ (snippet? file source v.2).toList,
        s.rejected ++ (rejection? file source v).toList⟩ := by
  obtain ⟨naming, i⟩ := v
  rw [snippet?_eq]
  unfold add rejection?
  cases naming with
  | bare =>
    dsimp only
    cases Grammar.stringOf i.body <;> simp [Except.toOption]
  | qualified =>
    dsimp only
    cases Grammar.stringOf i.body <;> simp [Except.toOption]

theorem filterMap_cons_eq {α β : Type} (f : α → Option β) (a : α) (as : List α) :
    (a :: as).filterMap f = (f a).toList ++ as.filterMap f := by
  rw [List.filterMap_cons]
  cases f a <;> rfl

/-- All visits add their snippets and their rejections. -/
theorem foldl_add (file : String) (source : List Char) :
    ∀ (visited : List (Naming × Invocation)) (s : Scan),
      visited.foldl (add file source) s =
        ⟨s.snippets ++ visited.filterMap (fun v => snippet? file source v.2),
          s.rejected ++ visited.filterMap (rejection? file source)⟩
  | [], s => by simp
  | v :: visited, s => by
    rw [List.foldl_cons, foldl_add file source visited, add_eq, filterMap_cons_eq,
      filterMap_cons_eq, List.append_assoc, List.append_assoc]

/-! ## Places -/

/-- The position behind a text, told by its line feeds. -/
theorem past_start (front : List Char) :
    Position.start.past front =
      ⟨front.count '\n' + 1, (front.reverse.takeWhile (· != '\n')).length⟩ := by
  induction front using List.reverseRecOn with
  | nil => rfl
  | append_singleton front c ih =>
    rw [Position.past_append, ih, List.reverse_append, List.count_append]
    show Position.step _ c = _
    unfold Position.step
    rcases eq_or_ne c '\n' with rfl | hc
    · simp
    · simp [hc]

/-- What is reached has its place in the source. -/
theorem placeIn_of_reached {trees : List Tree} {found : List Invocation} {route : List Nat}
    {i : Invocation} (h : Reached found route i)
    (hfound : ∀ j ∈ found, Grammar.PlaceIn trees j.place ∧ places j.body ⊆ places trees) :
    Grammar.PlaceIn trees i.place := by
  induction h with
  | here h => exact (hfound _ (List.mem_of_getElem? h)).1
  | inside h _ hbody _ ih =>
    obtain ⟨-, hi⟩ := hfound _ (List.mem_of_getElem? h)
    refine ih fun j hj => ?_
    have hof := Grammar.of_mem_invocationsInside? hbody hj
    exact ⟨hof.place.imp_right fun hp => hi hp, fun p hp => hi (hof.inside.places_subset hp)⟩

/-- The place of an invocation is counted in line feeds in front of it, and in characters behind the
last of them. -/
theorem locationOf_eq (file : String) (front : List Char) (i : Invocation) :
    locationOf file (front ++ i.place) i =
      ⟨file, front.count '\n' + 1, (front.reverse.takeWhile (· != '\n')).length + 1⟩ := by
  unfold locationOf
  rw [Position.before_append, past_start]

/-! ## Results -/

/-- The scan of a source whose invocations are known : the snippets and the rejections of its
visits in their order, at their places. -/
theorem ofSource_eq_ok {file source : String} {trees : List Tree} {found : List Invocation}
    (htrees : Source.trees? source.toList = some trees)
    (hfound : Grammar.invocations trees = .ok found) :
    ∃ visits, Visits found visits ∧
      ofSource file source = .ok
        ⟨visits.filterMap fun v => snippet? file source.toList v.2.2,
          visits.filterMap fun v => rejection? file source.toList v.2⟩ ∧
      ∀ v ∈ visits, ∃ front, source.toList = front ++ v.2.2.place ∧
        locationOf file source.toList v.2.2 =
          ⟨file, front.count '\n' + 1, (front.reverse.takeWhile (· != '\n')).length + 1⟩ := by
  have hof := fun i (hi : i ∈ found) => Grammar.of_mem_invocations hfound hi
  obtain ⟨visits, hvisits, hmap⟩ :=
    visits_reachable (Source.sizes trees) found fun i hi => (hof i hi).inside.sizes_lt
  refine ⟨visits, hvisits, ?_, fun v hv => ?_⟩
  · unfold ofSource
    rw [htrees]
    dsimp only
    rw [hfound]
    dsimp only
    rw [← hmap, foldl_add, List.filterMap_map, List.filterMap_map]
    rfl
  · obtain ⟨route, naming, i⟩ := v
    have hreached := ((hvisits.mem_iff route naming i).1 hv).1
    have hplace := placeIn_of_reached hreached fun j hj =>
      ⟨(hof j hj).place, (hof j hj).inside.places_subset⟩
    have hsuffix : i.place <:+ source.toList := by
      rcases hplace with hnil | hmem
      · rw [hnil]
        exact List.nil_suffix
      · exact Source.placed_of_trees? htrees _ hmem
    obtain ⟨front, hfront⟩ := hsuffix
    refine ⟨front, hfront.symm, ?_⟩
    rw [← hfront]
    exact locationOf_eq file front i

/-- A macro in the body of another one, and one that is rejected. -/
def nested : String :=
  "m!(sol!(\"A\"));\ninline_sol::sol!();"

theorem ofSource_eq_ok_nested :
    ∃ trees found, Source.trees? nested.toList = some trees ∧
      Grammar.invocations trees = .ok found ∧
      ∃ visits, Visits found visits ∧
        ofSource "a.rs" nested = .ok
          ⟨visits.filterMap fun v => snippet? "a.rs" nested.toList v.2.2,
            visits.filterMap fun v => rejection? "a.rs" nested.toList v.2⟩ := by
  have h : ((Source.trees? nested.toList).bind fun trees =>
      (Grammar.invocations trees).toOption).isSome = true := by
    decide +kernel
  obtain ⟨found, h⟩ := Option.isSome_iff_exists.1 h
  obtain ⟨trees, htrees, h⟩ := Option.bind_eq_some_iff.1 h
  have hfound : Grammar.invocations trees = .ok found := by
    cases hi : Grammar.invocations trees with
    | error _ =>
      rw [hi] at h
      cases h
    | ok _ =>
      rw [hi] at h
      cases h
      rfl
  obtain ⟨visits, hvisits, hscan, -⟩ := @ofSource_eq_ok "a.rs" nested trees found htrees hfound
  exact ⟨trees, found, htrees, hfound, visits, hvisits, hscan⟩

example : (ofSource "a.rs" nested).toOption.map (·.snippets) = some [⟨"A", ⟨"a.rs", 1, 4⟩⟩] := by
  decide +kernel

end EmbeddedSolidity.Scan
