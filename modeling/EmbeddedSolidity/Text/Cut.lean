/-!
# Cutting text

A list of characters is cut at every occurrence of a separator; the pieces, joined by the
separator, are the list again.
-/

namespace EmbeddedSolidity.Text

/-- The pieces between the separators; there is always one. -/
def cut (separator : Char) : List Char → List (List Char)
  | [] => [[]]
  | c :: rest =>
    if c == separator then [] :: cut separator rest
    else
      match cut separator rest with
      | [] => [[c]]
      | piece :: pieces => (c :: piece) :: pieces

theorem cut_ne_nil (separator : Char) (cs : List Char) : cut separator cs ≠ [] := by
  cases cs with
  | nil => simp [cut]
  | cons c rest =>
    rw [cut]
    split
    · simp
    · split <;> simp

theorem intercalate_cut (separator : Char) (cs : List Char) :
    [separator].intercalate (cut separator cs) = cs := by
  induction cs with
  | nil => simp [cut]
  | cons c rest ih =>
    rw [cut]
    split
    · next h =>
      obtain ⟨piece, pieces, hp⟩ := List.exists_cons_of_ne_nil (cut_ne_nil separator rest)
      rw [hp] at ih ⊢
      simp only [beq_iff_eq] at h
      simpa [List.intercalate, List.intersperse, h] using ih
    · split
      · next h => exact absurd h (cut_ne_nil separator rest)
      · next piece pieces h =>
        rw [h] at ih
        cases pieces <;> simp_all [List.intercalate, List.intersperse]

end EmbeddedSolidity.Text
