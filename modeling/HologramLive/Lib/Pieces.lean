import Mathlib.Data.List.Basic

/-! The non-empty pieces of a list between the places where a separator stands. -/

namespace HologramLive.Lib.Pieces
variable {α : Type*} [DecidableEq α] {mark : α}

def pieces (mark : α) (list : List α) : List (List α) :=
  (list.splitOn mark).filter fun piece => piece ≠ []

theorem not_mem_of_mem_splitOn {list piece : List α} (h : piece ∈ list.splitOn mark) :
    mark ∉ piece := by
  induction list generalizing piece with
  | nil =>
    simp at h
    simp [h]
  | cons a rest ih =>
    rw [List.splitOn_cons_eq_if_modifyHead] at h
    split at h
    · rcases List.mem_cons.mp h with rfl | hrest
      · simp
      · exact ih hrest
    · rename_i hne
      have ha : mark ≠ a := fun heq => hne (by simp [heq])
      cases hsplit : rest.splitOn mark with
      | nil => simp [hsplit] at h
      | cons first others =>
        rw [hsplit, List.modifyHead_cons] at h
        rcases List.mem_cons.mp h with rfl | hothers
        · have hfirst := ih (by simp [hsplit] : first ∈ rest.splitOn mark)
          simp [ha, hfirst]
        · exact ih (by simp [hsplit, hothers])

theorem mem_pieces {list piece : List α} (h : piece ∈ pieces mark list) :
    piece ≠ [] ∧ mark ∉ piece := by
  obtain ⟨hmem, hne⟩ := List.mem_filter.mp h
  exact ⟨by simpa using hne, not_mem_of_mem_splitOn hmem⟩

@[simp] theorem pieces_nil : pieces mark ([] : List α) = [] := by
  simp [pieces]

theorem pieces_append (front back : List α) :
    pieces mark (front ++ mark :: back) = pieces mark front ++ pieces mark back := by
  simp [pieces, List.splitOn_append_cons_self]

theorem pieces_of_not_mem {piece : List α} (hne : piece ≠ []) (h : mark ∉ piece) :
    pieces mark piece = [piece] := by
  simp [pieces, List.splitOn_eq_singleton h, hne]

/-- Where no piece is empty the pieces are what is between the separators. -/
theorem pieces_eq_splitOn {list : List α} (h : ∀ piece ∈ list.splitOn mark, piece ≠ []) :
    pieces mark list = list.splitOn mark := by
  rw [pieces, List.filter_eq_self]
  intro piece hmem
  simpa using h piece hmem

theorem splitOn_join {parts : List (List α)} (hne : parts ≠ [])
    (h : ∀ part ∈ parts, mark ∉ part) : ([mark].intercalate parts).splitOn mark = parts :=
  List.splitOn_intercalate mark h hne

theorem pieces_join {parts : List (List α)} (h : ∀ part ∈ parts, part ≠ [] ∧ mark ∉ part) :
    pieces mark ([mark].intercalate parts) = parts := by
  by_cases hne : parts = []
  · subst hne
    simp
  · have hsplit := splitOn_join hne fun part hmem => (h part hmem).2
    rw [pieces_eq_splitOn, hsplit]
    rw [hsplit]
    exact fun part hmem => (h part hmem).1

end HologramLive.Lib.Pieces
