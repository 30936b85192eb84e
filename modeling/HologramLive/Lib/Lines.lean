import Mathlib.Data.List.Basic

namespace HologramLive.Lib.Lines
variable {α : Type} [DecidableEq α] {mark : α} {xs ys line : List α}

/-- The pieces that end in the mark, each with its mark, and what follows the last of them. -/
def split (mark : α) : List α → List (List α) × List α
  | [] => ([], [])
  | a :: rest =>
    if a = mark then ([a] :: (split mark rest).1, (split mark rest).2)
    else match split mark rest with
      | ([], tail) => ([], a :: tail)
      | (line :: lines, tail) => ((a :: line) :: lines, tail)

@[simp] theorem split_nil : split mark [] = ([], []) := rfl

theorem split_of_not_mem (h : mark ∉ xs) : split mark xs = ([], xs) := by
  induction xs with
  | nil => rfl
  | cons a rest ih =>
    have hrest : split mark rest = ([], rest) := ih (fun hmem => h (by simp [hmem]))
    have ha : a ≠ mark := fun heq => h (by simp [heq])
    simp [split, ha, hrest]

theorem split_terminated (h : mark ∉ line) :
    split mark (line ++ mark :: ys) = ((line ++ [mark]) :: (split mark ys).1, (split mark ys).2) := by
  induction line with
  | nil => simp [split]
  | cons a rest ih =>
    have ha : a ≠ mark := fun heq => h (by simp [heq])
    have hrest := ih (fun hmem => h (by simp [hmem]))
    simp [split, ha, hrest]

theorem tail_not_mem : mark ∉ (split mark xs).2 := by
  induction xs with
  | nil => simp
  | cons a rest ih =>
    unfold split
    split
    · exact ih
    · rename_i ha
      cases hsplit : split mark rest with
      | mk lines tail =>
        rw [hsplit] at ih
        cases lines with
        | nil => simpa [ih] using fun heq : mark = a => ha heq.symm
        | cons line lines => exact ih

/-- Splitting may be done as the pieces arrive: only the unfinished piece is carried on. -/
theorem split_append : split mark (xs ++ ys) =
    ((split mark xs).1 ++ (split mark ((split mark xs).2 ++ ys)).1,
      (split mark ((split mark xs).2 ++ ys)).2) := by
  induction xs with
  | nil => simp
  | cons a rest ih =>
    by_cases ha : a = mark
    · simp [split, ha, ih]
    · cases hsplit : split mark rest with
      | mk lines tail =>
        rw [hsplit] at ih
        cases lines with
        | nil => simp [split, ha, hsplit, ih]
        | cons line lines => simp [split, ha, hsplit, ih]

/-- A document written line by line splits into its lines. -/
theorem split_lines {lines : List (List α)} (h : ∀ line ∈ lines, mark ∉ line) :
    split mark (lines.map (· ++ [mark])).flatten = (lines.map (· ++ [mark]), []) := by
  induction lines with
  | nil => rfl
  | cons line lines ih =>
    have hrest := ih (fun other hother => h other (by simp [hother]))
    have hline : mark ∉ line := h line (by simp)
    simp [split_terminated hline, hrest]

end HologramLive.Lib.Lines
