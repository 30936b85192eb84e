import Mathlib.Data.List.DropRight

/-! Dropping what pads a list on either side. -/

namespace HologramLive.Lib.Strip
variable {α : Type*} {p : α → Bool} {list left middle right : List α}

def strip (p : α → Bool) (list : List α) : List α :=
  ((list.dropWhile p).reverse.dropWhile p).reverse

theorem dropWhile_eq_self (h : ∀ a, list.head? = some a → p a = false) : list.dropWhile p = list := by
  cases list with
  | nil => rfl
  | cons a rest => simp [h a rfl]

theorem strip_eq_self (hfirst : ∀ a, list.head? = some a → p a = false)
    (hlast : ∀ a, list.getLast? = some a → p a = false) : strip p list = list := by
  have hreverse : list.reverse.dropWhile p = list.reverse :=
    dropWhile_eq_self (fun a ha => hlast a (by simpa using ha))
  rw [strip, dropWhile_eq_self hfirst, hreverse, List.reverse_reverse]

theorem strip_left (h : ∀ a ∈ left, p a = true) : strip p (left ++ middle) = strip p middle := by
  simp [strip, List.dropWhile_append_of_pos h]

theorem strip_right (h : ∀ a ∈ right, p a = true) : strip p (middle ++ right) = strip p middle := by
  have hright : right.dropWhile p = [] := by simpa using h
  have hreverse : ∀ a ∈ right.reverse, p a = true := fun a ha => h a (by simpa using ha)
  rw [strip, List.dropWhile_append]
  split
  · rename_i hempty
    have hmiddle : middle.dropWhile p = [] := by simpa using hempty
    simp [strip, hright, hmiddle]
  · simp [strip, List.dropWhile_append_of_pos hreverse]

theorem strip_padded (hleft : ∀ a ∈ left, p a = true) (hright : ∀ a ∈ right, p a = true) :
    strip p (left ++ middle ++ right) = strip p middle := by
  rw [strip_right hright, strip_left hleft]

end HologramLive.Lib.Strip
