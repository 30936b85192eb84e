import Mathlib.Algebra.GroupWithZero.Nat
import Mathlib.Data.List.Basic

/-! Permits that tasks take by counting up a shared cell without a lock. -/

namespace HologramLive.Lib.Permits

/-- Where a task is in its loop: before it reads the counter, or with what it saw there. -/
inductive Taking where
  | reading
  | trying (seen : Nat)

inductive Taken where
  | going (taking : Taking)
  | held
  | refused

/-- One access to the counter, with what it leaves there. An exchange may fail `spuriously`, that
is, though the counter is at what the task saw. -/
def take (max : Nat) (spuriously : Bool) (counter : Nat) : Taking → Taken × Nat
  | .reading => (.going (.trying counter), counter)
  | .trying seen =>
    if max ≤ seen then (.refused, counter)
    else if counter = seen ∧ spuriously = false then (.held, seen + 1)
    else (.going (.trying counter), counter)

section take
variable {max counter after : Nat} {spuriously : Bool} {taking : Taking}

/-- Only a counter below the limit is counted up, and by the permit that is held then. -/
theorem take_held (h : take max spuriously counter taking = (.held, after)) :
    after = counter + 1 ∧ after ≤ max := by
  cases taking with
  | reading => simp [take] at h
  | trying seen =>
    rw [take] at h
    split at h
    · simp at h
    · rename_i hroom
      split at h
      · rename_i hsame
        obtain ⟨-, rfl⟩ := Prod.mk.inj h
        omega
      · simp at h

theorem take_unheld {taken : Taken} (h : take max spuriously counter taking = (taken, after))
    (hne : taken ≠ .held) : after = counter := by
  cases taking with
  | reading => exact (Prod.mk.inj h).2.symm
  | trying seen =>
    rw [take] at h
    split at h
    · exact (Prod.mk.inj h).2.symm
    · split at h
      · exact absurd (Prod.mk.inj h).1.symm hne
      · exact (Prod.mk.inj h).2.symm

end take

section Count
variable {τ : Type*} {tasks : List τ} {place : Nat} {before : τ}

/-- What one task's move does to the number of tasks with a permit. -/
theorem countP_set (holds : τ → Bool) (after : τ) (hplace : tasks[place]? = some before) :
    (tasks.set place after).countP holds + (holds before).toNat =
      tasks.countP holds + (holds after).toNat := by
  obtain ⟨hlt, hbefore⟩ := List.getElem?_eq_some_iff.mp hplace
  have hcount := List.countP_set (p := holds) (a := after) hlt
  rw [hbefore] at hcount
  cases hb : holds before with
  | false => cases ha : holds after <;> simp [hb, ha] at hcount ⊢ <;> omega
  | true =>
    have hpos : 0 < tasks.countP holds :=
      List.countP_pos_iff.mpr ⟨before, List.mem_of_getElem? hplace, hb⟩
    cases ha : holds after <;> simp [hb, ha] at hcount ⊢ <;> omega

/-- What one task's move does to what the tasks amount to together. -/
theorem sum_set (weight : τ → Nat) (after : τ) (hplace : tasks[place]? = some before) :
    ((tasks.set place after).map weight).sum + weight before =
      (tasks.map weight).sum + weight after := by
  induction tasks generalizing place with
  | nil => simp at hplace
  | cons task rest ih =>
    cases place with
    | zero =>
      obtain rfl := Option.some.inj hplace
      simp only [List.set_cons_zero, List.map_cons, List.sum_cons]
      omega
    | succ place =>
      have hrest := @ih place (by simpa using hplace)
      simp only [List.set_cons_succ, List.map_cons, List.sum_cons]
      omega

end Count
end HologramLive.Lib.Permits
