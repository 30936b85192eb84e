import Mathlib.Data.List.Basic

/-! Runs of systems whose tasks take turns, and the resources the tasks hold. -/

namespace HologramLive.Lib.Interleaving
variable {σ α : Type*}

/-- What a system reaches by actions that meet a condition when they are taken. -/
inductive Reaches (step : σ → α → Option σ) (allowed : σ → α → Prop) (start : σ) : σ → Prop where
  | start : Reaches step allowed start start
  | step (before : Reaches step allowed start state) (allows : allowed state action)
    (steps : step state action = some next) : Reaches step allowed start next

def run (step : σ → α → Option σ) : List α → σ → Option σ
  | [], state => some state
  | action :: rest, state => (step state action).bind (run step rest)

/-- A run that is refused where a check fails. -/
def checked (step : σ → α → Option σ) (check : σ → α → Bool) : List α → σ → Option σ
  | [], state => some state
  | action :: rest, state =>
    if check state action then (step state action).bind (checked step check rest) else none

section Reaches
variable {step : σ → α → Option σ} {allowed : σ → α → Prop} {start state : σ}

/-- What holds at the start and is kept by every allowed action holds throughout. -/
theorem Reaches.invariant {holds : σ → Prop} (h : Reaches step allowed start state)
    (first : holds start)
    (keeps : ∀ state action next, holds state → allowed state action →
      step state action = some next → holds next) : holds state := by
  induction h with
  | start => exact first
  | step _ allows steps ih => exact keeps _ _ _ ih allows steps

theorem Reaches.mono {allowed' : σ → α → Prop} (h : Reaches step allowed start state)
    (weaker : ∀ state action, allowed state action → allowed' state action) :
    Reaches step allowed' start state := by
  induction h with
  | start => exact .start
  | step _ allows steps ih => exact ih.step (weaker _ _ allows) steps

theorem Reaches.trans (h : Reaches step allowed start state)
    (hafter : Reaches step allowed state last) : Reaches step allowed start last := by
  induction hafter with
  | start => exact h
  | step _ allows steps ih => exact ih.step allows steps

theorem Reaches.run {actions : List α} (h : Reaches step (fun _ _ => True) start state)
    (hrun : run step actions state = some last) : Reaches step (fun _ _ => True) start last := by
  induction actions generalizing state with
  | nil =>
    obtain rfl := Option.some.inj hrun
    exact h
  | cons action rest ih =>
    obtain ⟨next, hstep, hrest⟩ := Option.bind_eq_some_iff.mp hrun
    exact ih (h.step trivial hstep) hrest

theorem Reaches.checked {actions : List α} {check : σ → α → Bool}
    (h : Reaches step allowed start state)
    (hcheck : ∀ state action, check state action = true → allowed state action)
    (hrun : checked step check actions state = some last) : Reaches step allowed start last := by
  induction actions generalizing state with
  | nil =>
    obtain rfl := Option.some.inj hrun
    exact h
  | cons action rest ih =>
    rw [Interleaving.checked] at hrun
    split at hrun
    · rename_i hpasses
      obtain ⟨next, hstep, hrest⟩ := Option.bind_eq_some_iff.mp hrun
      exact ih (h.step (hcheck _ _ hpasses) hstep) hrest
    · cases hrun

end Reaches

/-- After one task has moved, a task is that one or another that stayed put. -/
theorem mem_set_cases {tasks : List α} {place : Nat} {moved task : α}
    (h : task ∈ tasks.set place moved) :
    task = moved ∨ ∃ other, other ≠ place ∧ tasks[other]? = some task := by
  obtain ⟨other, hother⟩ := List.mem_iff_getElem?.mp h
  rw [List.getElem?_set] at hother
  split at hother
  · split at hother
    · exact .inl (Option.some.inj hother).symm
    · cases hother
  · rename_i hne
    exact .inr ⟨other, Ne.symm hne, hother⟩

theorem mem_set_of_ne {tasks : List α} {place other : Nat} {task : α}
    (h : tasks[other]? = some task) (hne : other ≠ place) (moved : α) :
    task ∈ tasks.set place moved :=
  List.mem_of_getElem? ((List.getElem?_set_ne (Ne.symm hne)).trans h)

section Exclusive
variable {τ ρ : Type*} (holds : τ → ρ → Bool)

/-- A resource no task holds. -/
def free (tasks : List τ) (resource : ρ) : Bool := tasks.all fun task => !holds task resource

/-- No two tasks hold one resource. -/
def Exclusive (tasks : List τ) : Prop :=
  ∀ (i j : Nat) (left right : τ) (resource : ρ), tasks[i]? = some left → tasks[j]? = some right →
    holds left resource = true → holds right resource = true → i = j

variable {holds} {tasks : List τ}

theorem free_iff {resource : ρ} :
    free holds tasks resource = true ↔ ∀ task ∈ tasks, holds task resource = false := by
  simp [free]

theorem Exclusive.nil : Exclusive holds ([] : List τ) := by
  intro i j left right resource hleft
  simp at hleft

/-- A task that arrives holds nothing. -/
theorem Exclusive.push (h : Exclusive holds tasks) {task : τ}
    (hnothing : ∀ resource, holds task resource = false) : Exclusive holds (tasks ++ [task]) := by
  have hold : ∀ (k : Nat) (held : τ) (resource : ρ), (tasks ++ [task])[k]? = some held →
      holds held resource = true → tasks[k]? = some held := by
    intro k held resource hk hheld
    rw [List.getElem?_append] at hk
    split at hk
    · exact hk
    · obtain rfl := List.mem_singleton.mp (List.mem_of_getElem? hk)
      rw [hnothing] at hheld
      cases hheld
  intro i j left right resource hi hj hleft hright
  exact h i j left right resource (hold i left resource hi hleft)
    (hold j right resource hj hright) hleft hright

/-- A task that moves may only gain what was free. -/
theorem Exclusive.set (h : Exclusive holds tasks) {place : Nat} {before after : τ}
    (hplace : tasks[place]? = some before)
    (hgain : ∀ resource, holds after resource = true →
      holds before resource = true ∨ free holds tasks resource = true) :
    Exclusive holds (tasks.set place after) := by
  have hnew : ∀ (k : Nat) (held : τ) (resource : ρ), holds after resource = true →
      tasks[k]? = some held → holds held resource = true → k = place := by
    intro k held resource hafter hk hheld
    rcases hgain resource hafter with hkept | hfree
    · exact h k place held before resource hk hplace hheld hkept
    · rw [free_iff.mp hfree held (List.mem_of_getElem? hk)] at hheld
      cases hheld
  intro i j left right resource hi hj hleft hright
  rw [List.getElem?_set] at hi hj
  have hlt : place < tasks.length := (List.getElem?_eq_some_iff.mp hplace).1
  simp only [hlt, ↓reduceIte] at hi hj
  split at hi <;> split at hj
  · omega
  · rename_i hsame _
    obtain rfl := Option.some.inj hi
    exact hsame ▸ (hnew j right resource hleft hj hright).symm
  · rename_i _ hsame
    obtain rfl := Option.some.inj hj
    exact hsame ▸ hnew i left resource hright hi hleft
  · exact h i j left right resource hi hj hleft hright

/-- Tasks that all change at once may only give up what they hold. -/
theorem Exclusive.map (h : Exclusive holds tasks) {change : τ → τ}
    (hkeep : ∀ task resource, holds (change task) resource = true → holds task resource = true) :
    Exclusive holds (tasks.map change) := by
  intro i j left right resource hi hj hleft hright
  rw [List.getElem?_map] at hi hj
  obtain ⟨before, hbefore, rfl⟩ := Option.map_eq_some_iff.mp hi
  obtain ⟨before', hbefore', rfl⟩ := Option.map_eq_some_iff.mp hj
  exact h i j before before' resource hbefore hbefore' (hkeep _ _ hleft) (hkeep _ _ hright)

/-- While a task holds a resource, no other does. -/
theorem Exclusive.other (h : Exclusive holds tasks) {i j : Nat} {left right : τ} {resource : ρ}
    (hi : tasks[i]? = some left) (hj : tasks[j]? = some right)
    (hheld : holds left resource = true) (hne : i ≠ j) : holds right resource = false := by
  cases hright : holds right resource with
  | false => rfl
  | true => exact absurd (h i j left right resource hi hj hheld hright) hne

end Exclusive

end HologramLive.Lib.Interleaving
