import Mathlib.Data.List.Basic
import Mathlib.Logic.Function.Basic

/-! A family of queues, one for each key, all empty at first. -/

namespace HologramLive.Lib.Queues
variable {κ α : Type*}

inductive Event (κ α : Type*) where
  | sent (key : κ) (item : α)
  | taken (key : κ) (item : α)

abbrev Family (κ α : Type*) := κ → List α

variable [DecidableEq κ]

/-- What is taken is what has waited longest. -/
inductive Step : Family κ α → Event κ α → Family κ α → Prop where
  | sent (queues : Family κ α) (key : κ) (item : α) :
    Step queues (.sent key item) (Function.update queues key (queues key ++ [item]))
  | taken (queues : Family κ α) (key : κ) (item : α) (rest : List α)
    (front : queues key = item :: rest) :
    Step queues (.taken key item) (Function.update queues key rest)

inductive Run : List (Event κ α) → Family κ α → Prop where
  | start : Run [] fun _ => []
  | step (before : Run events queues) (step : Step queues event next) : Run (events ++ [event]) next

def Event.sentOn (key : κ) : Event κ α → List α
  | .sent place item => if place = key then [item] else []
  | .taken _ _ => []

def Event.takenFrom (key : κ) : Event κ α → List α
  | .sent _ _ => []
  | .taken place item => if place = key then [item] else []

def sentOn (key : κ) (events : List (Event κ α)) : List α := events.flatMap (Event.sentOn key)

def takenFrom (key : κ) (events : List (Event κ α)) : List α :=
  events.flatMap (Event.takenFrom key)

variable {event : Event κ α} {queues next : Family κ α}

theorem Step.balance (h : Step queues event next) (key : κ) :
    queues key ++ event.sentOn key = event.takenFrom key ++ next key := by
  cases h with
  | sent place item =>
    by_cases hplace : place = key
    · subst hplace
      simp [Event.sentOn, Event.takenFrom]
    · simp [Event.sentOn, Event.takenFrom, hplace, Ne.symm hplace]
  | taken place item rest front =>
    by_cases hplace : place = key
    · subst hplace
      simp [Event.sentOn, Event.takenFrom, front]
    · simp [Event.sentOn, Event.takenFrom, hplace, Ne.symm hplace]

/-- What was sent is what was taken and then what waits, in the order sent. -/
theorem Run.fifo {events : List (Event κ α)} (h : Run events queues) (key : κ) :
    sentOn key events = takenFrom key events ++ queues key := by
  induction h with
  | start => rfl
  | step _ hstep ih =>
    have hbalance := hstep.balance key
    simp [sentOn, takenFrom] at ih ⊢
    simp [ih, hbalance]

end HologramLive.Lib.Queues
