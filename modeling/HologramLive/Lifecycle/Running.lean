import HologramLive.Lib.Interleaving
import HologramLive.Lifecycle.Prepare

namespace HologramLive.Lifecycle
open Lib.Interleaving

inductive LifecycleState where
  | planned
  | preparing
  | running
  | stopping
  | stopped
  | failed
  deriving DecidableEq

def LifecycleState.name : LifecycleState → String
  | .planned => "planned"
  | .preparing => "preparing"
  | .running => "running"
  | .stopping => "stopping"
  | .stopped => "stopped"
  | .failed => "failed"

/-- The state as the error texts print it. -/
def LifecycleState.debug : LifecycleState → String
  | .planned => "Planned"
  | .preparing => "Preparing"
  | .running => "Running"
  | .stopping => "Stopping"
  | .stopped => "Stopped"
  | .failed => "Failed"

inductive LayerCompletion where
  | returned
  | exited (code : Int)

structure LayerInvocation where
  outputs : List Bytes
  completion : LayerCompletion
  elapsedMicros : Nat

/-- What a layer answers when the call a task waits for comes back. -/
inductive Answer where
  | silent
  | invoked (result : Except LiveError LayerInvocation)
  | stopped (result : Except LiveError Unit)

/-- Where one `invoke`, `stop` or `invoke_then_stop` has got to. The stop that
follows an invocation carries what the invocation came to. -/
inductive Caller where
  | invoke (inputs : List Bytes) (thenStop : Bool)
  | entered (inputs : List Bytes) (thenStop : Bool)
  | calling (layer : PreparedApplicationLayer) (inputs : List Bytes) (thenStop : Bool)
  | stop (taken : Nat) (invoked : Option (Except LiveError LayerInvocation))
  | stopping (left : List PreparedApplicationLayer) (failures : List String)
    (invoked : Option (Except LiveError LayerInvocation))
  | returned (invoked : Option (Except LiveError LayerInvocation))
    (stopped : Option (Except LiveError Unit))

namespace RunningApplication
variable (application : RunningApplication)

/-- The layer an invocation goes to. -/
def primary : Option PreparedApplicationLayer :=
  application.layers.find? fun layer =>
    layer.slot.application = 0 && layer.layer.position = application.primaryLayer

def lostGate : LiveError :=
  .conflict s!"running application {application.identity.applicationKappa} lost its invocation gate"

def notRunning (state : LifecycleState) : LiveError :=
  .conflict <|
    s!"application {application.identity.applicationKappa} is not running (state {state.debug})"

def lostPrimary : LiveError :=
  .conflict <| s!"running application {application.identity.applicationKappa} lost primary layer " ++
    s!"{application.primaryLayer}"

def alreadyStopping : LiveError :=
  .conflict s!"application {application.identity.applicationKappa} is already stopping"

def cannotStop (state : LifecycleState) : LiveError :=
  .conflict <|
    s!"application {application.identity.applicationKappa} cannot stop from state {state.debug}"

def stopFailed (failures : List String) : LiveError :=
  .conflict <| s!"stop application {application.identity.applicationKappa} failed: " ++
    "; ".intercalate failures

end RunningApplication

namespace Caller

/-- An invocation has come to its result. -/
def finish (thenStop : Bool) (invoked : Except LiveError LayerInvocation) : Caller :=
  if thenStop then .stop 0 (some invoked) else .returned (some invoked) none

/-- The gates a call holds, by number. -/
def holds (application : RunningApplication) : Caller → Nat → Bool
  | .entered .., gate => gate = 0
  | .calling .., gate => gate = 0
  | .stop taken _, gate => gate < taken
  | .stopping .., gate => gate < application.invocations
  | _, _ => false

/-- One step of a call, told which gates are free: the state it leaves and where
it has got to. A call that waits for a gate or for a layer's answer has none. -/
def step (application : RunningApplication) (free : Nat → Bool) (state : LifecycleState) :
    Caller → Answer → Option (LifecycleState × Caller)
  | .invoke inputs thenStop, .silent =>
    if application.invocations = 0 then
      some (state, finish thenStop (.error application.lostGate))
    else if free 0 then some (state, .entered inputs thenStop)
    else none
  | .entered inputs thenStop, .silent =>
    if state ≠ .running then some (state, finish thenStop (.error (application.notRunning state)))
    else
      match application.primary with
      | none => some (state, finish thenStop (.error application.lostPrimary))
      | some layer => some (state, .calling layer inputs thenStop)
  | .calling _ _ thenStop, .invoked result => some (state, finish thenStop result)
  | .stop taken invoked, .silent =>
    if taken < application.invocations then
      if free taken then some (state, .stop (taken + 1) invoked) else none
    else
      match state with
      | .stopped => some (state, .returned invoked (some (.ok ())))
      | .stopping => some (state, .returned invoked (some (.error application.alreadyStopping)))
      | .running | .failed => some (.stopping, .stopping application.layers.reverse [] invoked)
      | .planned | .preparing =>
        some (state, .returned invoked (some (.error (application.cannotStop state))))
  | .stopping (layer :: left) failures invoked, .stopped result =>
    match result with
    | .ok () => some (state, .stopping left failures invoked)
    | .error error => some (state, .stopping left (failures ++ [layer.failure error]) invoked)
  | .stopping [] failures invoked, .silent =>
    if failures = [] then some (.stopped, .returned invoked (some (.ok ())))
    else some (.failed, .returned invoked (some (.error (application.stopFailed failures))))
  | _, _ => none

/-- What `invoke_then_stop` makes of its two results. -/
def invokeThenStop : Except LiveError LayerInvocation → Except LiveError Unit →
    Except LiveError LayerInvocation
  | .ok outcome, .ok () => .ok outcome
  | .error error, .ok () | .ok _, .error error => .error error
  | .error error, .error stopError => .error (withRollback error [stopError.message])

/-- What the state of an application must be for a call to be where it is. -/
def Fits (state : LifecycleState) : Caller → Prop
  | .calling layer _ _ => state = .running ∧ layer.slot.application = 0
  | .stopping .. => state = .stopping
  | .returned _ (some (.ok ())) => state = .stopped
  | _ => True

/-- What any step of a call does: it gains free gates only, stays fitting, and
changes the state only under every gate and never once stopped. -/
structure Moves (application : RunningApplication) (free : Nat → Bool) (state state' : LifecycleState)
    (caller caller' : Caller) : Prop where
  gains : ∀ gate, caller'.holds application gate = true →
    caller.holds application gate = true ∨ free gate = true
  fits : caller.Fits state → caller'.Fits state'
  changes : caller.Fits state → state' = state ∨
    (∀ gate < application.invocations, caller.holds application gate = true) ∧ state ≠ .stopped

section Step
variable {application : RunningApplication} {free : Nat → Bool} {state : LifecycleState}

theorem finish_holds (thenStop : Bool) (invoked : Except LiveError LayerInvocation) (gate : Nat) :
    (finish thenStop invoked).holds application gate = false := by
  cases thenStop <;> simp [finish, holds]

theorem finish_fits (thenStop : Bool) (invoked : Except LiveError LayerInvocation) :
    (finish thenStop invoked).Fits state := by
  cases thenStop <;> exact trivial

theorem Moves.finish (caller : Caller) (thenStop : Bool)
    (invoked : Except LiveError LayerInvocation) :
    Moves application free state state caller (finish thenStop invoked) where
  gains gate h := by simp [finish_holds] at h
  fits _ := finish_fits thenStop invoked
  changes _ := .inl rfl

theorem Moves.refuse (caller : Caller) (invoked : Option (Except LiveError LayerInvocation))
    (error : LiveError) :
    Moves application free state state caller (.returned invoked (some (.error error))) where
  gains gate h := by simp [holds] at h
  fits _ := trivial
  changes _ := .inl rfl

theorem primary_application (h : application.primary = some layer) :
    layer.slot.application = 0 := by
  have hfound := List.find?_some h
  simp only [Bool.and_eq_true, decide_eq_true_eq] at hfound
  exact hfound.1

theorem step_moves {caller : Caller} (h : caller.step application free state answer =
    some (state', caller')) : Moves application free state state' caller caller' := by
  unfold step at h
  split at h
  case h_1 inputs thenStop =>
    split at h
    · cases h
      exact .finish _ _ _
    split at h
    · rename_i hfree
      cases h
      exact ⟨fun gate hgate => .inr (by simp_all [holds]), fun _ => trivial, fun _ => .inl rfl⟩
    · cases h
  case h_2 inputs thenStop =>
    split at h
    · cases h
      exact .finish _ _ _
    rename_i hrunning
    split at h
    · cases h
      exact .finish _ _ _
    · rename_i layer hprimary
      cases h
      exact ⟨fun gate hgate => .inl hgate,
        fun _ => ⟨not_not.mp hrunning, primary_application hprimary⟩, fun _ => .inl rfl⟩
  case h_3 =>
    cases h
    exact .finish _ _ _
  case h_4 taken invoked =>
    split at h
    · split at h
      · rename_i hfree
        cases h
        refine ⟨fun gate hgate => ?_, fun _ => trivial, fun _ => .inl rfl⟩
        simp only [holds, decide_eq_true_eq] at hgate ⊢
        rcases Nat.lt_succ_iff_lt_or_eq.mp hgate with hlt | rfl
        · exact .inl hlt
        · exact .inr hfree
      · cases h
    rename_i htaken
    have hall : ∀ gate < application.invocations,
        holds application (.stop taken invoked) gate = true := by
      intro gate hgate
      simp only [holds, decide_eq_true_eq]
      omega
    split at h
    · cases h
      exact ⟨fun gate hgate => by simp [holds] at hgate, fun _ => rfl, fun _ => .inl rfl⟩
    · cases h
      exact .refuse _ _ _
    · cases h
      exact ⟨fun gate hgate => .inl (hall gate (by simpa [holds] using hgate)), fun _ => rfl,
        fun _ => .inr ⟨hall, by simp⟩⟩
    · cases h
      exact ⟨fun gate hgate => .inl (hall gate (by simpa [holds] using hgate)), fun _ => rfl,
        fun _ => .inr ⟨hall, by simp⟩⟩
    · cases h
      exact .refuse _ _ _
    · cases h
      exact .refuse _ _ _
  case h_5 layer left failures invoked result =>
    split at h <;> cases h <;>
      exact ⟨fun gate hgate => .inl hgate, fun hfits => hfits, fun _ => .inl rfl⟩
  case h_6 failures invoked =>
    have hall : ∀ gate < application.invocations,
        holds application (.stopping [] failures invoked) gate = true := by
      intro gate hgate
      simpa [holds] using hgate
    split at h <;> cases h
    · exact ⟨fun gate hgate => by simp [holds] at hgate, fun _ => rfl,
        fun hfits => .inr ⟨hall, by simp [show state = .stopping from hfits]⟩⟩
    · exact ⟨fun gate hgate => by simp [holds] at hgate, fun _ => trivial,
        fun hfits => .inr ⟨hall, by simp [show state = .stopping from hfits]⟩⟩
  case h_7 => cases h

/-- A call that holds no gate stays fitting whatever the one that holds them all does. -/
theorem Fits.other {caller : Caller} (h : caller.Fits state) (hgates : 0 < application.invocations)
    (hnone : ∀ gate < application.invocations, caller.holds application gate = false)
    (hstopped : state ≠ .stopped) (state' : LifecycleState) : caller.Fits state' := by
  have hfirst := hnone 0 hgates
  cases caller with
  | calling layer inputs thenStop => simp [holds] at hfirst
  | stopping left failures invoked => simp [holds, hgates] at hfirst
  | returned invoked stopped =>
    match stopped with
    | some (.ok ()) => exact absurd h hstopped
    | some (.error error) => trivial
    | none => trivial
  | invoke inputs thenStop => trivial
  | entered inputs thenStop => trivial
  | stop taken invoked => trivial

end Step

section Roles
variable {application : RunningApplication} {free : Nat → Bool} {state : LifecycleState}

/-- A call that leaves the state alone: an invocation, or one that has returned. -/
def Idle : Caller → Prop
  | .invoke _ thenStop | .entered _ thenStop | .calling _ _ thenStop => thenStop = false
  | .returned .. => True
  | _ => False

/-- Where the only stop of an application stands, by the application's state. -/
def Stops (state : LifecycleState) : Caller → Prop
  | .stop _ none => state = .running
  | .stopping _ _ none => state = .stopping
  | .returned none (some (.ok ())) => state = .stopped
  | .returned none (some (.error _)) => state = .failed
  | _ => False

/-- No layer has failed to stop. -/
def Clean : Caller → Prop
  | .stopping _ failures _ => failures = []
  | _ => True

theorem idle_step {caller : Caller} (h : caller.Idle)
    (hstep : caller.step application free state answer = some (state', caller')) :
    state' = state ∧ caller'.Idle := by
  have hfinish : ∀ invoked, (finish false invoked).Idle := fun _ => trivial
  unfold step at hstep
  split at hstep
  case h_1 inputs thenStop =>
    obtain rfl : thenStop = false := h
    split at hstep
    · cases hstep
      exact ⟨rfl, hfinish _⟩
    split at hstep <;> cases hstep
    exact ⟨rfl, rfl⟩
  case h_2 inputs thenStop =>
    obtain rfl : thenStop = false := h
    split at hstep
    · cases hstep
      exact ⟨rfl, hfinish _⟩
    split at hstep <;> cases hstep
    · exact ⟨rfl, hfinish _⟩
    · exact ⟨rfl, rfl⟩
  case h_3 layer inputs thenStop result =>
    obtain rfl : thenStop = false := h
    cases hstep
    exact ⟨rfl, hfinish _⟩
  case h_4 => cases h
  case h_5 => cases h
  case h_6 => cases h
  case h_7 => cases hstep

theorem stops_step {caller : Caller} (h : caller.Stops state)
    (hstep : caller.step application free state answer = some (state', caller')) :
    caller'.Stops state' := by
  unfold step at hstep
  split at hstep
  case h_1 => cases h
  case h_2 => cases h
  case h_3 => cases h
  case h_4 taken invoked =>
    match invoked with
    | some _ => cases h
    | none =>
      obtain rfl : state = .running := h
      split at hstep
      · split at hstep <;> cases hstep
        exact rfl
      · cases hstep
        exact rfl
  case h_5 layer left failures invoked result =>
    match invoked with
    | some _ => cases h
    | none =>
      obtain rfl : state = .stopping := h
      split at hstep <;> cases hstep <;> exact rfl
  case h_6 failures invoked =>
    match invoked with
    | some _ => cases h
    | none => split at hstep <;> cases hstep <;> exact rfl
  case h_7 => cases hstep

/-- As long as layers stop, a stop stays clean and no state becomes failed. -/
theorem clean_step {caller : Caller} (h : caller.Clean) (hstate : state ≠ .failed)
    (hanswer : ∀ result, answer = .stopped result → result = .ok ())
    (hstep : caller.step application free state answer = some (state', caller')) :
    state' ≠ .failed ∧ caller'.Clean := by
  have hfinish : ∀ thenStop invoked, (finish thenStop invoked).Clean := by
    intro thenStop invoked
    cases thenStop <;> exact trivial
  unfold step at hstep
  split at hstep
  case h_1 =>
    split at hstep
    · cases hstep
      exact ⟨hstate, hfinish _ _⟩
    split at hstep <;> cases hstep
    exact ⟨hstate, trivial⟩
  case h_2 =>
    split at hstep
    · cases hstep
      exact ⟨hstate, hfinish _ _⟩
    split at hstep <;> cases hstep
    · exact ⟨hstate, hfinish _ _⟩
    · exact ⟨hstate, trivial⟩
  case h_3 =>
    cases hstep
    exact ⟨hstate, hfinish _ _⟩
  case h_4 =>
    split at hstep
    · split at hstep <;> cases hstep
      exact ⟨hstate, trivial⟩
    split at hstep <;> cases hstep <;> first | exact ⟨hstate, trivial⟩ | exact ⟨by simp, rfl⟩
  case h_5 layer left failures invoked result =>
    obtain rfl := hanswer result rfl
    cases hstep
    exact ⟨hstate, h⟩
  case h_6 failures invoked =>
    have hnone : failures = [] := h
    rw [if_pos hnone] at hstep
    cases hstep
    exact ⟨by simp, trivial⟩
  case h_7 => cases hstep

end Roles

end Caller

end HologramLive.Lifecycle
