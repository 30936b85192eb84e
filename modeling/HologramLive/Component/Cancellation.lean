import HologramLive.Error
import HologramLive.Lib.Interleaving
import HologramLive.Store

/-! Invocations of one prepared component: they run one at a time, on an engine whose epoch they
share. -/

namespace HologramLive.Component
open Lib Lib.Interleaving

/-- How far the blocking task of an invocation has come with its inputs. A guest that is `running`
is interrupted once the epoch is at its deadline, and returns its output only before. -/
inductive Worker where
  | locking (inputs : List Bytes)
  | head (inputs outputs : List Bytes)
  | tested (input : Bytes) (inputs outputs : List Bytes)
  | running (deadline : Nat) (input : Bytes) (inputs outputs : List Bytes)
  | ended (result : Except LiveError (List Bytes))

/-- What has become of the guard: it is armed while the call waits, and its cancel first sets the
flag and then increments the epoch. -/
inductive Guard where
  | waiting
  | cancelling
  | cancelled
  | disarmed
  deriving DecidableEq

/-- An invocation, with whether the layer was stopped while it was there. -/
structure Invocation where
  guard : Guard
  flag : Bool
  worker : Worker
  stopped : Bool

structure ComponentLayer where
  inputMaxBytes : Nat
  running : Bool
  epoch : Nat
  serial : Option Nat
  stopping : Nat
  invocations : List Invocation

def ComponentLayer.new (inputMaxBytes : Nat) : ComponentLayer where
  inputMaxBytes := inputMaxBytes
  running := false
  epoch := 0
  serial := none
  stopping := 0
  invocations := []

namespace Cancellation

inductive Action where
  | start
  | stop
  | stopEpoch
  | invoke (inputs : List Bytes)
  /-- The deadline passes, or the call is dropped. -/
  | cancel (place : Nat)
  | increment (place : Nat)
  | join (place : Nat)
  | lock (place : Nat)
  | test (place : Nat)
  | arm (place : Nat)
  | complete (place : Nat) (output : Bytes)
  | interrupt (place : Nat) (error : LiveError)
  /-- The guest fails, or what comes before it does. -/
  | fail (place : Nat) (error : LiveError)

def cancelledError : LiveError := .capability "Component v1 invocation was cancelled"

def hasEnded : Worker → Bool
  | .ended _ => true
  | _ => false

/-- An invocation moves on; one that has ended gives up the execution lock. -/
def moved (layer : ComponentLayer) (place : Nat) (own : Invocation) (worker : Worker) :
    ComponentLayer :=
  { layer with
    serial := if hasEnded worker then none else layer.serial
    invocations := layer.invocations.set place { own with worker } }

/-- The test of the flag, for one input or at the end of them. -/
def test (flag : Bool) (inputs outputs : List Bytes) : Worker :=
  match inputs with
  | [] => .ended (.ok outputs)
  | input :: rest => if flag then .ended (.error cancelledError) else .tested input rest outputs

def work (layer : ComponentLayer) (place : Nat) (own : Invocation) : Action → Option ComponentLayer
  | .lock _ => match own.worker with
    | .locking inputs =>
      if layer.serial = none then
        some { moved layer place own (.head inputs []) with serial := some place }
      else none
    | _ => none
  | .test _ => match own.worker with
    | .head inputs outputs => some (moved layer place own (test own.flag inputs outputs))
    | _ => none
  | .arm _ => match own.worker with
    | .tested input inputs outputs =>
      some (moved layer place own (.running (layer.epoch + 1) input inputs outputs))
    | _ => none
  | .complete _ output => match own.worker with
    | .running deadline _ inputs outputs =>
      if layer.epoch < deadline then
        some (moved layer place own (.head inputs (outputs ++ [output])))
      else none
    | _ => none
  | .interrupt _ error => match own.worker with
    | .running deadline _ _ _ =>
      if deadline ≤ layer.epoch then some (moved layer place own (.ended (.error error))) else none
    | _ => none
  | .fail _ error => match own.worker with
    | .tested _ _ _ => some (moved layer place own (.ended (.error error)))
    | .running _ _ _ _ => some (moved layer place own (.ended (.error error)))
    | _ => none
  | .cancel _ =>
    if own.guard = .waiting then
      some { layer with invocations :=
        layer.invocations.set place { own with guard := .cancelling, flag := true } }
    else none
  | .increment _ =>
    if own.guard = .cancelling then
      some { layer with
        epoch := layer.epoch + 1
        invocations := layer.invocations.set place { own with guard := .cancelled } }
    else none
  | .join _ =>
    if own.guard = .waiting ∧ hasEnded own.worker then
      some { layer with invocations := layer.invocations.set place { own with guard := .disarmed } }
    else none
  | _ => none

def Action.place? : Action → Option Nat
  | .cancel place => some place
  | .increment place => some place
  | .join place => some place
  | .lock place => some place
  | .test place => some place
  | .arm place => some place
  | .complete place _ => some place
  | .interrupt place _ => some place
  | .fail place _ => some place
  | _ => none

def step (layer : ComponentLayer) (action : Action) : Option ComponentLayer :=
  match action with
  | .start => some { layer with running := true }
  | .stop => some { layer with running := false, stopping := layer.stopping + 1 }
  | .stopEpoch =>
    if 0 < layer.stopping then
      some { layer with
        stopping := layer.stopping - 1
        epoch := layer.epoch + 1
        invocations := layer.invocations.map fun own => { own with stopped := true } }
    else none
  | .invoke inputs =>
    if layer.running ∧ inputs.all (·.length ≤ layer.inputMaxBytes) then
      some { layer with invocations := layer.invocations ++ [⟨.waiting, false, .locking inputs, false⟩] }
    else none
  | action => action.place?.bind fun place => layer.invocations[place]?.bind fun own =>
    work layer place own action

/-! ### Which invocations an increment of the epoch reaches -/

/-- Neither cancelled nor stopped. -/
def Wanted (own : Invocation) : Prop := own.flag = false ∧ own.stopped = false

/-- What is asked of cancellation: a cancel that has completed leaves no input of its invocation
that could complete, and no other invocation can be interrupted, as it is wanted. -/
structure Reaching (layer : ComponentLayer) : Prop where
  own : ∀ (place : Nat) (own : Invocation), layer.invocations[place]? = some own →
    own.guard = .cancelled → ∀ output, step layer (.complete place output) = none
  others : ∀ (place : Nat) (own : Invocation), layer.invocations[place]? = some own → Wanted own →
    ∀ error, step layer (.interrupt place error) = none

/-- The deadline of a guest that is running. -/
def deadline? : Worker → Option Nat
  | .running deadline _ _ _ => some deadline
  | _ => none

/-- The flag was tested for an input that has no deadline yet. -/
def untimed : Worker → Bool
  | .tested _ _ _ => true
  | _ => false

/-- An increment for one invocation does not fall between its test of the flag and its arming of
the deadline, nor while another one that is wanted is running. -/
def Action.Timely (layer : ComponentLayer) : Action → Prop
  | .increment place => ∀ (other : Nat) (own : Invocation), layer.invocations[other]? = some own →
      if other = place then untimed own.worker = false
      else Wanted own → deadline? own.worker = none
  | _ => True

/-- What is known of an invocation under an epoch. -/
structure Sound (epoch : Nat) (own : Invocation) : Prop where
  flagged : own.guard = .cancelling ∨ own.guard = .cancelled → own.flag = true
  timed : own.guard = .cancelled → untimed own.worker = false
  armed : ∀ deadline, deadline? own.worker = some deadline → deadline ≤ epoch + 1
  past : own.guard = .cancelled → ∀ deadline, deadline? own.worker = some deadline → deadline ≤ epoch
  ahead : Wanted own → ∀ deadline, deadline? own.worker = some deadline → epoch < deadline

def AllSound (layer : ComponentLayer) : Prop := ∀ own ∈ layer.invocations, Sound layer.epoch own

section Steps
variable {layer next : ComponentLayer} {own : Invocation} {place epoch : Nat}

/-- A worker that is neither running nor about to run asks nothing of the epoch. -/
theorem Sound.idle {worker : Worker} (h : Sound epoch own) (huntimed : untimed worker = false)
    (hdeadline : deadline? worker = none) : Sound epoch { own with worker } where
  flagged := h.flagged
  timed := fun _ => huntimed
  armed := fun deadline heq => nomatch hdeadline.symm.trans heq
  past := fun _ deadline heq => nomatch hdeadline.symm.trans heq
  ahead := fun _ deadline heq => nomatch hdeadline.symm.trans heq

theorem AllSound.set {own : Invocation} (h : AllSound layer) (hown : Sound layer.epoch own)
    (serial : Option Nat) :
    AllSound { layer with serial, invocations := layer.invocations.set place own } := by
  intro other hother
  rcases List.mem_or_eq_of_mem_set hother with hold | rfl
  · exact h other hold
  · exact hown

/-- A later epoch, where no wanted invocation is running. -/
theorem Sound.later (h : Sound epoch own) (hidle : Wanted own → deadline? own.worker = none) :
    Sound (epoch + 1) own where
  flagged := h.flagged
  timed := h.timed
  armed := fun deadline heq => Nat.le_succ_of_le (h.armed deadline heq)
  past := fun hcancelled deadline heq => Nat.le_succ_of_le (h.past hcancelled deadline heq)
  ahead := fun hwanted deadline heq => nomatch (hidle hwanted).symm.trans heq

/-- Testing the flag for the next input. -/
theorem Sound.tested (h : Sound epoch own) (inputs outputs : List Bytes) {worker : Worker}
    (hworker : worker = test own.flag inputs outputs) : Sound epoch { own with worker } := by
  cases inputs with
  | nil => exact h.idle (hworker ▸ rfl) (hworker ▸ rfl)
  | cons input rest =>
    have hdeadline : deadline? worker = none := by
      rw [hworker, test]
      split <;> rfl
    refine ⟨h.flagged, fun hcancelled => ?_, fun _ heq => ?_, fun _ _ heq => ?_, fun _ _ heq => ?_⟩
    · rw [hworker, h.flagged (.inr hcancelled)]
      rfl
    · cases hdeadline.symm.trans heq
    · cases hdeadline.symm.trans heq
    · cases hdeadline.symm.trans heq

/-- Arming the deadline of an input whose flag was tested. -/
theorem Sound.arm (h : Sound epoch own) {input : Bytes} {inputs outputs : List Bytes}
    (hworker : own.worker = .tested input inputs outputs) :
    Sound epoch { own with worker := .running (epoch + 1) input inputs outputs } := by
  refine ⟨h.flagged, fun _ => rfl, fun deadline heq => ?_, fun hcancelled deadline heq => ?_,
    fun _ deadline heq => ?_⟩
  · obtain rfl := Option.some.inj heq
    exact Nat.le_refl _
  · have htimed := h.timed hcancelled
    rw [hworker] at htimed
    cases htimed
  · obtain rfl := Option.some.inj heq
    exact Nat.lt_succ_self _

/-- The epoch that reaches the invocation it was made for. -/
theorem Sound.cancelled (h : Sound epoch own) (hguard : own.guard = .cancelling)
    (htimed : untimed own.worker = false) : Sound (epoch + 1) { own with guard := .cancelled } := by
  have hflag := h.flagged (.inl hguard)
  refine ⟨fun _ => hflag, fun _ => htimed, fun deadline heq => ?_, fun _ => h.armed,
    fun hwanted => ?_⟩
  · exact Nat.le_succ_of_le (h.armed deadline heq)
  · cases hflag.symm.trans hwanted.1

/-- An untimely increment apart, what one step does to an invocation leaves it sound. -/
theorem AllSound.work {action : Action} (h : AllSound layer)
    (hplace : layer.invocations[place]? = some own) (htimely : action.Timely layer)
    (haction : action.place? = some place)
    (hwork : work layer place own action = some next) : AllSound next := by
  have hown := h own (List.mem_of_getElem? hplace)
  cases action with
  | lock _ =>
    simp only [Cancellation.work] at hwork
    split at hwork
    · split at hwork
      · obtain rfl := Option.some.inj hwork
        exact h.set (hown.idle rfl rfl) _
      · cases hwork
    · cases hwork
  | test _ =>
    simp only [Cancellation.work] at hwork
    split at hwork
    · rename_i inputs outputs hworker
      obtain rfl := Option.some.inj hwork
      exact h.set (hown.tested inputs outputs rfl) _
    · cases hwork
  | arm _ =>
    simp only [Cancellation.work] at hwork
    split at hwork
    · rename_i input inputs outputs hworker
      obtain rfl := Option.some.inj hwork
      exact h.set (hown.arm hworker) _
    · cases hwork
  | complete _ output =>
    simp only [Cancellation.work] at hwork
    split at hwork
    · split at hwork
      · obtain rfl := Option.some.inj hwork
        exact h.set (hown.idle rfl rfl) _
      · cases hwork
    · cases hwork
  | interrupt _ error =>
    simp only [Cancellation.work] at hwork
    split at hwork
    · split at hwork
      · obtain rfl := Option.some.inj hwork
        exact h.set (hown.idle rfl rfl) _
      · cases hwork
    · cases hwork
  | fail _ error =>
    simp only [Cancellation.work] at hwork
    split at hwork
    · obtain rfl := Option.some.inj hwork
      exact h.set (hown.idle rfl rfl) _
    · obtain rfl := Option.some.inj hwork
      exact h.set (hown.idle rfl rfl) _
    · cases hwork
  | cancel _ =>
    simp only [Cancellation.work] at hwork
    split at hwork
    · obtain rfl := Option.some.inj hwork
      refine h.set ?_ layer.serial
      exact {
        flagged := fun _ => rfl
        timed := nofun
        armed := hown.armed
        past := nofun
        ahead := fun hwanted => nomatch hwanted.1 }
    · cases hwork
  | join _ =>
    simp only [Cancellation.work] at hwork
    split at hwork
    · obtain rfl := Option.some.inj hwork
      refine h.set ?_ layer.serial
      exact {
        flagged := fun hguard => nomatch hguard
        timed := nofun
        armed := hown.armed
        past := nofun
        ahead := hown.ahead }
    · cases hwork
  | increment _ =>
    simp only [Cancellation.work] at hwork
    split at hwork
    · rename_i hguard
      obtain rfl := Option.some.inj hwork
      obtain rfl := Option.some.inj haction
      intro other hother
      rcases mem_set_cases hother with rfl | ⟨index, hne, hindex⟩
      · have htimed := htimely _ own hplace
        rw [if_pos rfl] at htimed
        exact hown.cancelled hguard htimed
      · have hidle := htimely index other hindex
        rw [if_neg hne] at hidle
        exact (h other (List.mem_of_getElem? hindex)).later hidle
    · cases hwork
  | start => cases hwork
  | stop => cases hwork
  | stopEpoch => cases hwork
  | invoke inputs => cases hwork

theorem AllSound.step {action : Action} (h : AllSound layer) (htimely : action.Timely layer)
    (hstep : step layer action = some next) : AllSound next := by
  have hwork : ∀ {place : Nat}, action.place? = some place →
      (layer.invocations[place]?.bind fun own => Cancellation.work layer place own action) = some next →
        AllSound next := by
    intro place haction hbind
    obtain ⟨own, hplace, hmoved⟩ := Option.bind_eq_some_iff.mp hbind
    exact h.work hplace htimely haction hmoved
  cases action with
  | start =>
    obtain rfl := Option.some.inj hstep
    exact h
  | stop =>
    obtain rfl := Option.some.inj hstep
    exact h
  | stopEpoch =>
    simp only [Cancellation.step] at hstep
    split at hstep
    · obtain rfl := Option.some.inj hstep
      intro other hother
      obtain ⟨own, hown, rfl⟩ := List.mem_map.mp hother
      have hsound := h own hown
      have hstopped : Sound layer.epoch { own with stopped := true } :=
        ⟨hsound.flagged, hsound.timed, hsound.armed, hsound.past, fun hwanted => nomatch hwanted.2⟩
      exact hstopped.later fun hwanted => nomatch hwanted.2
    · cases hstep
  | invoke inputs =>
    simp only [Cancellation.step] at hstep
    split at hstep
    · obtain rfl := Option.some.inj hstep
      intro other hother
      rcases List.mem_append.mp hother with hold | hnew
      · exact h other hold
      · obtain rfl := List.mem_singleton.mp hnew
        exact ⟨(nomatch ·), nofun, nofun, nofun, fun _ => nofun⟩
    · cases hstep
  | cancel place => exact hwork rfl hstep
  | increment place => exact hwork rfl hstep
  | join place => exact hwork rfl hstep
  | lock place => exact hwork rfl hstep
  | test place => exact hwork rfl hstep
  | arm place => exact hwork rfl hstep
  | complete place output => exact hwork rfl hstep
  | interrupt place error => exact hwork rfl hstep
  | fail place error => exact hwork rfl hstep

/-- The epoch has passed the deadlines of the cancelled invocations and no others. -/
theorem AllSound.reaching (h : AllSound layer) : Reaching layer where
  own := by
    intro place own hplace hcancelled output
    have hsound := h own (List.mem_of_getElem? hplace)
    simp only [Cancellation.step, Action.place?, hplace, Option.bind_some, Cancellation.work]
    split
    · rename_i deadline input inputs outputs hworker
      have hpast := hsound.past hcancelled deadline (by rw [hworker]; rfl)
      rw [if_neg (Nat.not_lt_of_le hpast)]
    · rfl
  others := by
    intro place own hplace hwanted error
    have hsound := h own (List.mem_of_getElem? hplace)
    simp only [Cancellation.step, Action.place?, hplace, Option.bind_some, Cancellation.work]
    split
    · rename_i deadline input inputs outputs hworker
      have hahead := hsound.ahead hwanted deadline (by rw [hworker]; rfl)
      rw [if_neg (Nat.not_le_of_lt hahead)]
    · rfl

end Steps

theorem allSound_of_reaches {inputMaxBytes : Nat} {layer : ComponentLayer}
    (h : Reaches step (fun layer action => action.Timely layer) (.new inputMaxBytes) layer) :
    AllSound layer := by
  refine h.invariant ?_ fun _ _ _ hsound htimely hstep => AllSound.step hsound htimely hstep
  intro own hown
  cases hown

/-- Cancellation reaches its own invocation and no other, in every run whose increments are
timely. -/
theorem cancellation_reaches (inputMaxBytes : Nat) {layer : ComponentLayer}
    (h : Reaches step (fun layer action => action.Timely layer) (.new inputMaxBytes) layer) :
    Reaching layer :=
  (allSound_of_reaches h).reaching

theorem eq_tested {worker : Worker} (h : untimed worker = true) :
    ∃ input inputs outputs, worker = .tested input inputs outputs := by
  cases worker with
  | tested input inputs outputs => exact ⟨input, inputs, outputs, rfl⟩
  | _ => cases h

theorem eq_running {worker : Worker} {deadline : Nat} (h : deadline? worker = some deadline) :
    ∃ input inputs outputs, worker = .running deadline input inputs outputs := by
  cases worker with
  | running _ input inputs outputs =>
    obtain rfl := Option.some.inj h
    exact ⟨input, inputs, outputs, rfl⟩
  | _ => cases h

section Untimely
variable {layer next : ComponentLayer} {own : Invocation} {place : Nat}

/-- A deadline that is armed after its invocation's cancel is never reached. -/
theorem arm_misses (hplace : layer.invocations[place]? = some own) (hguard : own.guard = .cancelled)
    (huntimed : untimed own.worker = true) :
    ∃ last, step layer (.arm place) = some last ∧ ¬ Reaching last := by
  obtain ⟨input, inputs, outputs, hworker⟩ := eq_tested huntimed
  refine ⟨moved layer place own (.running (layer.epoch + 1) input inputs outputs), ?_, ?_⟩
  · simp only [step, Action.place?, hplace, Option.bind_some, work, hworker]
  · intro hreaching
    have hlt := (List.getElem?_eq_some_iff.mp hplace).1
    have hself : (moved layer place own (.running (layer.epoch + 1) input inputs outputs)).invocations[place]?
        = some { own with worker := .running (layer.epoch + 1) input inputs outputs } :=
      List.getElem?_set_self hlt
    have hnone := hreaching.own place _ hself hguard []
    simp only [step, Action.place?, hself, Option.bind_some, work] at hnone
    have hbelow : (moved layer place own
        (.running (layer.epoch + 1) input inputs outputs)).epoch < layer.epoch + 1 :=
      Nat.lt_succ_self _
    rw [if_pos hbelow] at hnone
    cases hnone

/-- An increment that is not timely misses its invocation, once that arms its deadline, or hits
another one. -/
theorem untimely_fails (h : AllSound layer) (huntimely : ¬ (Action.increment place).Timely layer)
    (hstep : step layer (.increment place) = some next) :
    ¬ Reaching next ∨ ∃ last, step next (.arm place) = some last ∧ ¬ Reaching last := by
  obtain ⟨own, hplace, hwork⟩ := Option.bind_eq_some_iff.mp hstep
  have hlt := (List.getElem?_eq_some_iff.mp hplace).1
  simp only [work] at hwork
  split at hwork
  case isFalse => cases hwork
  obtain rfl := Option.some.inj hwork
  simp only [Action.Timely, not_forall] at huntimely
  obtain ⟨other, found, hfound, hbad⟩ := huntimely
  by_cases hsame : other = place
  · subst hsame
    obtain rfl := Option.some.inj (hplace.symm.trans hfound)
    rw [if_pos rfl, Bool.not_eq_false] at hbad
    have hself : (layer.invocations.set other { own with guard := .cancelled })[other]? =
        some { own with guard := .cancelled } := List.getElem?_set_self hlt
    exact .inr (arm_misses hself rfl hbad)
  · rw [if_neg hsame, Classical.not_imp] at hbad
    obtain ⟨hwanted, hrunning⟩ := hbad
    obtain ⟨deadline, hdeadline⟩ := Option.ne_none_iff_exists'.mp hrunning
    obtain ⟨input, inputs, outputs, hworker⟩ := eq_running hdeadline
    have harmed := (h found (List.mem_of_getElem? hfound)).armed deadline hdeadline
    refine .inl fun hreaching => ?_
    have hstill : (layer.invocations.set place { own with guard := .cancelled })[other]? =
        some found := by
      rw [List.getElem?_set_ne (Ne.symm hsame), hfound]
    have hnone := hreaching.others other found hstill hwanted cancelledError
    simp only [step, Action.place?, hstill, Option.bind_some, work, hworker, if_pos harmed] at hnone
    cases hnone

end Untimely

section Sample

/-- One invocation, up to its first test of the flag. -/
def testing : List Action := [.start, .invoke [[7]], .lock 0, .test 0]

/-- The cancel of an invocation comes between its test of the flag and its arming. -/
def missed : List Action := testing ++ [Action.cancel 0, .increment 0, .arm 0]

/-- The cancel of an invocation comes while its guest is running. -/
def reached : List Action := testing ++ [Action.arm 0, .cancel 0, .increment 0]

/-- The invocations' guards with the results they have had, and the epoch. -/
def observe (layer : ComponentLayer) : List (Guard × Bool × Option Nat) × Nat :=
  (layer.invocations.map fun own => (own.guard, hasEnded own.worker, deadline? own.worker), layer.epoch)

theorem deadline_of_observe {layer : ComponentLayer} {guard : Guard} {deadline epoch : Nat}
    (h : observe layer = ([(guard, false, some deadline)], epoch)) :
    ∃ own : Invocation, layer.invocations[0]? = some own ∧ own.guard = guard ∧
      deadline? own.worker = some deadline ∧ layer.epoch = epoch := by
  obtain ⟨hinvocations, hepoch⟩ := Prod.mk.inj h
  obtain ⟨own, hown, hobserved⟩ := List.map_eq_singleton_iff.mp hinvocations
  obtain ⟨hguard, hrest⟩ := Prod.mk.inj hobserved
  exact ⟨own, by rw [hown]; rfl, hguard, (Prod.mk.inj hrest).2, hepoch⟩

/-- An input of an invocation can complete after the cancel of it has. -/
theorem cancellation_misses : ¬ ∀ layer, Reaches step (fun _ _ => True) (.new 8) layer →
    Reaching layer := by
  intro hclaim
  have hobserved : (run step missed (.new 8)).map observe = some ([(.cancelled, false, some 2)], 1) := by
    decide
  obtain ⟨layer, hrun, hlayer⟩ := Option.map_eq_some_iff.mp hobserved
  obtain ⟨own, hplace, hguard, hdeadline, hepoch⟩ := deadline_of_observe hlayer
  obtain ⟨input, inputs, outputs, hworker⟩ := eq_running hdeadline
  have hnone := (hclaim layer (Reaches.start.run hrun)).own 0 own hplace hguard []
  simp only [step, Action.place?, hplace, Option.bind_some, work, hworker, hepoch] at hnone
  cases hnone

/-- While there is one invocation, its guest has its deadline by the time of the increment. -/
def timely (layer : ComponentLayer) : Action → Bool
  | .increment place => layer.invocations.length = 1 && place = 0 &&
      layer.invocations.all fun own => !untimed own.worker
  | _ => true

theorem cancellation_reaches_running : ∃ layer, observe layer = ([(.cancelled, false, some 1)], 1) ∧
    Reaching layer := by
  have hobserved : (checked step timely reached (.new 8)).map observe =
      some ([(.cancelled, false, some 1)], 1) := by decide
  obtain ⟨layer, hrun, hlayer⟩ := Option.map_eq_some_iff.mp hobserved
  refine ⟨layer, hlayer, cancellation_reaches 8 (Reaches.start.checked ?_ hrun)⟩
  intro state action htimely
  cases action with
  | increment place =>
    simp only [timely, Bool.and_eq_true, decide_eq_true_eq, List.all_eq_true] at htimely
    obtain ⟨⟨hone, rfl⟩, huntimed⟩ := htimely
    intro other own hother
    have hlt := (List.getElem?_eq_some_iff.mp hother).1
    rw [if_pos (by omega)]
    simpa using huntimed own (List.mem_of_getElem? hother)
  | _ => trivial

end Sample

end Cancellation
end HologramLive.Component
