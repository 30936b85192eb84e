import HologramLive.Lifecycle.Intent
import HologramLive.Lifecycle.Transaction

namespace HologramLive.Lifecycle
open Plan Lib Lib.Result Lib.Interleaving

/-- What one startup is given, and how the standard library words its texts. -/
structure Launch where
  upstream : Upstream
  plan : ApplicationPlan
  registry : ProviderRegistry
  admittedGrants : List (Nat × EffectiveGrant)
  texts : StandardTexts

namespace Launch
variable (launch : Launch)

def run : Run :=
  prepareAndStartWithAdmittedGrants launch.upstream launch.plan launch.registry
    launch.admittedGrants

def application : Option RunningApplication := launch.run.result.toOption

/-- The application behind each gate, in the order the gates are made. -/
def order : List Nat :=
  match startupOrder launch.plan with
  | .error _ => []
  | .ok (_, order) => order

/-- The layers prepared by the first calls of the startup. -/
def prepared (made : Nat) : List PreparedApplicationLayer :=
  launch.run.prepared.take ((launch.run.calls.take made).countP (·.prepared.isSome))

/-- The primary a gate's broker is bound to: from when the last layer of its
application is prepared, the one at the primary position. -/
def primary (made gate : Nat) : Option PreparedApplicationLayer := do
  let application ← launch.order[gate]?
  let (_, layers) ← (applicationLayers launch.plan application).toOption
  let bound ← (viewPrimary launch.plan application layers).toOption
  let position ← bound
  let own := (launch.prepared made).filter fun layer => layer.slot.application = application
  if own.length = layers.length then own.find? fun layer => layer.layer.position = position
  else none

def applicationKappa (gate : Nat) : String :=
  match launch.order[gate]?.map (applicationLayers launch.plan) with
  | some (.ok (applicationKappa, _)) => applicationKappa
  | _ => ""

end Launch

/-- Where a startup has got to: between two of its calls, inside one, or over. -/
inductive Phase where
  | between (made : Nat)
  | inside (made : Nat)
  | over
  deriving DecidableEq

inductive Task where
  | caller (call : Caller)
  | intent (received : Intent)

/-- A startup and every call that has arrived beside it. -/
structure World where
  phase : Phase := .between 0
  state : LifecycleState := .preparing
  tasks : List Task := []

/-- What can happen next: the startup goes on, a call or an intent arrives, or one of
them goes on, with what it was waiting for. -/
inductive Action where
  | startup
  | invoke (inputs : List Bytes) (thenStop : Bool)
  | stop
  | handle (gate : Nat) (id : ViewAttachmentId) (request : ViewIntentRequest)
  | advance (task : Nat) (answer : Answer)

def Task.holds (application : Option RunningApplication) : Task → Nat → Bool
  | .caller call, gate => application.any fun application => call.holds application gate
  | .intent received, gate => received.holds gate

/-- The layer a task has an invocation in flight on. -/
def Task.invoking : Task → Option PreparedApplicationLayer
  | .caller (.calling layer _ _) => some layer
  | .intent (.calling _ primary _) => some primary
  | _ => none

namespace Launch
variable (launch : Launch)

def made (world : World) : Nat :=
  match world.phase with
  | .between made | .inside made => made
  | .over => launch.run.calls.length

def free (world : World) (gate : Nat) : Bool :=
  Interleaving.free (Task.holds launch.application) world.tasks gate

/-- Calls on a running application arrive once there is one. -/
def arrive (world : World) (caller : Caller) : Option World :=
  if world.phase = .over ∧ launch.application.isSome then
    some { world with tasks := world.tasks ++ [.caller caller] }
  else none

def advance (world : World) (place : Nat) (answer : Answer) : Option World :=
  match world.tasks[place]? with
  | none => none
  | some (.caller caller) =>
    launch.application.bind fun application =>
      (caller.step application (launch.free world) world.state answer).map fun (state, caller) =>
        { world with state, tasks := world.tasks.set place (.caller caller) }
  | some (.intent intent) =>
    (intent.step launch.texts launch.applicationKappa (launch.primary (launch.made world))
      (launch.free world) answer).map fun intent =>
        { world with tasks := world.tasks.set place (.intent intent) }

def step (world : World) : Action → Option World
  | .startup =>
    match world.phase with
    | .between made =>
      if made < launch.run.calls.length then some { world with phase := .inside made }
      else
        some
          { world with
            phase := .over
            state := if launch.application.isSome then .running else world.state }
    | .inside made => some { world with phase := .between (made + 1) }
    | .over => none
  | .invoke inputs thenStop => launch.arrive world (.invoke inputs thenStop)
  | .stop => launch.arrive world (.stop 0 none)
  | .handle gate id request =>
    some { world with tasks := world.tasks ++ [.intent (.arrived gate id request)] }
  | .advance place answer => launch.advance world place answer

/-- The stop calls in flight: a startup's rollback or a call's own stop. -/
inductive Stopping (world : World) : Slot → Prop where
  | rollback {made : Nat} {slot : Slot} (phase : world.phase = .inside made)
    (call : launch.run.calls[made]? = some (.stop slot)) : Stopping world slot
  | caller {layer : PreparedApplicationLayer}
    (task : Task.caller (.stopping (layer :: left) failures invoked) ∈ world.tasks) :
    Stopping world layer.slot

/-- At most one layer invocation of an application is in flight. -/
def OneAtATime (world : World) : Prop :=
  ∀ (i j : Nat) (left right : Task) (a b : PreparedApplicationLayer),
    world.tasks[i]? = some left → world.tasks[j]? = some right → left.invoking = some a →
    right.invoking = some b → a.slot.application = b.slot.application → i = j

/-- No layer is stopped while an invocation of its application is in flight. -/
def QuietStops (world : World) : Prop :=
  ∀ slot task layer, launch.Stopping world slot → task ∈ world.tasks →
    task.invoking = some layer → layer.slot.application ≠ slot.application

/-- Once a stop has returned, no invocation through the application is at a layer. -/
def StopsAreFinal (world : World) : Prop :=
  ∀ invoked layer inputs thenStop,
    Task.caller (.returned invoked (some (.ok ()))) ∈ world.tasks →
    Task.caller (.calling layer inputs thenStop) ∉ world.tasks

/-- Invocation and shutdown keep out of each other's way. -/
structure Safe (world : World) : Prop where
  exclusive : OneAtATime world
  quiet : launch.QuietStops world
  final : StopsAreFinal world

/-- Rollback and intents respect the gates: a layer is stopped with its application's
gate free, and no intent takes that gate until the layer has stopped. -/
def Gated (world : World) : Action → Prop
  | .startup => ∀ made slot gate, world.phase = .between made →
      launch.run.calls[made]? = some (.stop slot) → launch.order[gate]? = some slot.application →
      launch.free world gate = true
  | .advance place _ => ∀ made slot gate primary request, world.phase = .inside made →
      launch.run.calls[made]? = some (.stop slot) →
      world.tasks[place]? = some (.intent (.waiting gate primary request)) →
      launch.order[gate]? ≠ some slot.application
  | _ => True

end Launch

end HologramLive.Lifecycle
