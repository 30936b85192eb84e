import HologramLive.Lifecycle.Running
import HologramLive.Plan.Grants
import HologramLive.Plan.Strict

namespace HologramLive.Runtime
open Plan Lifecycle Lib

structure LayerRuntimeStatus where
  residentBytes : Nat := 0
  queued : Nat := 0
  processed : Nat := 0

structure ResidentHolo where
  kappa : String
  state : String
  inputCount : Nat
  outputCount : Nat
  residentBytes : Nat
  queued : Nat
  processed : Nat
  requestedCapabilitiesKappa : String
  effectiveGrantKappa : String
  grantSource : String
  authorization : String

structure HoloRunResult where
  kappa : String
  outputs : List Bytes
  elapsedMicros : Nat
  residentBytes : Nat
  completion : LayerCompletion
  requestedCapabilitiesKappa : String
  effectiveGrantKappa : String
  grantSource : String
  authorization : String

/-- An entry of the resident map, with its application by number. -/
structure ResidentEntry where
  application : Nat
  inputCount : Nat
  outputCount : Nat
  requestedCapabilitiesKappa : String
  effectiveGrantKappa : String
  grantSource : String

/-- An application some load has started, with every call made on it. -/
structure StartedApplication where
  kappa : String
  application : RunningApplication
  state : LifecycleState := .running
  callers : List Caller := []

inductive Reply where
  | loaded (result : Except LiveError ResidentHolo)
  | unloaded (result : Except LiveError Unit)
  | ran (result : Except LiveError HoloRunResult)
  | listed (records : List ResidentHolo)

/-- Where a `load_for`, `unload`, `run` or `list` has got to. A request that waits for
an application's call knows it by its number. -/
inductive Request where
  | load (kappa principal : String)
  | starting (kappa principal : String)
  | started (kappa : String) (entry : ResidentEntry)
  | discarding (application caller : Nat) (record : ResidentHolo)
  | unload (kappa : String)
  | unloading (application caller : Nat)
  | run (kappa : String) (inputs : List Bytes)
  | running (kappa : String) (entry : ResidentEntry) (caller : Nat)
  | list
  | answered (reply : Reply)

structure HoloRuntime where
  resident : List (String × ResidentEntry) := []
  applications : List StartedApplication := []
  requests : List Request := []

/-- What a runtime is built with. -/
structure Host where
  upstream : Upstream
  effectiveGrant : EffectiveGrant

/-- What a step finds around the runtime: the catalog and its store, the host's
providers, the audit log, and how busy each application is. -/
structure Surroundings where
  bytes : String → Except LiveError Bytes
  resolver : Resolver
  evaluate : Evaluator
  registry : Except LiveError ProviderRegistry
  audit : String → List CapabilityDecision → Except LiveError Unit
  status : Nat → LayerRuntimeStatus

def admitWithAudit (upstream : Upstream) (plan : ApplicationPlan) (effectiveGrant : EffectiveGrant)
    (audit : List CapabilityDecision → Except LiveError Unit) : Except LiveError Grants :=
  let admission := plan.admittedGrantsWith upstream effectiveGrant
  match admission.result, audit admission.observed with
  | .error error, _ => .error error
  | .ok _, .error error => .error error
  | .ok grants, .ok () => .ok grants

def notResident (kappa : String) : LiveError :=
  .notFound <| s!"{kappa} is not loaded as a resident holo; run " ++
    s!"`hologram holo load {kappa}` first"

/-- Plan, admit and start an archive; with the application goes its requested set. -/
def startApplication (host : Host) (surroundings : Surroundings) (kappa principal : String) :
    Except LiveError (RunningApplication × String) := do
  let bytes ← surroundings.bytes kappa
  let report ← explainApplication host.upstream bytes {} surroundings.resolver
  let registry ← surroundings.registry
  let plan ← (report.evaluateProviders surroundings.evaluate).intoApplicationPlan
  let admittedGrants ← admitWithAudit host.upstream plan host.effectiveGrant
    (surroundings.audit principal)
  let application ←
    (prepareAndStartWithAdmittedGrants host.upstream plan registry admittedGrants).result
  .ok (application, plan.requestedCapabilities.kappa)

namespace HoloRuntime
variable (runtime : HoloRuntime)

def record (status : Nat → LayerRuntimeStatus) (kappa : String) (entry : ResidentEntry) :
    ResidentHolo where
  kappa := kappa
  state := ((runtime.applications[entry.application]?).map (·.state.name)).getD ""
  inputCount := entry.inputCount
  outputCount := entry.outputCount
  residentBytes := (status entry.application).residentBytes
  queued := (status entry.application).queued
  processed := (status entry.application).processed
  requestedCapabilitiesKappa := entry.requestedCapabilitiesKappa
  effectiveGrantKappa := entry.effectiveGrantKappa
  grantSource := entry.grantSource
  authorization := "allowed"

def runResult (status : Nat → LayerRuntimeStatus) (kappa : String) (entry : ResidentEntry)
    (outcome : LayerInvocation) : HoloRunResult where
  kappa := kappa
  outputs := outcome.outputs
  elapsedMicros := outcome.elapsedMicros
  residentBytes := (status entry.application).residentBytes
  completion := outcome.completion
  requestedCapabilitiesKappa := entry.requestedCapabilitiesKappa
  effectiveGrantKappa := entry.effectiveGrantKappa
  grantSource := entry.grantSource
  authorization := "allowed"

def goOn (place : Nat) (request : Request) : HoloRuntime :=
  { runtime with requests := runtime.requests.set place request }

def answer (place : Nat) (reply : Reply) : HoloRuntime := runtime.goOn place (.answered reply)

/-- Make a call on an application and wait for it, under the number the call gets. -/
def enter (place application : Nat) (caller : Caller) (waiting : Nat → Request) :
    Option HoloRuntime :=
  (runtime.applications[application]?).map fun started =>
    { runtime with
      applications := runtime.applications.set application
        { started with callers := started.callers ++ [caller] }
      requests := runtime.requests.set place (waiting started.callers.length) }

/-- The call a request waits for, as far as it has got. -/
def caller (application caller : Nat) : Option Caller := do
  let started ← runtime.applications[application]?
  started.callers[caller]?

/-- One step of a request on the resident map. -/
def advance (host : Host) (surroundings : Surroundings) (place : Nat) : Option HoloRuntime :=
  match runtime.requests[place]? with
  | some (.load kappa principal) =>
    match runtime.resident.lookup kappa with
    | some entry =>
      some (runtime.answer place (.loaded (.ok (runtime.record surroundings.status kappa entry))))
    | none => some (runtime.goOn place (.starting kappa principal))
  | some (.starting kappa principal) =>
    match startApplication host surroundings kappa principal with
    | .error error => some (runtime.answer place (.loaded (.error error)))
    | .ok (application, requestedCapabilitiesKappa) =>
      let entry : ResidentEntry :=
        { application := runtime.applications.length
          inputCount := 1
          outputCount := 1
          requestedCapabilitiesKappa
          effectiveGrantKappa := host.effectiveGrant.kappa
          grantSource := host.effectiveGrant.source.name }
      some
        { runtime with
          applications := runtime.applications ++ [{ kappa, application }]
          requests := runtime.requests.set place (.started kappa entry) }
  | some (.started kappa entry) =>
    match runtime.resident.lookup kappa with
    | some existing =>
      let record := runtime.record surroundings.status kappa existing
      runtime.enter place entry.application (.stop 0 none) fun caller =>
        .discarding entry.application caller record
    | none =>
      some
        { runtime.answer place (.loaded (.ok (runtime.record surroundings.status kappa entry))) with
          resident := (kappa, entry) :: runtime.resident }
  | some (.discarding application caller record) =>
    match runtime.caller application caller with
    | some (.returned _ (some stopped)) =>
      some (runtime.answer place (.loaded (stopped.map fun () => record)))
    | _ => none
  | some (.unload kappa) =>
    match runtime.resident.lookup kappa with
    | none => some (runtime.answer place (.unloaded (.ok ())))
    | some entry =>
      let removed :=
        { runtime with resident := runtime.resident.filter fun held => held.1 ≠ kappa }
      removed.enter place entry.application (.stop 0 none) (.unloading entry.application)
  | some (.unloading application caller) =>
    match runtime.caller application caller with
    | some (.returned _ (some stopped)) => some (runtime.answer place (.unloaded stopped))
    | _ => none
  | some (.run kappa inputs) =>
    match runtime.resident.lookup kappa with
    | none => some (runtime.answer place (.ran (.error (notResident kappa))))
    | some entry =>
      runtime.enter place entry.application (.invoke inputs false) (.running kappa entry)
  | some (.running kappa entry caller) =>
    match runtime.caller entry.application caller with
    | some (.returned (some invoked) _) =>
      some (runtime.answer place (.ran (invoked.map (runResult surroundings.status kappa entry))))
    | _ => none
  | some .list =>
    some (runtime.answer place (.listed (runtime.resident.map fun (kappa, entry) =>
      runtime.record surroundings.status kappa entry)))
  | some (.answered _) => none
  | none => none

/-- One step of a call on an application. -/
def work (application caller : Nat) (answer : Answer) : Option HoloRuntime := do
  let started ← runtime.applications[application]?
  let current ← started.callers[caller]?
  let (state, next) ← current.step started.application
    (Interleaving.free (Caller.holds started.application) started.callers) started.state answer
  some
    { runtime with
      applications := runtime.applications.set application
        { started with state, callers := started.callers.set caller next } }

end HoloRuntime

/-- What can happen next: a request arrives or goes on, or a call on an application does. -/
inductive Action where
  | arrive (request : Request)
  | advance (request : Nat) (surroundings : Surroundings)
  | work (application caller : Nat) (answer : Answer)

/-- The requests a runtime is sent. -/
def Request.arrives : Request → Bool
  | .load .. | .unload _ | .run .. | .list => true
  | _ => false

def step (host : Host) (runtime : HoloRuntime) : Action → Option HoloRuntime
  | .arrive request =>
    if request.arrives then some { runtime with requests := runtime.requests ++ [request] }
    else none
  | .advance place surroundings => runtime.advance host surroundings place
  | .work application caller answer => runtime.work application caller answer

end HologramLive.Runtime
