import HologramLive.Lifecycle.Order

namespace HologramLive.Lifecycle
open Plan Lib.Result

inductive ProviderTarget where
  | direct
  | resident

def ProviderTarget.name : ProviderTarget → String
  | .direct => "direct"
  | .resident => "resident"

inductive LayerCompletionRole where
  | exitBearing
  | nonExitBearing
  deriving DecidableEq

def layerCompletionRole : LayerKind → LayerCompletionRole
  | .wasmCodemodule | .rootfsImage => .exitBearing
  | .tensorPlan | .view | .inferenceModel => .nonExitBearing

/-- The broker one application's View layers reach their primary through, by the
number of the invocation gate it shares. -/
structure ApplicationIntentBroker where
  applicationKappa : String
  invocation : Nat

structure LayerPrepareContext where
  identity : HoloIdentity
  effectiveGrant : EffectiveGrant
  requestedCapabilities : RequestedCapabilities
  layer : ResolvedLayer
  target : ProviderTarget
  viewIntents : ApplicationIntentBroker

/-- A prepared layer with what starting and stopping it will come to. -/
structure PreparedLayer where
  position : Nat
  start : Except LiveError Unit
  stop : Except LiveError Unit

/-- A provider may answer equal requests differently: `prepare` is also told how
many layers the startup has prepared before. -/
structure LayerProvider where
  kind : LayerKind
  contract : Option String
  name : String
  prepare : Nat → LayerPrepareContext → Except LiveError PreparedLayer

structure ProviderRegistry where
  target : ProviderTarget
  providers : List LayerProvider

def ProviderRegistry.select (upstream : Upstream) (registry : ProviderRegistry) (kind : LayerKind)
    (aux : String) : Except String (Option LayerProvider) := do
  let contract ←
    if kind = .wasmCodemodule then do
      let contract ← normalizeWasmContract upstream aux
      .ok (some contract)
    else .ok none
  .ok (registry.providers.find? fun provider =>
    provider.kind = kind && provider.contract = contract)

/-- One layer of one planned application, by its place in the layer list. -/
structure Slot where
  application : Nat
  layer : Nat
  deriving DecidableEq

structure PreparedApplicationLayer where
  slot : Slot
  applicationKappa : String
  layer : PreparedLayer

/-- The calls a startup makes on providers and prepared layers. -/
inductive Call where
  | prepare (slot : Slot) (succeeded : Bool)
  | start (slot : Slot)
  | stop (slot : Slot)
  deriving DecidableEq

structure RunningApplication where
  identity : HoloIdentity
  primaryLayer : Nat
  layers : List PreparedApplicationLayer
  invocations : Nat

/-- How a startup ended, the calls it made and the layers it had prepared. -/
structure Run where
  calls : List Call
  prepared : List PreparedApplicationLayer
  result : Except LiveError RunningApplication

/-- Where a startup has got to. -/
structure Progress where
  prepared : List PreparedApplicationLayer := []
  invocations : Nat := 0
  calls : List Call := []

def Progress.push (progress : Progress) (layer : PreparedApplicationLayer) : Progress :=
  { progress with
    prepared := progress.prepared ++ [layer]
    calls := progress.calls ++ [.prepare layer.slot true] }

@[simp] theorem Progress.push_length (progress : Progress) (layer : PreparedApplicationLayer) :
    (progress.push layer).prepared.length = progress.prepared.length + 1 := by
  simp [Progress.push]

def withRollback (error : LiveError) (failures : List String) : LiveError :=
  if failures = [] then error
  else
    let message := s!"{error.message}; rollback failures: " ++ "; ".intercalate failures
    match error with
    | .io _ => .io message
    | .config _ => .config message
    | .protocol _ => .protocol message
    | .transport _ => .transport message
    | .authentication _ => .authentication message
    | .authorization _ => .authorization message
    | .capability _ => .capability message
    | .notFound _ => .notFound message
    | .conflict _ => .conflict message
    | .invalidHolo _ => .invalidHolo message
    | .unknownCommitState _ => .unknownCommitState message

def PreparedApplicationLayer.failure (layer : PreparedApplicationLayer) (error : LiveError) : String :=
  s!"application {layer.applicationKappa} layer {layer.layer.position}: {error.message}"

def stopFailure (layer : PreparedApplicationLayer) : Option String :=
  match layer.layer.stop with
  | .ok () => none
  | .error error => some (layer.failure error)

/-- Stop every layer from the last to the first, whatever the failures. -/
def stopReverse (layers : List PreparedApplicationLayer) : List Call × List String :=
  (layers.reverse.map fun layer => .stop layer.slot, layers.reverse.filterMap stopFailure)

/-- Leave through `?`: nothing more is called. -/
def bail (progress : Progress) (error : LiveError) : Run :=
  { calls := progress.calls, prepared := progress.prepared, result := .error error }

/-- Leave through an explicit rollback of what was prepared. -/
def rollBack (progress : Progress) (error : LiveError) : Run :=
  let (calls, failures) := stopReverse progress.prepared
  { calls := progress.calls ++ calls
    prepared := progress.prepared
    result := .error (withRollback error failures) }

def findChild (plan : ApplicationPlan) (applicationIndex : Nat) : Option ResolvedChild :=
  plan.children.find? fun child => child.applicationIndex = applicationIndex

def applicationLayers (plan : ApplicationPlan) (applicationIndex : Nat) :
    Except LiveError (String × List ResolvedLayer) :=
  if applicationIndex = 0 then .ok (plan.identity.applicationKappa, plan.layers)
  else
    match findChild plan applicationIndex with
    | some child => .ok (child.applicationKappa, child.layers)
    | none =>
      .error (.conflict s!"runtime lost planned child application index {applicationIndex}")

def applicationRequestedCapabilities (plan : ApplicationPlan) (applicationIndex : Nat) :
    Except LiveError RequestedCapabilities :=
  if applicationIndex = 0 then .ok plan.requestedCapabilities
  else
    match findChild plan applicationIndex with
    | some child => .ok child.requestedCapabilities
    | none =>
      .error <| .conflict
        s!"runtime lost requested capabilities for application index {applicationIndex}"

def noPrimaryLayer (applicationKappa : String) : LiveError :=
  .conflict <| s!"runtime received application {applicationKappa} with no primary layer; the " ++
    "planner must reject library archives before preparation"

def applicationPrimaryLayer (plan : ApplicationPlan) (applicationIndex : Nat) :
    Except LiveError Nat :=
  if applicationIndex = 0 then
    match plan.primaryLayer with
    | some primary => .ok primary
    | none => .error (noPrimaryLayer plan.identity.applicationKappa)
  else
    match findChild plan applicationIndex with
    | none =>
      .error (.conflict s!"runtime lost planned child application index {applicationIndex}")
    | some child =>
      match child.primaryLayer with
      | some primary => .ok primary
      | none =>
        .error <| .capability
          s!"child application index {applicationIndex} has no primary exit-bearing layer"

def noProvider (upstream : Upstream) (registry : ProviderRegistry) (applicationKappa : String)
    (layer : ResolvedLayer) : LiveError :=
  let contract :=
    if layer.kind = .wasmCodemodule then
      match normalizeWasmContract upstream layer.aux with
      | .ok contract => s!" contract {contract}"
      | .error _ => s!" contract {layer.aux}"
    else ""
  .capability <| s!"application {applicationKappa} layer {layer.position} has no " ++
    s!"{registry.target.name} provider for {layerKindName layer.kind}" ++ contract

/-- The provider a layer is prepared by: the one the registry selects, as long as
it is the one the plan names. -/
def layerProvider (upstream : Upstream) (registry : ProviderRegistry) (applicationKappa : String)
    (layer : ResolvedLayer) : Except LiveError LayerProvider :=
  match registry.select upstream layer.kind layer.aux with
  | .error error => .error (.capability error)
  | .ok none => .error (noProvider upstream registry applicationKappa layer)
  | .ok (some provider) =>
    if layer.provider ≠ provider.name then
      .error <| .conflict <|
        s!"application {applicationKappa} layer {layer.position} selected provider " ++
        s!"{layer.provider}, but registry resolved {provider.name}"
    else .ok provider

/-- What one application's layers are prepared with. -/
structure Assignment where
  application : Nat
  applicationKappa : String
  grant : EffectiveGrant
  requested : RequestedCapabilities
  broker : ApplicationIntentBroker

section Startup
variable (upstream : Upstream) (plan : ApplicationPlan) (registry : ProviderRegistry)

def prepareContext (assignment : Assignment) (layer : ResolvedLayer) : LayerPrepareContext where
  identity := { plan.identity with applicationKappa := assignment.applicationKappa }
  effectiveGrant := assignment.grant
  requestedCapabilities := assignment.requested
  layer := layer
  target := registry.target
  viewIntents := assignment.broker

/-- The inner loop, over the layers of one application from the given place on. -/
def prepareLayers (assignment : Assignment) :
    Nat → List ResolvedLayer → Progress → Except Run Progress
  | _, [], progress => .ok progress
  | place, layer :: rest, progress =>
    match layerProvider upstream registry assignment.applicationKappa layer with
    | .error error => .error (bail progress error)
    | .ok provider =>
      let slot : Slot := ⟨assignment.application, place⟩
      match provider.prepare progress.prepared.length
          (prepareContext plan registry assignment layer) with
      | .error error =>
        .error (rollBack { progress with calls := progress.calls ++ [.prepare slot false] } error)
      | .ok instance' =>
        prepareLayers assignment (place + 1) rest
          (progress.push ⟨slot, assignment.applicationKappa, instance'⟩)

/-- The primary a View application binds, `none` where it has no View layer. -/
def viewPrimary (applicationIndex : Nat) (layers : List ResolvedLayer) :
    Except LiveError (Option Nat) :=
  if layers.any fun layer => layer.kind = .view then do
    let primary ← applicationPrimaryLayer plan applicationIndex
    .ok (some primary)
  else .ok none

/-- Each application binds a fresh broker, so only a lost primary can fail here. -/
def bindPrimary (applicationKappa : String) (primary : Option Nat)
    (layers : List PreparedApplicationLayer) : Except LiveError Unit :=
  match primary with
  | none => .ok ()
  | some primaryLayer =>
    if layers.any fun layer => layer.layer.position = primaryLayer then .ok ()
    else
      .error <| .conflict <|
        s!"application {applicationKappa} lost primary layer {primaryLayer} while binding " ++
        "View intents"

def prepareApplication (admittedGrants : List (Nat × EffectiveGrant)) (applicationIndex : Nat)
    (progress : Progress) : Except Run Progress :=
  match applicationLayers plan applicationIndex with
  | .error error => .error (bail progress error)
  | .ok (applicationKappa, layers) =>
    match viewPrimary plan applicationIndex layers with
    | .error error => .error (rollBack progress error)
    | .ok primary =>
      let broker : ApplicationIntentBroker := ⟨applicationKappa, progress.invocations⟩
      let preparedStart := progress.prepared.length
      let progress := { progress with invocations := progress.invocations + 1 }
      match applicationRequestedCapabilities plan applicationIndex with
      | .error error => .error (bail progress error)
      | .ok requested =>
        match admittedGrants.lookup applicationIndex with
        | none =>
          .error <| bail progress <| .conflict
            s!"runtime lost admitted grant for application {applicationKappa}"
        | some grant => do
          let progress ← prepareLayers upstream plan registry
            ⟨applicationIndex, applicationKappa, grant, requested, broker⟩ 0 layers progress
          match bindPrimary applicationKappa primary (progress.prepared.drop preparedStart) with
          | .error error => .error (rollBack progress error)
          | .ok () => .ok progress

def prepareApplications (admittedGrants : List (Nat × EffectiveGrant)) :
    List Nat → Progress → Except Run Progress
  | [], progress => .ok progress
  | applicationIndex :: rest, progress => do
    let progress ← prepareApplication upstream plan registry admittedGrants applicationIndex progress
    prepareApplications admittedGrants rest progress

def startLayers : List PreparedApplicationLayer → Progress → Except Run Progress
  | [], progress => .ok progress
  | layer :: rest, progress =>
    let progress := { progress with calls := progress.calls ++ [.start layer.slot] }
    match layer.layer.start with
    | .error error => .error (rollBack progress error)
    | .ok () => startLayers rest progress

/-- The checks made before the first application is looked at. -/
def startupOrder : Except LiveError (Nat × List Nat) :=
  match plan.primaryLayer with
  | none => .error (noPrimaryLayer plan.identity.applicationKappa)
  | some primaryLayer =>
    match plan.layers.find? fun layer => layer.position = primaryLayer with
    | none =>
      .error <| .invalidHolo
        s!"application {plan.identity.applicationKappa} primary layer {primaryLayer} is missing"
    | some primary =>
      if layerCompletionRole primary.kind = .nonExitBearing then
        .error <| .capability <|
          s!"application {plan.identity.applicationKappa} cannot use non-exit-bearing " ++
          s!"{layerKindName primary.kind} layer {primaryLayer} as its primary"
      else do
        let order ← lifecycleApplicationOrder plan
        .ok (primaryLayer, order)

def prepareAndStartWithAdmittedGrants (admittedGrants : List (Nat × EffectiveGrant)) : Run :=
  match startupOrder plan with
  | .error error => bail {} error
  | .ok (primaryLayer, order) =>
    let ended : Except Run Progress := do
      let progress ← prepareApplications upstream plan registry admittedGrants order {}
      startLayers progress.prepared progress
    match ended with
    | .error run => run
    | .ok progress =>
      { calls := progress.calls
        prepared := progress.prepared
        result := .ok
          { identity := plan.identity
            primaryLayer
            layers := progress.prepared
            invocations := progress.invocations } }

end Startup

end HologramLive.Lifecycle
