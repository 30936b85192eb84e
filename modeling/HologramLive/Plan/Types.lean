import HologramLive.Capability

namespace HologramLive.Plan
open Lib.Result

/-- The three distinct identities of a compiled application: the physical file,
its footer fingerprint and the canonical manifest. -/
structure HoloIdentity where
  archiveKappa : String
  archiveFingerprint : String
  applicationKappa : String
  deriving DecidableEq

structure PlanLimits where
  maxLayers : Nat := 256
  maxApplications : Nat := 64
  maxDepth : Nat := 16
  maxObjects : Nat := 512
  maxResolvedBytes : Nat := 4 * 1024 * 1024 * 1024

inductive ResolutionSource where
  | embedded
  | localStore
  | configuredResolver (name : String)
  deriving DecidableEq

def resolutionSourceName : ResolutionSource → String
  | .embedded => "embedded content"
  | .localStore => "local store"
  | .configuredResolver _ => "configured resolver"

structure ResolvedObject where
  kappa : String
  bytes : Bytes
  source : ResolutionSource
  deriving DecidableEq

inductive ManifestEdge where
  | requiredCapabilities
  | layer (position : Nat)
  | childApplication (parentApplicationKappa : String) (position : Nat)
  | delegatedCapabilities (parentApplicationKappa : String) (position : Nat)
  | childRequiredCapabilities (applicationKappa : String)
  | childLayer (applicationKappa : String) (position : Nat)
  deriving DecidableEq

def ManifestEdge.display : ManifestEdge → String
  | .requiredCapabilities => "required capabilities"
  | .layer position => s!"layer {position}"
  | .childApplication parent position => s!"child {position} application of {parent}"
  | .delegatedCapabilities parent position =>
    s!"child {position} delegated capabilities of {parent}"
  | .childRequiredCapabilities kappa => s!"required capabilities of child {kappa}"
  | .childLayer kappa position => s!"layer {position} of child {kappa}"

inductive ProviderAvailability where
  | unchecked
  | available (provider : String)
  | unavailable (reason : String)

structure PlannedLayer where
  position : Nat
  kind : LayerKind
  contentKappa : String
  entry : String
  aux : String
  primary : Bool
  resolutionSource : Option ResolutionSource
  provider : ProviderAvailability

structure ResolvedLayer where
  position : Nat
  kind : LayerKind
  contentKappa : String
  entry : String
  aux : String
  primary : Bool
  content : Bytes
  resolutionSource : ResolutionSource
  provider : String
  deriving DecidableEq

structure ChildReference where
  position : Nat
  parentApplicationKappa : String
  applicationKappa : String
  capabilitiesKappa : String
  depth : Nat
  requiresKappa : Option String := none
  layerCount : Option Nat := none
  applicationResolutionSource : Option ResolutionSource := none
  capabilitiesResolutionSource : Option ResolutionSource := none

inductive PlanBlocker where
  | missingObject (kappa : String) (edge : ManifestEdge)
  | contentMismatch (kappa : String) (edge : ManifestEdge) (source : ResolutionSource)
  | invalidCapabilitySet (kappa reason : String)
  | providerUnavailable (applicationKappa : String) (position : Nat) (kind entry reason : String)
  | invalidChildManifest (kappa : String) (edge : ManifestEdge) (reason : String)
  | childCycle (path : List String)
  | limitExceeded (limit : String) (maximum actual : Nat) (edge : Option ManifestEdge)
  | executionShapeUnsupported (reason : String)
  | libraryArchive
  deriving DecidableEq

namespace PlanBlocker

def kind : PlanBlocker → String
  | .missingObject .. => "missing_object"
  | .contentMismatch .. => "content_mismatch"
  | .invalidCapabilitySet .. => "invalid_capability_set"
  | .providerUnavailable .. => "provider_unavailable"
  | .invalidChildManifest .. => "invalid_child_manifest"
  | .childCycle .. => "child_cycle"
  | .limitExceeded .. => "limit_exceeded"
  | .executionShapeUnsupported .. => "execution_shape_unsupported"
  | .libraryArchive => "library_archive"

def errorCode : PlanBlocker → String
  | .missingObject .. => "LIVE_NOT_FOUND"
  | .contentMismatch .. | .invalidCapabilitySet .. | .invalidChildManifest .. | .childCycle ..
  | .limitExceeded .. => "LIVE_HOLO_INVALID"
  | .providerUnavailable .. | .executionShapeUnsupported .. | .libraryArchive =>
    "LIVE_CAPABILITY_MISSING"

def message (blocker : PlanBlocker) (applicationKappa : String) : String :=
  match blocker with
  | .missingObject kappa edge =>
    s!"application {applicationKappa} cannot resolve {kappa} referenced by {edge.display} " ++
    "from embedded content or the local store"
  | .contentMismatch kappa edge source =>
    s!"application {applicationKappa} resolved {kappa} for {edge.display} from " ++
    s!"{resolutionSourceName source} but the bytes do not match the declared kappa"
  | .invalidCapabilitySet kappa reason =>
    s!"application {applicationKappa} required capability object {kappa} is not a canonical " ++
    s!"CapabilitySet: {reason}"
  | .providerUnavailable provider position kind entry reason =>
    s!"application {provider} layer {position} ({kind}, entry {entry}) has no available " ++
    s!"provider while planning root {applicationKappa}: {reason}"
  | .invalidChildManifest kappa edge reason =>
    s!"application {applicationKappa} resolved invalid child manifest {kappa} referenced by " ++
    s!"{edge.display}: {reason}"
  | .childCycle path =>
    s!"application {applicationKappa} child graph contains a cycle: " ++
    " -> ".intercalate path
  | .limitExceeded limit maximum actual edge =>
    s!"application {applicationKappa} exceeds planning limit {limit}: maximum {maximum}, " ++
    s!"actual {actual}" ++
    (match edge with
    | none => ""
    | some edge => s!" while resolving {edge.display}")
  | .executionShapeUnsupported reason =>
    s!"application {applicationKappa} cannot execute with the current lifecycle: {reason}"
  | .libraryArchive =>
    s!"application {applicationKappa} is a library archive: it declares no primary layer and " ++
    "cannot be executed"

def intoError (blocker : PlanBlocker) (applicationKappa : String) : LiveError :=
  let message := blocker.message applicationKappa
  if blocker.errorCode = "LIVE_NOT_FOUND" then .notFound message
  else if blocker.errorCode = "LIVE_HOLO_INVALID" then .invalidHolo message
  else .capability message

/-- A blocker that leaves part of the closure unresolved. -/
def closing : PlanBlocker → Bool
  | .missingObject .. | .contentMismatch .. | .invalidChildManifest .. | .limitExceeded .. => true
  | _ => false

theorem intoError_code (blocker : PlanBlocker) (applicationKappa : String) :
    (blocker.intoError applicationKappa).code = blocker.errorCode := by
  cases blocker <;> rfl

end PlanBlocker

structure ProviderContext where
  applicationKappa : String
  position : Nat
  kind : LayerKind
  entry : String
  aux : String
  primary : Bool
  layerCount : Nat
  content : Bytes

structure PendingChildAdmission where
  position : Nat
  parentApplicationIndex : Nat
  parentApplicationKappa : String
  applicationIndex : Nat
  applicationKappa : String
  delegatedCapabilities : DelegatedCapabilities
  requestedCapabilities : Option RequestedCapabilities := none
  primaryLayer : Option Nat := none
  layers : List PlannedLayer := []

structure ResolvedChild where
  position : Nat
  parentApplicationIndex : Nat
  parentApplicationKappa : String
  applicationIndex : Nat
  applicationKappa : String
  delegatedCapabilities : DelegatedCapabilities
  requestedCapabilities : RequestedCapabilities
  primaryLayer : Option Nat
  layers : List ResolvedLayer
  deriving DecidableEq

/-- Objects by kappa; the first entry under a key is the one it holds. -/
abbrev Objects := List (String × ResolvedObject)

structure ApplicationPlanReport where
  identity : HoloIdentity
  primaryLayer : Option Nat
  requiresKappa : String
  layers : List PlannedLayer
  children : List ChildReference
  objects : Objects
  blockers : List PlanBlocker
  resolvedBytes : Nat
  referencedObjectCount : Nat
  embeddedObjectCount : Nat
  applicationCount : Nat
  maxDepth : Nat
  limits : PlanLimits
  requestedCapabilities : Option RequestedCapabilities
  childAdmissions : List PendingChildAdmission
  manifest : AppManifest

structure ApplicationPlan where
  identity : HoloIdentity
  primaryLayer : Option Nat
  requiresKappa : String
  requestedCapabilities : RequestedCapabilities
  layers : List ResolvedLayer
  children : List ResolvedChild
  objects : Objects
  manifest : AppManifest
  deriving DecidableEq

/-- The numbering of applications the planner hands to the runtime: the root is
zero, the children are numbered in plan order, each after its parent. -/
structure ApplicationPlan.Ordered (plan : ApplicationPlan) : Prop where
  numbered : plan.children.map (·.applicationIndex) = List.range' 1 plan.children.length
  parents : ∀ child ∈ plan.children, child.parentApplicationIndex < child.applicationIndex

end HologramLive.Plan
