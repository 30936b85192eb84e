import HologramLive.Plan.Closure
import HologramLive.Plan.Directory

namespace HologramLive.Plan
open Lib Lib.Result

structure PendingApplication where
  applicationIndex : Nat
  admissionIndex : Option Nat
  applicationKappa : String
  manifest : AppManifest
  depth : Nat
  path : List String

/-- The admission of a child whose delegation could be decoded. -/
def PendingApplication.admission (application : PendingApplication) (applicationIndex position : Nat)
    (applicationKappa : String) (delegatedCapabilities : DelegatedCapabilities) :
    PendingChildAdmission where
  position
  parentApplicationIndex := application.applicationIndex
  parentApplicationKappa := application.applicationKappa
  applicationIndex
  applicationKappa
  delegatedCapabilities

/-- A child as the queue takes it. -/
def PendingApplication.child (application : PendingApplication) (applicationIndex : Nat)
    (admissionIndex : Option Nat) (applicationKappa : String) (manifest : AppManifest) :
    PendingApplication where
  applicationIndex
  admissionIndex
  applicationKappa
  manifest
  depth := application.depth + 1
  path := application.path ++ [applicationKappa]

/-- `u32::try_from(position).unwrap_or(u32::MAX)`. -/
def clampU32 (position : Nat) : Nat := min position (2 ^ 32 - 1)

def plannedLayers (manifest : AppManifest) : List PlannedLayer :=
  manifest.layers.zipIdx.map fun (layer, position) =>
    { position := clampU32 position
      kind := layer.kind
      contentKappa := layer.content
      entry := layer.entry
      aux := layer.aux
      primary := manifest.primary = if position < 2 ^ 32 then some position else none
      resolutionSource := none
      provider := .unchecked }

def decodeChildManifest (upstream : Upstream) (object : ResolvedObject) :
    Except String AppManifest :=
  match upstream.decodeManifest object.bytes with
  | .error error => .error s!"decode: {error}"
  | .ok manifest =>
    match upstream.validateManifest manifest with
    | .error error => .error s!"validate: {error}"
    | .ok () =>
      if upstream.canonicalizeManifest manifest ≠ object.bytes then
        .error "manifest is not canonically encoded"
      else .ok manifest

theorem decodeChildManifest_ok {upstream : Upstream} :
    decodeChildManifest upstream object = .ok manifest ↔
      upstream.decodeManifest object.bytes = .ok manifest ∧
        upstream.validateManifest manifest = .ok () ∧
        upstream.canonicalizeManifest manifest = object.bytes := by
  constructor
  · intro h
    unfold decodeChildManifest at h
    split at h
    · cases h
    rename_i hdecode
    split at h
    · cases h
    rename_i hvalidate
    obtain ⟨hcanonical, h⟩ := guard_ok.mp h
    cases h
    exact ⟨hdecode, hvalidate, not_not.mp hcanonical⟩
  · rintro ⟨hdecode, hvalidate, hcanonical⟩
    simp [decodeChildManifest, hdecode, hvalidate, hcanonical]

def childCyclePath (path : List String) (childKappa : String) : Option (List String) :=
  if childKappa ∈ path then some (path ++ [childKappa]) else none

/-- The planner's loop state beside the queue it pops from. -/
structure Walk where
  closure : ClosureResolver
  pending : List PendingApplication
  children : List ChildReference := []
  childAdmissions : List PendingChildAdmission := []
  requestedCapabilities : Option RequestedCapabilities := none
  applicationCount : Nat := 1
  maxDepth : Nat := 0
  totalLayers : Nat := 0
  applicationsLimited : Bool := false

namespace Walk

def withClosure (walk : Walk) (closure : ClosureResolver) : Walk := { walk with closure }

def block (walk : Walk) (blocker : PlanBlocker) : Walk :=
  walk.withClosure (walk.closure.block blocker)

/-- Update the child reference pushed last. -/
def describe (walk : Walk) (update : ChildReference → ChildReference) : Walk :=
  { walk with children := walk.children.modify (walk.children.length - 1) update }

def updateAdmission (walk : Walk) (index : Option Nat)
    (update : PendingChildAdmission → PendingChildAdmission) : Walk :=
  match index with
  | none => walk
  | some index => { walk with childAdmissions := walk.childAdmissions.modify index update }

/-- Take up an application: complete its admission and count its layers. -/
def enter (walk : Walk) (application : PendingApplication) : Walk :=
  { walk.updateAdmission application.admissionIndex fun admission =>
      { admission with
        primaryLayer := application.manifest.primary
        layers := plannedLayers application.manifest } with
    totalLayers := walk.totalLayers + application.manifest.layers.length }

/-- Keep the capabilities an application requires. -/
def require (walk : Walk) (application : PendingApplication)
    (capabilities : RequestedCapabilities) : Walk :=
  if application.depth = 0 then { walk with requestedCapabilities := some capabilities }
  else walk.updateAdmission application.admissionIndex fun admission =>
    { admission with requestedCapabilities := some capabilities }

/-- Push the reference of a child before anything is known of it. -/
def refer (walk : Walk) (application : PendingApplication) (position : Nat)
    (childKappa capabilitiesKappa : String) : Walk :=
  { walk with
    children := walk.children ++
      [{ position
         parentApplicationKappa := application.applicationKappa
         applicationKappa := childKappa
         capabilitiesKappa
         depth := clampU32 (application.depth + 1) }] }

/-- Give out the next application index. -/
def number (walk : Walk) (application : PendingApplication) : Walk :=
  { walk with
    applicationCount := walk.applicationCount + 1
    maxDepth := max walk.maxDepth (application.depth + 1) }

/-- Queue a child, with an admission where its delegation could be decoded. -/
def enqueue (walk : Walk) (application : PendingApplication) (applicationIndex position : Nat)
    (kappa : String) (manifest : AppManifest) (delegated : Option DelegatedCapabilities) : Walk :=
  let admission := delegated.map (application.admission applicationIndex position kappa)
  { walk with
    childAdmissions := walk.childAdmissions ++ admission.toList
    pending := walk.pending ++
      [application.child applicationIndex (admission.map fun _ => walk.childAdmissions.length)
        kappa manifest] }

def resolve (upstream : Upstream) (resolver : Resolver) (walk : Walk) (kappa : String)
    (edge : ManifestEdge) : Except LiveError (Option ResolvedObject × Walk) := do
  let (object, closure) ← walk.closure.resolve upstream resolver kappa edge
  .ok (object, walk.withClosure closure)

end Walk

section Planner
variable (upstream : Upstream) (resolver : Resolver) (limits : PlanLimits)

/-- The capabilities an application requires, kept for its admission. -/
def planRequires (application : PendingApplication) (walk : Walk) : Except LiveError Walk := do
  let edge : ManifestEdge :=
    if application.depth = 0 then .requiredCapabilities
    else .childRequiredCapabilities application.applicationKappa
  let (object, walk) ← walk.resolve upstream resolver application.manifest.requires edge
  match object with
  | none => .ok walk
  | some object =>
    match RequestedCapabilities.decode upstream object.kappa object.bytes with
    | .ok capabilities => .ok (walk.require application capabilities)
    | .error error => .ok (walk.block (.invalidCapabilitySet object.kappa error.message))

def layerEdge (application : PendingApplication) (position : Nat) : ManifestEdge :=
  if application.depth = 0 then .layer (clampU32 position)
  else .childLayer application.applicationKappa (clampU32 position)

def planLayers (application : PendingApplication) : List (Layer × Nat) → Walk →
    Except LiveError Walk
  | [], walk => .ok walk
  | (layer, position) :: rest, walk => do
    let (_, walk) ← walk.resolve upstream resolver layer.content (layerEdge application position)
    planLayers application rest walk

/-- The set a parent delegates, `none` with a blocker where it is no set. -/
def planDelegated (capabilitiesKappa : String) (edge : ManifestEdge) (walk : Walk) :
    Except LiveError (Option DelegatedCapabilities × Walk) := do
  let (object, walk) ← walk.resolve upstream resolver capabilitiesKappa edge
  match object with
  | none => .ok (none, walk)
  | some object =>
    let walk := walk.describe fun child =>
      { child with capabilitiesResolutionSource := some object.source }
    match DelegatedCapabilities.decode upstream object.kappa object.bytes with
    | .ok capabilities => .ok (some capabilities, walk)
    | .error error => .ok (none, walk.block (.invalidCapabilitySet object.kappa error.message))

/-- The part of the child loop behind its three guards. -/
def admitChild (application : PendingApplication) (position : Nat)
    (childKappa capabilitiesKappa : String) (walk : Walk) : Except LiveError Walk := do
  let applicationEdge : ManifestEdge := .childApplication application.applicationKappa position
  let capabilitiesEdge : ManifestEdge :=
    .delegatedCapabilities application.applicationKappa position
  let applicationIndex := walk.applicationCount
  let (delegated, walk) ← planDelegated upstream resolver capabilitiesKappa capabilitiesEdge
    (walk.number application)
  let (object, walk) ← walk.resolve upstream resolver childKappa applicationEdge
  match object with
  | none => .ok walk
  | some object =>
    let walk := walk.describe fun child =>
      { child with applicationResolutionSource := some object.source }
    match decodeChildManifest upstream object with
    | .error reason => .ok (walk.block (.invalidChildManifest childKappa applicationEdge reason))
    | .ok manifest =>
      let walk := walk.describe fun child =>
        { child with
          requiresKappa := some manifest.requires
          layerCount := some manifest.layers.length }
      .ok (walk.enqueue application applicationIndex position object.kappa manifest delegated)

def planChild (application : PendingApplication) (position : Nat)
    (childKappa capabilitiesKappa : String) (walk : Walk) : Except LiveError Walk :=
  let childDepth := application.depth + 1
  let applicationEdge : ManifestEdge := .childApplication application.applicationKappa position
  let walk := walk.refer application position childKappa capabilitiesKappa
  match childCyclePath application.path childKappa with
  | some path => .ok (walk.block (.childCycle path))
  | none =>
    if limits.maxDepth < childDepth then
      .ok (walk.block (.limitExceeded "application_depth" limits.maxDepth childDepth
        (some applicationEdge)))
    else if walk.applicationsLimited then .ok walk
    else if limits.maxApplications ≤ walk.applicationCount then
      .ok { walk.block (.limitExceeded "applications" limits.maxApplications
        (walk.applicationCount + 1) (some applicationEdge)) with applicationsLimited := true }
    else admitChild upstream resolver application position childKappa capabilitiesKappa walk

def planChildren (application : PendingApplication) : List ((String × String) × Nat) → Walk →
    Except LiveError Walk
  | [], walk => .ok walk
  | ((childKappa, capabilitiesKappa), position) :: rest, walk => do
    let walk ← planChild upstream resolver limits application (clampU32 position) childKappa
      capabilitiesKappa walk
    planChildren application rest walk

/-- The part of a turn behind the layer limit, with whether the loop breaks. -/
def planReferences (application : PendingApplication) (walk : Walk) :
    Except LiveError (Bool × Walk) := do
  let walk ← planRequires upstream resolver application walk
  let walk ← planLayers upstream resolver application application.manifest.layers.zipIdx walk
  if walk.closure.halted then .ok (true, walk)
  else do
    let walk ← planChildren upstream resolver limits application
      application.manifest.children.zipIdx walk
    .ok (walk.closure.halted, walk)

def planApplication (application : PendingApplication) (walk : Walk) :
    Except LiveError (Bool × Walk) :=
  let walk := walk.enter application
  if limits.maxLayers < walk.totalLayers then
    .ok (true, walk.block (.limitExceeded "layers" limits.maxLayers walk.totalLayers none))
  else planReferences upstream resolver limits application walk

/-- The queue loop. Every turn takes one of at most `maxApplications` numbered
applications, so fuel for that many never runs out. -/
def planLoop : Nat → Walk → Except LiveError Walk
  | fuel, walk =>
    match walk.pending with
    | [] => .ok walk
    | application :: rest =>
      match fuel with
      | 0 => .error (.conflict "planner passed its application limit")
      | fuel + 1 => do
        let (broke, walk) ← planApplication upstream resolver limits application
          { walk with pending := rest }
        if broke then .ok walk else planLoop fuel walk

end Planner

/-- The embedded table: of equal labels the last one counts. -/
def embeddedTable : List (Bytes × Bytes) → List (String × Bytes) →
    Except LiveError (List (String × Bytes))
  | [], table => .ok table
  | (label, bytes) :: rest, table =>
    match Utf8.decode label with
    | none => .error (.invalidHolo "embedded content kappa is not UTF-8")
    | some kappa => embeddedTable rest ((kappa, bytes) :: table)

/-- What planning reads from an archive before it resolves anything. -/
structure PlanSource where
  identity : HoloIdentity
  manifest : AppManifest
  root : AppManifest
  embedded : List (String × Bytes)

def liftHolo (result : Except String α) : Except LiveError α :=
  result.mapError .invalidHolo

def hex (bytes : Bytes) : String :=
  String.ofList (bytes.flatMap fun byte =>
    [Nat.digitChar (byte.toNat / 16), Nat.digitChar (byte.toNat % 16)])

def readSource (upstream : Upstream) (archiveBytes : Bytes) : Except LiveError PlanSource := do
  requireCurrent archiveBytes
  let archive ← liftHolo (upstream.load archiveBytes)
  match archive.appManifest with
  | none => .error (.capability "application planning requires an AppManifest section")
  | some manifestBytes => do
    let manifest ← (upstream.decodeManifest manifestBytes).mapError fun error =>
      .invalidHolo s!"decode application manifest: {error}"
    (upstream.validateManifest manifest).mapError fun error =>
      .invalidHolo s!"validate application manifest: {error}"
    let canonicalManifest := upstream.canonicalizeManifest manifest
    let identity : HoloIdentity :=
      { archiveKappa := upstream.addressBytes archiveBytes
        archiveFingerprint := hex archive.fingerprint
        applicationKappa := upstream.addressBytes canonicalManifest }
    let extensions ← liftHolo archive.extensions
    let blobs ← liftHolo archive.contentBlobs
    let _ ← Directory.verifyRequired upstream manifest (Directory.directoriesOf extensions) blobs
    let embedded ← embeddedTable blobs []
    let root ← (upstream.decodeManifest canonicalManifest).mapError fun error =>
      .invalidHolo s!"decode canonical application manifest: {error}"
    .ok { identity, manifest, root, embedded }

/-- The loop state before the first turn. -/
def startWalk (source : PlanSource) (limits : PlanLimits) : Walk :=
  let walk : Walk :=
    { closure := { embedded := source.embedded, limits }
      pending :=
        [{ applicationIndex := 0
           admissionIndex := none
           applicationKappa := source.identity.applicationKappa
           manifest := source.root
           depth := 0
           path := [source.identity.applicationKappa] }] }
  if limits.maxApplications < 1 then
    { walk.block (.limitExceeded "applications" limits.maxApplications 1 none) with
      applicationsLimited := true
      pending := [] }
  else walk

def sourceLayer (objects : Objects) (layer : PlannedLayer) : PlannedLayer :=
  { layer with resolutionSource := (objects.lookup layer.contentKappa).map (·.source) }

def reportOf (source : PlanSource) (limits : PlanLimits) (walk : Walk) :
    ApplicationPlanReport where
  identity := source.identity
  primaryLayer := source.manifest.primary
  requiresKappa := source.manifest.requires
  layers := (plannedLayers source.manifest).map (sourceLayer walk.closure.objects)
  children := walk.children
  objects := walk.closure.objects
  blockers := walk.closure.blockers ++ if source.manifest.primary = none then [.libraryArchive] else []
  resolvedBytes := walk.closure.resolvedBytes
  referencedObjectCount := walk.closure.referenced.length
  embeddedObjectCount := walk.closure.embeddedObjectCount
  applicationCount := walk.applicationCount
  maxDepth := walk.maxDepth
  limits
  requestedCapabilities := walk.requestedCapabilities
  childAdmissions := walk.childAdmissions.map fun admission =>
    { admission with layers := admission.layers.map (sourceLayer walk.closure.objects) }
  manifest := source.manifest

def explainApplication (upstream : Upstream) (archiveBytes : Bytes) (limits : PlanLimits)
    (resolver : Resolver) : Except LiveError ApplicationPlanReport := do
  let source ← readSource upstream archiveBytes
  let walk ← planLoop upstream resolver limits limits.maxApplications (startWalk source limits)
  .ok (reportOf source limits walk)

end HologramLive.Plan
