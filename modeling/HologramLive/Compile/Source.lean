import HologramLive.Capability
import HologramLive.Python.ImageTag
import HologramLive.Registry.KappaClient

/-! The source manifest of an application, and what of it is checked before anything is read. -/

namespace HologramLive.Compile
open Lib Lib.Result Python Store

def currentManifestSchemaVersion : Nat := 4

inductive CompileLayerKind where
  | wasm
  | tensor
  | rootfs
  | view
  | inferenceModel
  deriving DecidableEq

inductive CompileSource where
  | python (source : PythonRootfsSource)

structure CompileLayer where
  kind : CompileLayerKind
  path : Option Bytes := none
  source : Option CompileSource := none
  entry : Option String := none
  contract : Option String := none
  arch : Option String := none
  surface : Option String := none
  engine : Option String := none

structure CompileChild where
  application : Bytes
  capabilities : Bytes

structure CompileManifest where
  schemaVersion : Nat
  primary : Option Nat := none
  library : Bool := false
  requires : Option Bytes := none
  layers : List CompileLayer
  children : List CompileChild := []

structure CapabilitySource where
  schemaVersion : Nat := 2
  storageRoots : List String := []
  storageQuotaBytes : Nat := 0
  networkFetchEndpoints : List String := []
  networkAnnounceEndpoints : List String := []
  networkFetch : Option Bool := none
  networkAnnounce : Option Bool := none
  publishChannels : List String := []
  subscribeChannels : List String := []
  memoryMaxBytes : Nat := 0
  cpuTimePerEventMs : Nat := 0
  priorityWeight : Nat := 0

/-- The sections an archive is written from. -/
structure Sections where
  appManifest : Bytes
  metadata : Bytes
  extensions : List (String × Bytes)
  contentBlobs : List (Bytes × Bytes)
  deriving DecidableEq

/-- What compiling takes from the crates beside `Upstream`: their contract names, the entry a
view layer is given, the readers of its documents, and the archive writer. -/
structure Packager where
  componentV1 : String
  componentContracts : List String
  viewEntry : String
  debug : String → String
  parseManifest : Bytes → Except String CompileManifest
  parseCapabilities : Bytes → Except String CapabilitySource
  parseScope : String → Except String String
  parseLabel : String → Except String String
  references : Bytes → Except String (List String)
  finish : Sections → Except String Bytes

/-- `Path::join`. -/
def join (root path : Bytes) : Bytes :=
  if path.head? = some 47 ∨ root = [] then path
  else if root.getLast? = some 47 then root ++ path
  else root ++ 47 :: path

def displayed (path : Bytes) : String := Utf8.decodeLossy path

def componentEntry : String := "run"

def portableSurface : String := "portable"

def validateEntryName (entry : String) : Except String Unit :=
  if entry = "" then .error "must not be empty"
  else if 256 < entry.utf8ByteSize then .error "must be at most 256 UTF-8 bytes"
  else if entry.toList.any isControl then .error "must not contain control characters"
  else .ok ()

/-! ### Python sources -/

def validIdentifier (value : List Char) : Bool :=
  match value with
  | [] => false
  | first :: rest =>
    (first = '_' || first.isAlpha) &&
      rest.all fun character => character = '_' || character.isAlphanum

def validModule (value : List Char) : Bool :=
  !value.isEmpty && (value.splitOn '.').all validIdentifier

def validateEntry (entry : String) : Except LiveError Unit :=
  if ':' ∉ entry.toList then .error (.config "Python entry must use module:function syntax")
  else
    let pythonModule := entry.toList.takeWhile (· ≠ ':')
    let function := (entry.toList.dropWhile (· ≠ ':')).drop 1
    if !validModule pythonModule ∨ !validIdentifier function then
      .error (.config s!"invalid Python entry {entry}; expected module.path:function")
    else .ok ()

def validateBase (base : String) : Except LiveError Unit :=
  if base = "" ∨ base.toList.head? = some '-' ∨ !(base.toList.all fun character =>
      character.isAlphanum || character ∈ "-._/:@".toList) then
    .error (.config s!"invalid Python OCI base image {base}")
  else .ok ()

def isAbsolute (path : Bytes) : Bool := path.head? = some 47

def relativePaths (source : PythonRootfsSource) : Except LiveError Unit :=
  if isAbsolute source.project ∨ isAbsolute source.lock then
    .error (.config "Python project and lock paths must be relative to hologram.json")
  else .ok ()

/-- `validate_source` of root file systems. `host` is the architecture the code runs on. -/
def validateRootfsSource (host : String) (source : PythonRootfsSource) (arch : Option String) :
    Except LiveError Unit := do
  if source.profile ≠ .rootfs then
    .error (.config "Python source currently supports only the rootfs profile")
  else
    validateEntry source.entry
    validateBase source.base
    match arch with
    | none => .error (.config "Python rootfs layers require arch")
    | some arch =>
      let _ ← normalizeArch host arch
      relativePaths source

/-- `validate_source` of components. -/
def validateComponentSource (source : PythonRootfsSource) : Except LiveError Unit := do
  if source.profile ≠ .wasiComponent then
    .error (.config "Python Component compilation requires profile wasi-component")
  else
    validateEntry source.entry
    relativePaths source
    if source.base ≠ PythonRootfsSource.defaultBase then
      .error (.config "Python wasi-component sources do not accept an OCI base image")
    else .ok ()

/-! ### Layers -/

def kind (layer : CompileLayer) : String :=
  match layer.kind with
  | .wasm => "wasm"
  | .tensor => "tensor"
  | .rootfs => "rootfs"
  | .view => "view"
  | .inferenceModel => "inference-model"

def layerName (layer : CompileLayer) : String :=
  match layer.path, layer.source with
  | some path, _ => displayed path
  | none, some (.python source) => displayed source.project
  | none, none => "<missing>"

def layerConfigError (layer : CompileLayer) (message : String) : LiveError :=
  .config s!"compile layer {layerName layer} ({kind layer}): {message}"

def rejectAux (layer : CompileLayer) (field : String) (value : Option String) :
    Except LiveError Unit :=
  if value.isSome then
    .error (layerConfigError layer s!"{kind layer} layers do not accept {field}")
  else .ok ()

def requiredField (layer : CompileLayer) (field : String) (value : Option String) :
    Except LiveError String :=
  match value.filter (· ≠ "") with
  | some value => .ok value
  | none => .error (layerConfigError layer s!"{kind layer} layers require {field}")

def effectiveEntry (layer : CompileLayer) : Option String :=
  layer.entry.or <|
    match layer.source with
    | some (.python source) => if source.profile = .rootfs then some source.entry else none
    | none => none

def oneSource : String := "exactly one of path or source is required"

section Checks
variable (upstream : Upstream) (packager : Packager) (host : String)

def validateLayerSource (layer : CompileLayer) : Except LiveError Unit :=
  match layer.path, layer.source with
  | some path, none =>
    if path = [] then .error (layerConfigError layer oneSource) else .ok ()
  | none, some (.python source) =>
    match source.profile with
    | .rootfs =>
      if layer.kind ≠ .rootfs then
        .error (layerConfigError layer "Python rootfs sources require kind rootfs")
      else if layer.entry.isSome then
        .error (layerConfigError layer "Python source entry belongs inside source")
      else validateRootfsSource host source layer.arch
    | .wasiComponent =>
      if layer.kind ≠ .wasm then
        .error (layerConfigError layer "Python wasi-component sources require kind wasm")
      else if layer.entry ≠ some componentEntry ∨ layer.contract ≠ some packager.componentV1 then
        .error <| layerConfigError layer <|
          "Python wasi-component sources require entry \"run\" and contract " ++
          "\"hologram:guest/component@1\""
      else do
        rejectAux layer "arch" layer.arch
        validateComponentSource source
  | _, _ => .error (layerConfigError layer oneSource)

def buildWasm (layer : CompileLayer) (kappa : String) : Except LiveError Layer := do
  rejectAux layer "arch" layer.arch
  rejectAux layer "surface" layer.surface
  rejectAux layer "engine" layer.engine
  match layer.entry with
  | none => .error (layerConfigError layer "Wasm layers require an explicit entry")
  | some entry =>
    (validateEntryName entry).mapError fun reason =>
      layerConfigError layer s!"invalid entry: {reason}"
    match layer.contract with
    | none =>
      .error (layerConfigError layer "Wasm layers require an explicit canonical contract")
    | some "" =>
      .error (layerConfigError layer "contract must be a non-empty canonical identifier")
    | some contract =>
      let contract ← (normalizeWasmContract upstream contract).mapError (layerConfigError layer)
      if contract ∈ packager.componentContracts ∧ entry ≠ componentEntry then
        .error <| layerConfigError layer <|
          s!"Component v1 entry must be {packager.debug componentEntry}, " ++
          s!"got {packager.debug entry}"
      else .ok ⟨.wasmCodemodule, kappa, entry, contract⟩

def buildTensor (layer : CompileLayer) (kappa : String) : Except LiveError Layer := do
  rejectAux layer "contract" layer.contract
  rejectAux layer "arch" layer.arch
  rejectAux layer "surface" layer.surface
  rejectAux layer "engine" layer.engine
  .ok ⟨.tensorPlan, kappa, (effectiveEntry layer).getD "session", ""⟩

/-- An architecture as a layer records it; only for built layers is it made canonical. -/
def layerArch (layer : CompileLayer) (arch : String) : Except LiveError String :=
  if layer.source.isSome then normalizeArch host arch else .ok arch

def buildRootfs (layer : CompileLayer) (kappa : String) : Except LiveError Layer := do
  rejectAux layer "contract" layer.contract
  rejectAux layer "surface" layer.surface
  rejectAux layer "engine" layer.engine
  let arch ← requiredField layer "arch" layer.arch
  let arch ← layerArch host layer arch
  .ok ⟨.rootfsImage, kappa, (effectiveEntry layer).getD "boot", arch⟩

def buildView (layer : CompileLayer) (kappa : String) : Except LiveError Layer := do
  rejectAux layer "contract" layer.contract
  rejectAux layer "arch" layer.arch
  rejectAux layer "engine" layer.engine
  if layer.entry.isSome then
    .error (layerConfigError layer "view layers do not accept an entry field")
  else
    let surface ← requiredField layer "surface" layer.surface
    if surface ≠ portableSurface then
      .error <| layerConfigError layer <|
        s!"unsupported surface {packager.debug surface}; " ++
        s!"expected {packager.debug portableSurface}"
    else .ok ⟨.view, kappa, packager.viewEntry, surface⟩

def buildInferenceModel (layer : CompileLayer) (kappa : String) : Except LiveError Layer := do
  rejectAux layer "contract" layer.contract
  rejectAux layer "arch" layer.arch
  rejectAux layer "surface" layer.surface
  let entry ← requiredField layer "entry" layer.entry
  let engine ← requiredField layer "engine" layer.engine
  .ok ⟨.inferenceModel, kappa, entry, engine⟩

def buildLayer (layer : CompileLayer) (kappa : String) : Except LiveError Layer :=
  match layer.kind with
  | .wasm => buildWasm upstream packager layer kappa
  | .tensor => buildTensor layer kappa
  | .rootfs => buildRootfs host layer kappa
  | .view => buildView packager layer kappa
  | .inferenceModel => buildInferenceModel layer kappa

def validateChildSource (child : CompileChild) : Except LiveError Unit :=
  if child.application = [] then
    .error (.config "child application archive path cannot be empty")
  else if child.capabilities = [] then
    .error (.config "child delegated capability path cannot be empty")
  else .ok ()

/-- Everything a manifest says is checked, with the empty object in each of its places. -/
def validateCompileManifest (specification : CompileManifest) : Except LiveError Unit := do
  if specification.schemaVersion ≠ currentManifestSchemaVersion then
    .error <| .config <|
      s!"unsupported compile manifest schema {specification.schemaVersion}; " ++
      s!"expected {currentManifestSchemaVersion}"
  else if specification.library ≠ specification.primary.isNone then
    .error <| .config <|
      if specification.library then
        "a library manifest declares no primary layer; remove \"primary\" or remove \"library\""
      else "a manifest without a primary layer must declare \"library\": true"
  else
    let empty := upstream.addressBytes []
    let layers ← specification.layers.mapM fun layer => do
      validateLayerSource packager host layer
      buildLayer upstream packager host layer empty
    let children ← specification.children.mapM fun child => do
      validateChildSource child
      .ok (empty, empty)
    (upstream.validateManifest ⟨specification.primary, empty, layers, children⟩).mapError
      fun error => .config s!"invalid application manifest: {error}"

end Checks

end HologramLive.Compile
