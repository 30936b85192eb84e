import HologramLive.Error
import HologramLive.Store

namespace HologramLive

inductive LayerKind where
  | wasmCodemodule
  | tensorPlan
  | rootfsImage
  | view
  | inferenceModel
  deriving DecidableEq

def layerKindName : LayerKind → String
  | .wasmCodemodule => "wasm"
  | .tensorPlan => "tensor"
  | .rootfsImage => "rootfs"
  | .view => "view"
  | .inferenceModel => "inference-model"

structure Layer where
  kind : LayerKind
  content : String
  entry : String
  aux : String
  deriving DecidableEq

/-- An application manifest. A child names its application and the capability
set its parent delegates to it. -/
structure AppManifest where
  primary : Option Nat
  requires : String
  layers : List Layer
  children : List (String × String)
  deriving DecidableEq

namespace AppManifest

/-- Every kappa a manifest refers to. -/
def names (manifest : AppManifest) : List String :=
  manifest.requires :: (manifest.layers.map (·.content) ++
    manifest.children.flatMap fun child => [child.1, child.2])

theorem requires_names {manifest : AppManifest} : manifest.requires ∈ manifest.names :=
  List.mem_cons_self

theorem layer_names {manifest : AppManifest} (h : layer ∈ manifest.layers) :
    layer.content ∈ manifest.names :=
  List.mem_cons_of_mem _ (List.mem_append_left _ (List.mem_map_of_mem h))

theorem child_names {manifest : AppManifest} (h : child ∈ manifest.children) :
    child.1 ∈ manifest.names ∧ child.2 ∈ manifest.names :=
  ⟨List.mem_cons_of_mem _ (List.mem_append_right _ (List.mem_flatMap.mpr ⟨child, h, by simp⟩)),
    List.mem_cons_of_mem _ (List.mem_append_right _ (List.mem_flatMap.mpr ⟨child, h, by simp⟩))⟩

theorem mem_names {manifest : AppManifest} : kappa ∈ manifest.names ↔
    kappa = manifest.requires ∨ (∃ layer ∈ manifest.layers, layer.content = kappa) ∨
      ∃ child ∈ manifest.children, kappa = child.1 ∨ kappa = child.2 := by
  simp [names]

end AppManifest

structure Capabilities where
  storageRoots : List String := []
  storageQuotaBytes : Nat := 0
  networkFetchEndpoints : List String := []
  networkAnnounceEndpoints : List String := []
  publishChannels : List String := []
  subscribeChannels : List String := []
  memoryMaxBytes : Nat := 0
  cpuTimePerEventMs : Nat := 0
  priorityWeight : Nat := 0
  deriving DecidableEq

structure HoloLayer where
  position : Nat
  kind : String
  contentKappa : String
  entry : String
  contract : Option String
  architecture : Option String
  surface : Option String
  engine : Option String
  deriving DecidableEq

structure HoloChild where
  position : Nat
  applicationKappa : String
  capabilitiesKappa : String
  parentApplicationKappa : Option String := none
  depth : Option Nat := none
  requiresKappa : Option String := none
  applicationResolutionSource : Option String := none
  capabilitiesResolutionSource : Option String := none
  deriving DecidableEq

structure HoloBlob where
  kappa : String
  byteLength : Nat
  deriving DecidableEq

/-- The queryable projection of a manifest and the blobs packed beside it. -/
structure HoloDirectory where
  schemaVersion : Nat
  primaryLayer : Option Nat
  requiresKappa : String
  layers : List HoloLayer
  children : List HoloChild
  blobs : List HoloBlob
  deriving DecidableEq

/-- A loaded archive: its sections as the loader hands them out. -/
structure Archive where
  fingerprint : Bytes
  appManifest : Option Bytes
  extensions : Except String (List (String × Bytes))
  contentBlobs : Except String (List (Bytes × Bytes))

/-- The functions the code takes from the crates it depends on: the archive
loader, content addresses, manifests, capability sets and the directory's
serializer. Failures carry the text the code reports them with. -/
structure Upstream where
  load : Bytes → Except String Archive
  addressBytes : Bytes → String
  decodeManifest : Bytes → Except String AppManifest
  validateManifest : AppManifest → Except String Unit
  canonicalizeManifest : AppManifest → Bytes
  toCapabilities : Bytes → Except String Capabilities
  canonicalizeCapabilities : Capabilities → Bytes
  admits : Capabilities → Capabilities → Bool
  wasmContracts : List String
  unsupportedContract : String → String
  directoryToVec : HoloDirectory → Bytes
  directoryFromSlice : Bytes → Except String HoloDirectory

/-- Manifests come back from their canonical encoding. -/
def Upstream.Canonical (upstream : Upstream) : Prop :=
  ∀ bytes manifest, upstream.decodeManifest bytes = .ok manifest →
    upstream.validateManifest manifest = .ok () →
    upstream.decodeManifest (upstream.canonicalizeManifest manifest) = .ok manifest

/-- What the crates know of finitely many byte strings. -/
structure Catalog where
  archives : List (Bytes × Archive) := []
  manifests : List (Bytes × AppManifest) := []
  capabilities : List (Bytes × Capabilities) := []
  directories : List (Bytes × HoloDirectory) := []
  wasmContracts : List String := []

def Capabilities.admits (grant request : Capabilities) : Bool :=
  request.storageRoots.all (· ∈ grant.storageRoots) &&
  request.storageQuotaBytes ≤ grant.storageQuotaBytes &&
  request.networkFetchEndpoints.all (· ∈ grant.networkFetchEndpoints) &&
  request.networkAnnounceEndpoints.all (· ∈ grant.networkAnnounceEndpoints) &&
  request.publishChannels.all (· ∈ grant.publishChannels) &&
  request.subscribeChannels.all (· ∈ grant.subscribeChannels) &&
  request.memoryMaxBytes ≤ grant.memoryMaxBytes &&
  request.cpuTimePerEventMs ≤ grant.cpuTimePerEventMs &&
  request.priorityWeight ≤ grant.priorityWeight

def decodeListed (known : List (Bytes × α)) (bytes : Bytes) : Except String α :=
  match known.lookup bytes with
  | some value => .ok value
  | none => .error "unknown object"

def encodeListed [DecidableEq α] (known : List (Bytes × α)) (value : α) : Bytes :=
  match known.find? fun entry => entry.2 = value with
  | some entry => entry.1
  | none => []

/-- An instance to run the code at: listed objects decode and encode by the list,
and an object's address spells its bytes. -/
def Catalog.upstream (catalog : Catalog) : Upstream where
  load := decodeListed catalog.archives
  addressBytes bytes := String.ofList (bytes.map fun byte => Char.ofNat byte.toNat)
  decodeManifest := decodeListed catalog.manifests
  validateManifest _ := .ok ()
  canonicalizeManifest := encodeListed catalog.manifests
  toCapabilities := decodeListed catalog.capabilities
  canonicalizeCapabilities := encodeListed catalog.capabilities
  admits := Capabilities.admits
  wasmContracts := catalog.wasmContracts
  unsupportedContract value := s!"unsupported Wasm guest contract {value}"
  directoryToVec := encodeListed catalog.directories
  directoryFromSlice := decodeListed catalog.directories

theorem Catalog.canonical (catalog : Catalog)
    (h : ∀ entry ∈ catalog.manifests,
      catalog.manifests.lookup (encodeListed catalog.manifests entry.2) = some entry.2) :
    catalog.upstream.Canonical := by
  intro bytes manifest hdecode _
  have hlookup : catalog.manifests.lookup bytes = some manifest := by
    dsimp only [Catalog.upstream, decodeListed] at hdecode
    split at hdecode
    · rename_i hfound
      cases hdecode
      exact hfound
    · cases hdecode
  obtain ⟨before, after, hsplit, _⟩ := List.lookup_eq_some_iff.mp hlookup
  have hback := h (bytes, manifest) (by simp [hsplit])
  simp only [Catalog.upstream, decodeListed, hback]

/-- Validate one exact provider-facing Wasm contract identifier. -/
def normalizeWasmContract (upstream : Upstream) (value : String) : Except String String :=
  if value ∈ upstream.wasmContracts then .ok value else .error (upstream.unsupportedContract value)

end HologramLive
