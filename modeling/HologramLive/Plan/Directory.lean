import HologramLive.Lib.Result
import HologramLive.Lib.Utf8
import HologramLive.Upstream
import Mathlib.Data.List.Sort

namespace HologramLive.Plan
open Lib Lib.Result

def currentHoloVersion : Nat := 4

/-- Reject every physical archive version except the one emitted by this build. -/
def requireCurrent (bytes : Bytes) : Except LiveError Unit :=
  match bytes with
  | 72 :: 79 :: 76 :: 79 :: low :: high :: _ =>
    let version := low.toNat + 256 * high.toNat
    if version ≠ currentHoloVersion then
      .error <| .invalidHolo
        s!"unsupported .holo format version {version}; expected {currentHoloVersion}"
    else .ok ()
  | _ => .error (.invalidHolo "archive is missing the Hologram header")

namespace Directory

def directoryExtensionKey : String :=
  "https://hologram.foundation/extension/application-directory/v1"

def directorySchemaVersion : Nat := 1

/-- `normalizeWasmContract` with its text as an archive error. -/
def guestContract (upstream : Upstream) (value : String) : Except LiveError String :=
  (normalizeWasmContract upstream value).mapError .invalidHolo

/-- The blob table, with every label re-derived from its bytes. -/
def indexBlobs (upstream : Upstream) : List (Bytes × Bytes) → List HoloBlob →
    Except LiveError (List HoloBlob)
  | [], indexed => .ok indexed
  | (label, content) :: rest, indexed =>
    match Utf8.decode label with
    | none => .error (.invalidHolo "content blob kappa is not UTF-8")
    | some label =>
      let expected := upstream.addressBytes content
      if expected ≠ label then
        .error <| .invalidHolo
          s!"content blob {label} does not match its bytes; expected {expected}"
      else if indexed.any fun blob => blob.kappa = label then
        .error (.invalidHolo s!"content blob {label} is embedded more than once")
      else indexBlobs upstream rest (⟨label, content.length⟩ :: indexed)

def projectLayer (upstream : Upstream) (layer : Layer) (position : Nat) :
    Except LiveError HoloLayer :=
  if 2 ^ 32 ≤ position then .error (.invalidHolo "application has too many layers")
  else do
    let row : HoloLayer :=
      ⟨position, layerKindName layer.kind, layer.content, layer.entry, none, none, none, none⟩
    match layer.kind with
    | .wasmCodemodule =>
      let contract ← guestContract upstream layer.aux
      .ok { row with contract := some contract }
    | .tensorPlan => .ok row
    | .rootfsImage => .ok { row with architecture := some layer.aux }
    | .view => .ok { row with surface := some layer.aux }
    | .inferenceModel => .ok { row with engine := some layer.aux }

def projectChild (child : String × String) (position : Nat) : Except LiveError HoloChild :=
  if 2 ^ 32 ≤ position then .error (.invalidHolo "application has too many children")
  else .ok { position, applicationKappa := child.1, capabilitiesKappa := child.2 }

/-- Derive the directory from the canonical manifest and physical blob table. -/
def derive (upstream : Upstream) (manifest : AppManifest) (blobs : List (Bytes × Bytes)) :
    Except LiveError HoloDirectory :=
  match upstream.validateManifest manifest with
  | .error error => .error (.invalidHolo s!"invalid application manifest: {error}")
  | .ok () => do
    let indexed ← indexBlobs upstream blobs []
    let layers ← manifest.layers.zipIdx.mapM fun (layer, position) =>
      projectLayer upstream layer position
    let children ← manifest.children.zipIdx.mapM fun (child, position) =>
      projectChild child position
    .ok
      { schemaVersion := directorySchemaVersion
        primaryLayer := manifest.primary
        requiresKappa := manifest.requires
        layers
        children
        blobs := indexed.insertionSort fun left right => left.kappa ≤ right.kappa }

def encode (upstream : Upstream) (directory : HoloDirectory) : Bytes :=
  upstream.directoryToVec directory

def checkLayer (upstream : Upstream) (layer : HoloLayer) : Except LiveError HoloLayer :=
  if layer.kind = "wasm" then
    match layer.contract with
    | none =>
      .error (.invalidHolo "Wasm directory layers require an explicit guest contract")
    | some contract => do
      let normalized ← guestContract upstream contract
      .ok { layer with contract := some normalized }
  else if layer.contract.isSome then
    .error (.invalidHolo s!"{layer.kind} directory layers do not accept a guest contract")
  else .ok layer

def decode (upstream : Upstream) (bytes : Bytes) : Except LiveError HoloDirectory :=
  match upstream.directoryFromSlice bytes with
  | .error error => .error (.invalidHolo s!"decode application directory: {error}")
  | .ok directory =>
    if directory.schemaVersion ≠ directorySchemaVersion then
      .error <| .invalidHolo <|
        s!"unsupported application directory schema {directory.schemaVersion}; " ++
        s!"expected {directorySchemaVersion}"
    else do
      let layers ← directory.layers.mapM (checkLayer upstream)
      .ok { directory with layers }

/-- Require and verify the single directory carried by a current application. -/
def verifyRequired (upstream : Upstream) (manifest : AppManifest) (directories : List Bytes)
    (blobs : List (Bytes × Bytes)) : Except LiveError HoloDirectory :=
  match directories with
  | [] =>
    .error <| .invalidHolo
      "v4 application archive requires an embedded application directory"
  | _ :: _ :: _ =>
    .error (.invalidHolo "archive contains more than one application directory")
  | [encoded] => do
    let declared ← decode upstream encoded
    let derived ← derive upstream manifest blobs
    if declared ≠ derived then
      .error <| .invalidHolo
        "application directory does not match the manifest and embedded blobs"
    else .ok derived

/-- The directories among an archive's extensions. -/
def directoriesOf (extensions : List (String × Bytes)) : List Bytes :=
  (extensions.filter fun extension => extension.1 = directoryExtensionKey).map Prod.snd

end Directory
end HologramLive.Plan
