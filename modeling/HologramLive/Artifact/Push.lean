import HologramLive.Artifact.Manifest
import HologramLive.Plan.Inspect
import HologramLive.Store.Disk

/-! Publishing a local archive under a name: the calls a push makes of a registry and
of the local store, and a registry that answers them. -/

namespace HologramLive.Artifact
open Lib Lib.Files Plan Store

def holoMediaType : String := "application/vnd.hologram.holo"
def layerMediaType : String := "application/octet-stream"

/-- The registry operations a push needs. -/
inductive LayerPublish : Type → Type where
  | putBlob (repository kappa mediaType : String) (bytes : Bytes) :
      LayerPublish (Except LiveError Unit)
  | putManifest (repository tag : String) (body : Bytes) : LayerPublish (Except LiveError Unit)
  | tagExists (repository tag : String) : LayerPublish (Except LiveError Bool)

abbrev PushProgram := Program (Either LayerPublish FileCall) LiveError

def publish (operation : LayerPublish (Except LiveError α)) : PushProgram α :=
  .call (.left operation) .ofExcept

structure PushReport where
  reference : String
  archiveKappa : String
  layersPublished : Nat
  bytesTransferred : Nat
  replacedExistingTag : Bool

/-- Payload kappas the archive references but does not embed, in order. -/
def externalPayloads (inspection : HoloInspection) : List String :=
  match inspection.directory with
  | none => []
  | some directory =>
    let embedded := directory.blobs.map (·.kappa)
    ((directory.layers.map (·.contentKappa)).filter fun kappa =>
      kappa ∉ embedded).dedup.insertionSort (· ≤ ·)

def gather (store : DiskStore) : List String → PushProgram (List (String × Bytes))
  | [] => pure []
  | kappa :: rest => do
    match ← (store.getCached kappa).translate .right with
    | none =>
      .fail <| .notFound <|
        s!"archive references payload {kappa} which is not in the local store; " ++
        "import or compile the archive fat before publishing it"
    | some bytes =>
      let payloads ← gather store rest
      pure ((kappa, bytes) :: payloads)

def byteCount (bytes : Bytes) : Nat := min bytes.length DiskStore.u64Max

/-- What has been put so far: the layers of the manifest to come and their bytes. -/
structure Uploaded where
  layers : List ArtifactLayer
  bytesTransferred : Nat

def Uploaded.add (uploaded : Uploaded) (kappa mediaType : String) (role : LayerRole)
    (bytes : Bytes) : Uploaded where
  layers := uploaded.layers ++ [{ kappa, mediaType, size := byteCount bytes, role }]
  bytesTransferred := min (uploaded.bytesTransferred + byteCount bytes) DiskStore.u64Max

def upload (repository : String) : List (String × Bytes) → Uploaded → PushProgram Uploaded
  | [], uploaded => pure uploaded
  | (kappa, bytes) :: rest, uploaded => do
    publish (.putBlob repository kappa layerMediaType bytes)
    upload repository rest (uploaded.add kappa layerMediaType .layer bytes)

/-- The manifest goes last: until it exists, the tag resolves to what it did before. -/
def push (store : DiskStore) (codec : JsonCodec) (reference : ArtifactRef) (archiveBytes : Bytes)
    (inspection : HoloInspection) (force : Bool) : PushProgram PushReport := do
  let repository := reference.repository
  let replacedExistingTag ← publish (.tagExists repository reference.tag)
  if replacedExistingTag && !force then
    .fail <| .conflict
      s!"{reference.display} already exists; pass --force to move the tag to this artifact"
  else
    let archiveKappa := address store.blake3 archiveBytes
    let payloads ← gather store (externalPayloads inspection)
    publish (.putBlob repository archiveKappa holoMediaType archiveBytes)
    let archived := Uploaded.add ⟨[], 0⟩ archiveKappa holoMediaType .archive archiveBytes
    let uploaded ← upload repository payloads archived
    let manifest : ArtifactManifest :=
      { layers := uploaded.layers, kind := some "holo", name := some reference.name
        tag := some reference.tag }
    let body ← .ofExcept (manifest.encode codec)
    publish (.putManifest repository reference.tag body)
    pure
      { reference := reference.display, archiveKappa
        layersPublished := uploaded.layers.length
        bytesTransferred := uploaded.bytesTransferred
        replacedExistingTag }

/-! What a registry holds, and how it answers. -/

structure Registry where
  tags : String → String → Option Bytes := fun _ _ => none
  blobs : String → String → Option Bytes := fun _ _ => none

/-- What becomes of a call. A write whose answer is an error may have been made. -/
inductive Answer where
  | given
  | failed (error : LiveError) (landed : Bool)
  deriving DecidableEq

namespace Answer

def reply (answer : Answer) (value : α) : Except LiveError α :=
  match answer with
  | .given => .ok value
  | .failed error _ => .error error

def landed : Answer → Bool
  | .given => true
  | .failed _ landed => landed

end Answer

namespace Registry

def putBlob (registry : Registry) (repository kappa : String) (bytes : Bytes) : Registry :=
  { registry with
    blobs := fun place key =>
      if place = repository ∧ key = kappa then some bytes else registry.blobs place key }

def putManifest (registry : Registry) (repository tag : String) (body : Bytes) : Registry :=
  { registry with
    tags := fun place key =>
      if place = repository ∧ key = tag then some body else registry.tags place key }

/-- A manifest that is put replaces what the tag resolved to. -/
def serve (operation : LayerPublish β) (answer : Answer) (registry : Registry) : β × Registry :=
  match operation with
  | .putBlob repository kappa _ bytes =>
    (answer.reply (), if answer.landed then registry.putBlob repository kappa bytes else registry)
  | .putManifest repository tag body =>
    (answer.reply (), if answer.landed then registry.putManifest repository tag body else registry)
  | .tagExists repository tag => (answer.reply (registry.tags repository tag).isSome, registry)

end Registry

/-- A write that was asked for, with whether the registry said that it was made. -/
inductive Write where
  | blob (repository kappa mediaType : String) (bytes : Bytes) (made : Bool)
  | manifest (repository tag : String) (body : Bytes) (made : Bool)

def writeOf (answer : Answer) : LayerPublish β → List Write
  | .putBlob repository kappa mediaType bytes =>
    [.blob repository kappa mediaType bytes (decide (answer = .given))]
  | .putManifest repository tag body => [.manifest repository tag body (decide (answer = .given))]
  | .tagExists _ _ => []

/-- A registry with the writes it has been asked for. -/
structure Observed where
  registry : Registry
  writes : List Write := []

def Observed.serve (operation : LayerPublish β) (answer : Answer) (observed : Observed) :
    β × Observed :=
  let served := observed.registry.serve operation answer
  (served.1, { registry := served.2, writes := observed.writes ++ writeOf answer operation })

end HologramLive.Artifact
