import HologramLive.Artifact.Manifest
import HologramLive.Store.Disk

/-! Fetching a named artifact into the local store: the calls a pull makes, and
registries that may answer each of them in any way. -/

namespace HologramLive.Artifact
open Lib Lib.Files Store

/-- The registry operations a pull needs. -/
inductive LayerFetch : Type → Type where
  | manifest (repository tag : String) :
      LayerFetch (Except LiveError (Option (Bytes × Option String)))
  | blob (repository kappa : String) : LayerFetch (Except LiveError Bytes)

abbrev PullProgram := Program (Either LayerFetch FileCall) LiveError

def fetch (operation : LayerFetch (Except LiveError α)) (mapErr : LiveError → LiveError) :
    PullProgram α :=
  .call (.left operation) fun reply => .ofExcept (reply.mapError mapErr)

structure PullReport where
  reference : String
  manifestDigest : Option String
  archiveKappa : String
  layersFetched : Nat
  layersPresent : Nat
  bytesTransferred : Nat
  deriving DecidableEq

/-- The registry does not check that layers exist, so a missing one is named. -/
def layerError (reference : ArtifactRef) (kappa : String) : LiveError → LiveError
  | .notFound _ =>
    .notFound s!"artifact {reference.display} references layer {kappa} which the registry does not hold"
  | other => other

structure Pulled where
  layersFetched : Nat := 0
  layersPresent : Nat := 0
  bytesTransferred : Nat := 0

def Pulled.present (pulled : Pulled) : Pulled :=
  { pulled with layersPresent := pulled.layersPresent + 1 }

def Pulled.fetched (pulled : Pulled) (bytes : Bytes) : Pulled :=
  { pulled with
    layersFetched := pulled.layersFetched + 1
    bytesTransferred :=
      min (pulled.bytesTransferred + min bytes.length DiskStore.u64Max) DiskStore.u64Max }

section Pull
variable (store : DiskStore) (pid : Nat) (reference : ArtifactRef)

def getCached (id : String) : PullProgram (Option Bytes) := (store.getCached id).translate .right

/-- What the local store has is not fetched. -/
def pullLayers : List ArtifactLayer → Pulled → PullProgram Pulled
  | [], pulled => pure pulled
  | layer :: rest, pulled => do
    match ← getCached store layer.kappa with
    | some _ => pullLayers rest pulled.present
    | none =>
      let bytes ← fetch (.blob reference.repository layer.kappa) (layerError reference layer.kappa)
      (store.cacheAddressed pid layer.kappa bytes).translate .right
      pullLayers rest (pulled.fetched bytes)

def confirm : List ArtifactLayer → PullProgram Unit
  | [] => pure ()
  | layer :: rest => do
    match ← getCached store layer.kappa with
    | some _ => confirm rest
    | none =>
      .fail <| .notFound
        s!"artifact {reference.display} is incomplete: layer {layer.kappa} is missing after pull"

def pull (codec : JsonCodec) : PullProgram PullReport := do
  match ← fetch (.manifest reference.repository reference.tag) id with
  | none => .fail (.notFound s!"artifact {reference.display} not found")
  | some (body, manifestDigest) =>
    let manifest ← .ofExcept (ArtifactManifest.decode codec store.debug body)
    let archive ← .ofExcept manifest.archive
    let pulled ← pullLayers store pid reference manifest.layers {}
    confirm store reference manifest.layers
    pure
      { reference := reference.display, manifestDigest, archiveKappa := archive.kappa
        layersFetched := pulled.layersFetched
        layersPresent := pulled.layersPresent
        bytesTransferred := pulled.bytesTransferred }

end Pull

/-- What a registry says at some moment. -/
structure Source where
  manifest : String → String → Except LiveError (Option (Bytes × Option String))
  blob : String → String → Except LiveError Bytes

/-- The manifests a pull was handed and the blobs it asked for. -/
structure Requests where
  bodies : List Bytes := []
  blobs : List String := []

def Requests.ask (requests : Requests) (kappa : String) : Requests :=
  { requests with blobs := requests.blobs ++ [kappa] }

def Source.serve (operation : LayerFetch β) (source : Source) (requests : Requests) :
    β × Requests :=
  match operation with
  | .manifest repository tag =>
    let reply := source.manifest repository tag
    (reply, match reply with
      | .ok (some (body, _)) => { requests with bodies := requests.bodies ++ [body] }
      | _ => requests)
  | .blob repository kappa =>
    (source.blob repository kappa, requests.ask kappa)

end HologramLive.Artifact
