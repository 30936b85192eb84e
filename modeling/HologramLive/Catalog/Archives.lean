import HologramLive.Plan.Inspect
import HologramLive.Plan.Total
import HologramLive.Store.Objects

/-! The catalog of archives over the records of the store. -/

namespace HologramLive
open Lib Lib.Result Lib.Lookup Store Plan

/-- What the catalog takes from the crates it uses, with the availability its resident
providers report. -/
structure HoloCatalog where
  upstream : Upstream
  blake3 : Blake3
  debug : String → String
  resident : Evaluator

namespace HoloCatalog

def holoMediaType : String := "application/vnd.hologram.holo"

/-- Cache blobs one by one. Those before a failure stay. -/
def cacheBlobs (catalog : HoloCatalog) : List (Bytes × Bytes) → ObjectStore →
    Except LiveError Unit × ObjectStore
  | [], store => (.ok (), store)
  | (label, content) :: rest, store =>
    match Utf8.decode label with
    | none => (.error (.invalidHolo "content blob kappa is not valid UTF-8"), store)
    | some kappa =>
      match store.cacheAddressed catalog.blake3 catalog.debug kappa content with
      | .error error => (.error error, store)
      | .ok store => catalog.cacheBlobs rest store

/-- The blobs an archive embeds. -/
def contentBlobs (catalog : HoloCatalog) (bytes : Bytes) : Except LiveError (List (Bytes × Bytes)) := do
  requireCurrent bytes
  let archive ← liftHolo (catalog.upstream.load bytes)
  liftHolo archive.contentBlobs

def cacheContentBlobs (catalog : HoloCatalog) (store : ObjectStore) (bytes : Bytes) :
    Except LiveError Unit × ObjectStore :=
  match catalog.contentBlobs bytes with
  | .error error => (.error error, store)
  | .ok blobs => catalog.cacheBlobs blobs store

def importHolo (catalog : HoloCatalog) (store : ObjectStore) (now : Nat) (name : String)
    (bytes : Bytes) : Except LiveError HoloInspection × ObjectStore :=
  match inspectBytes catalog.upstream "pending" name bytes with
  | .error error => (.error error, store)
  | .ok inspection =>
    match catalog.cacheContentBlobs store bytes with
    | (.error error, store) => (.error error, store)
    | (.ok (), store) =>
      let (metadata, store) :=
        store.put catalog.blake3 now "holo" holoMediaType (some name) bytes
      (.ok { inspection with kappa := metadata.id, name }, store)

def inspectStored (catalog : HoloCatalog) (store : ObjectStore) (kappa : String)
    (metadata : ObjectMetadata) : Except LiveError HoloInspection := do
  let bytes ← store.get catalog.debug kappa
  inspectBytes catalog.upstream kappa (metadata.filename.getD "application.holo") bytes

def list (catalog : HoloCatalog) (store : ObjectStore) : Except LiveError (List HoloInspection) :=
  (store.list (some "holo")).mapM fun metadata => catalog.inspectStored store metadata.id metadata

def uncataloged (kappa : String) : LiveError :=
  .invalidHolo s!"object {kappa} is not cataloged as a .holo archive"

def unverified (kappa : String) : LiveError :=
  .invalidHolo s!"content address verification failed for {kappa}"

def inspect (catalog : HoloCatalog) (store : ObjectStore) (kappa : String) :
    Except LiveError HoloInspection := do
  let metadata ← store.metadata catalog.debug kappa
  if metadata.kind ≠ "holo" then .error (uncataloged kappa)
  else catalog.inspectStored store kappa metadata

def verify (catalog : HoloCatalog) (store : ObjectStore) (kappa : String) :
    Except LiveError HoloInspection := do
  let verified ← store.verify catalog.blake3 catalog.debug kappa
  if !verified then .error (unverified kappa)
  else catalog.inspect store kappa

def bytes (catalog : HoloCatalog) (store : ObjectStore) (kappa : String) :
    Except LiveError Bytes := do
  let metadata ← store.metadata catalog.debug kappa
  if metadata.kind ≠ "holo" then .error (uncataloged kappa)
  else
    let verified ← store.verify catalog.blake3 catalog.debug kappa
    if !verified then .error (unverified kappa)
    else store.get catalog.debug kappa

def resolveContent (catalog : HoloCatalog) (store : ObjectStore) (kappa : String) :
    Except LiveError (Option Bytes) :=
  store.getCached catalog.debug kappa

/-- The plan of a cataloged archive, resolved from the store and shown to the resident
providers. -/
def plan (catalog : HoloCatalog) (store : ObjectStore) (kappa : String) :
    Except LiveError ApplicationPlanReport := do
  let bytes ← catalog.bytes store kappa
  let report ← explainApplication catalog.upstream bytes {} fun _ content =>
    catalog.resolveContent store content
  .ok (report.evaluateProviders catalog.resident)

def remove (catalog : HoloCatalog) (store : ObjectStore) (kappa : String) :
    Except LiveError ObjectStore :=
  store.removeMetadata catalog.debug kappa

end HoloCatalog
end HologramLive
