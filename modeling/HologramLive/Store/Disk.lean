import HologramLive.Lib.Interleaving
import HologramLive.Store.AtomicWrite
import HologramLive.Store.Names

namespace HologramLive.Store
open Lib Lib.Files

/-- The object store as its file-system calls make it: a root, and what its code takes
from the crates it uses. -/
structure DiskStore where
  root : List String
  blake3 : Blake3
  debug : String → String
  toVecPretty : ObjectMetadata → Contents
  fromSlice : Contents → Except String ObjectMetadata

namespace DiskStore

def blobPath (store : DiskStore) (digest : String) : Path :=
  { directory := store.root ++ ["blobs", "blake3"], name := digest }

def metadataPath (store : DiskStore) (digest : String) : Path :=
  { directory := store.root ++ ["metadata"], name := digest ++ ".json" }

/-- Read a blob, over what reading a file gives. -/
def get (store : DiskStore) (read : Path → Except IoError Contents) (id : String) :
    Except LiveError Contents := do
  let digest ← validateId store.debug id
  let path := store.blobPath digest
  (read path).mapError fun error =>
    if error.notFound then .notFound s!"object {id} not found" else ioError path.display error

/-- Best-effort read of an existing record. -/
def readMetadata (store : DiskStore) (digest : String) :
    FileProgram LiveError (Option ObjectMetadata) := do
  let bytes ← .perform (.read (store.metadataPath digest))
  pure (match bytes with
    | .ok bytes => (store.fromSlice bytes).toOption
    | .error _ => none)

def ensureBlob (pid : Nat) (blob : Path) (bytes : Contents) : FileProgram LiveError Unit := do
  if !(← pathExists blob) then
    atomicWrite pid blob bytes

/-- Write the record of stored bytes. Their creation time is the time they first
appeared, so an existing record wins over the clock. -/
def describe (store : DiskStore) (pid now : Nat) (kind mediaType : String)
    (filename : Option String) (bytes : Contents) : FileProgram LiveError ObjectMetadata := do
  let digestHex := hexDigest store.blake3 bytes
  let createdAtMillis := match ← store.readMetadata digestHex with
    | some existing => existing.createdAtMillis
    | none => now
  let metadata : ObjectMetadata :=
    { id := "blake3:" ++ digestHex, kind, mediaType, filename, size := bytes.length,
      createdAtMillis }
  atomicWrite pid (store.metadataPath digestHex) (store.toVecPretty metadata)
  pure metadata

def put (store : DiskStore) (pid now : Nat) (kind mediaType : String) (filename : Option String)
    (bytes : Contents) : FileProgram LiveError ObjectMetadata := do
  ensureBlob pid (store.blobPath (hexDigest store.blake3 bytes)) bytes
  store.describe pid now kind mediaType filename bytes

/-- Cache verified bytes when their newly materialized size fits `maxNewBytes`. True
only when this call created the blob. -/
def cacheAddressedBounded (store : DiskStore) (pid : Nat) (id : String) (bytes : Contents)
    (maxNewBytes : Nat) : FileProgram LiveError Bool := do
  let digest ← .ofExcept (validateId store.debug id)
  if hexDigest store.blake3 bytes ≠ digest then
    .fail (.invalidHolo s!"content blob {id} does not match its bytes")
  else
    let path := store.blobPath digest
    if ← pathExists path then pure false
    else if bytes.length > maxNewBytes then
      .fail (.capability "addressed object exceeds the permitted new-byte ceiling")
    else
      atomicWrite pid path bytes
      pure true

/-- The largest `u64`. -/
def u64Max : Nat := 2 ^ 64 - 1

/-- Cache bytes under a content address they are known by. -/
def cacheAddressed (store : DiskStore) (pid : Nat) (id : String) (bytes : Contents) :
    FileProgram LiveError Unit := do
  let _ ← store.cacheAddressedBounded pid id bytes u64Max

def getCached (store : DiskStore) (id : String) : FileProgram LiveError (Option Contents) := do
  let digest ← .ofExcept (validateId store.debug id)
  let path := store.blobPath digest
  match ← .perform (.read path) with
  | .ok bytes => pure (some bytes)
  | .error error => if error.notFound then pure none else .fail (ioError path.display error)

def metadata (store : DiskStore) (id : String) : FileProgram LiveError ObjectMetadata := do
  let digest ← .ofExcept (validateId store.debug id)
  let path := store.metadataPath digest
  let bytes ← attempt (.read path) fun error =>
    if error.notFound then .notFound s!"metadata for {id} not found" else ioError path.display error
  .ofExcept ((store.fromSlice bytes).mapError .protocol)

def renameFile (store : DiskStore) (pid : Nat) (id filename : String) :
    FileProgram LiveError ObjectMetadata := do
  let filename ← .ofExcept (validateFilename filename)
  let digest ← .ofExcept (validateId store.debug id)
  let path := store.metadataPath digest
  let bytes ← attempt (.read path) fun error =>
    if error.notFound then .notFound s!"metadata for {id} not found" else ioError path.display error
  let metadata ← .ofExcept ((store.fromSlice bytes).mapError .protocol)
  if metadata.kind ≠ "file" then .fail (.notFound s!"file {id} not found")
  else
    let renamed := { metadata with filename := some filename }
    atomicWrite pid path (store.toVecPretty renamed)
    pure renamed

def removeMetadata (store : DiskStore) (id : String) : FileProgram LiveError Unit := do
  let digest ← .ofExcept (validateId store.debug id)
  let path := store.metadataPath digest
  if ← pathExists path then
    attempt (.removeFile path) (ioError path.display)

/-- The calls that change what is stored. -/
inductive Operation where
  | put (now : Nat) (kind mediaType : String) (filename : Option String) (bytes : Contents)
  | cacheAddressedBounded (id : String) (bytes : Contents) (maxNewBytes : Nat)
  | renameFile (id filename : String)
  | removeMetadata (id : String)

/-- The contents a call stores. -/
def Operation.bytes : Operation → Option Contents
  | .put _ _ _ _ bytes | .cacheAddressedBounded _ bytes _ => some bytes
  | .renameFile _ _ | .removeMetadata _ => none

def program (store : DiskStore) (pid : Nat) : Operation → FileProgram LiveError Unit
  | .put now kind mediaType filename bytes => do
    let _ ← store.put pid now kind mediaType filename bytes
  | .cacheAddressedBounded id bytes maxNewBytes => do
    let _ ← store.cacheAddressedBounded pid id bytes maxNewBytes
  | .renameFile id filename => do
    let _ ← store.renameFile pid id filename
  | .removeMetadata id => store.removeMetadata id

/-- A call as some process makes it, and what becomes of its file-system calls. It is
cut off where the verdicts end. -/
structure Attempted where
  pid : Nat
  operation : Operation
  verdicts : List Verdict

def ran (store : DiskStore) (files : FileSystem) (attempted : Attempted) :
    FileProgram LiveError Unit × FileSystem :=
  Program.advance serve attempted.verdicts (store.program attempted.pid attempted.operation) files

def step (store : DiskStore) (files : FileSystem) (attempted : Attempted) : Option FileSystem :=
  some (store.ran files attempted).2

/-- How often the call was interrupted, by refusals or by being cut off. -/
def interruptions (store : DiskStore) (files : FileSystem) (attempted : Attempted) : Nat :=
  attempted.verdicts.countP (· ≠ .granted) +
    if (store.ran files attempted).1.outcome.isNone then 1 else 0

end DiskStore
end HologramLive.Store
