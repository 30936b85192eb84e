import HologramLive.Registry.KappaClient

namespace HologramLive.Registry.Kappa
open KappaClient

/-- Five minutes, in the nanoseconds the clock counts. -/
def metadataTtl : Nat := 5 * 60 * 1000000000

def metadataEntries : Nat := 50000

def artifactType : String := "application/vnd.hologram.object.v1+json"
def annotationKind : String := "dev.hologram.kind"
def annotationFilename : String := "dev.hologram.filename"
def annotationCreated : String := "dev.hologram.created-at-millis"

/-- The clock is read in order: the n-th reading is `clock n`. -/
structure KappaRegistryProvider where
  transport : Transport
  codec : JsonCodec
  clock : Nat → Nat
  maxScanPages : Nat

/-- Records by tag with the instant each was stored, and the clock readings so far. -/
structure Cache where
  entries : List (String × ObjectMetadata × Nat) := []
  readings : Nat := 0

namespace KappaRegistryProvider

def new (transport : Transport) (codec : JsonCodec) (clock : Nat → Nat) (maxScanPages : Nat) :
    KappaRegistryProvider :=
  { transport, codec, clock, maxScanPages := max maxScanPages 1 }

def cached (provider : KappaRegistryProvider) (tag : String) (cache : Cache) :
    Option ObjectMetadata × Cache :=
  match cache.entries.lookup tag with
  | none => (none, cache)
  | some (metadata, stored) =>
    (if provider.clock cache.readings - stored < metadataTtl then some metadata else none,
      { cache with readings := cache.readings + 1 })

/-- Expired records go first, and a cache that is still full starts again. -/
def remember (provider : KappaRegistryProvider) (tag : String) (metadata : ObjectMetadata)
    (cache : Cache) : Cache :=
  let now := provider.clock cache.readings
  let entries :=
    if metadataEntries ≤ cache.entries.length ∧ cache.entries.lookup tag = none then
      let kept := cache.entries.filter fun entry => decide (now - entry.2.2 < metadataTtl)
      if metadataEntries ≤ kept.length then [] else kept
    else cache.entries
  { entries := (tag, metadata, now) :: entries.filter (fun entry => entry.1 ≠ tag)
    readings := cache.readings + 1 }

end KappaRegistryProvider

/-- The annotations in the key order the map prints them in. -/
def annotations (metadata : ObjectMetadata) : List (String × Json) :=
  (annotationCreated, .string (toString metadata.createdAtMillis)) ::
    match metadata.filename with
    | some filename => [(annotationFilename, .string filename), (annotationKind, .string metadata.kind)]
    | none => [(annotationKind, .string metadata.kind)]

def descriptor (metadata : ObjectMetadata) : Json :=
  .object
    [("digest", .string metadata.id), ("mediaType", .string metadata.mediaType),
      ("size", .number metadata.size)]

/-- An object's metadata as its sidecar manifest, keys in printed order. -/
def manifestDocument (metadata : ObjectMetadata) : Json :=
  .object
    [("annotations", .object (annotations metadata)),
      ("artifactType", .string artifactType),
      ("config", .object
        [("digest", .string metadata.id),
          ("mediaType", .string "application/vnd.oci.empty.v1+json"),
          ("size", .number metadata.size)]),
      ("layers", .array [descriptor metadata]),
      ("mediaType", .string "application/vnd.oci.image.manifest.v1+json"),
      ("schemaVersion", .number 2),
      ("subject", descriptor metadata)]

def encodeManifest (codec : JsonCodec) (metadata : ObjectMetadata) : Bytes :=
  codec.toVec (manifestDocument metadata)

def required (field : Option α) (message : String) : Except LiveError α :=
  match field with
  | some value => .ok value
  | none => .error (.protocol message)

/-- Reject anything that is not ours rather than return a half-populated record. -/
def decodeManifest (codec : JsonCodec) (body : Bytes) : Except LiveError ObjectMetadata :=
  match codec.fromSlice body with
  | .error error => .error (.protocol error)
  | .ok document => do
    let annotated := fun key =>
      (document.get "annotations").bind fun map => (map.get key).bind Json.asStr
    let subject ← required (document.get "subject") "object manifest has no subject"
    let id ← required ((subject.get "digest").bind Json.asStr)
      "object manifest subject has no digest"
    let kind ← required (annotated annotationKind) s!"object manifest is missing {annotationKind}"
    let createdAtMillis ← required ((annotated annotationCreated).bind parseU64)
      s!"object manifest is missing {annotationCreated}"
    .ok {
      id, kind, createdAtMillis
      mediaType := ((subject.get "mediaType").bind Json.asStr).getD "application/octet-stream"
      filename := annotated annotationFilename
      size := ((subject.get "size").bind Json.asU64).getD 0 }

namespace KappaRegistryProvider

/-- `none` for a tag without a manifest, so that it is skipped. -/
def metadataByTag (provider : KappaRegistryProvider) (tag : String) (cache : Cache) :
    Except LiveError (Option ObjectMetadata × Cache) :=
  match provider.cached tag cache with
  | (some metadata, cache) => .ok (some metadata, cache)
  | (none, cache) => do
    match ← getManifest provider.transport tag with
    | none => .ok (none, cache)
    | some body => do
      let metadata ← decodeManifest provider.codec body
      .ok (some metadata, provider.remember tag metadata cache)

/-- How far a page of tags got: stopped by a match beyond the limit, or through. -/
inductive Progress where
  | full (objects : List ObjectMetadata)
  | through (objects : List ObjectMetadata)

def scanTags (provider : KappaRegistryProvider) (query : ObjectQuery) :
    List String → List ObjectMetadata → Cache → Except LiveError (Progress × Cache)
  | [], objects, cache => .ok (.through objects, cache)
  | tag :: rest, objects, cache =>
    if (kappaFor tag).isNone then provider.scanTags query rest objects cache
    else do
      let (found, cache) ← provider.metadataByTag tag cache
      match found with
      | none => provider.scanTags query rest objects cache
      | some metadata =>
        if !query.matches metadata then provider.scanTags query rest objects cache
        else if objects.length = query.effectiveLimit then .ok (.full objects, cache)
        else provider.scanTags query rest (objects ++ [metadata]) cache

def lastId (objects : List ObjectMetadata) : Option String := objects.getLast?.map (·.id)

/-- The page loop, counting down the scan pages that are left. -/
def scanPages (provider : KappaRegistryProvider) (query : ObjectQuery) :
    Nat → Option String → List ObjectMetadata → Cache → Except LiveError (ObjectPage × Cache)
  | 0, _, objects, cache =>
    .ok ({ objects, nextCursor := lastId objects, truncated := true }, cache)
  | left + 1, cursor, objects, cache => do
    let page ← listTags provider.transport ObjectQuery.maxLimit cursor
    if page.tags = [] then .ok ({ objects, nextCursor := none, truncated := false }, cache)
    else do
      let (progress, cache) ← provider.scanTags query page.tags objects cache
      match progress with
      | .full objects => .ok ({ objects, nextCursor := lastId objects, truncated := false }, cache)
      | .through objects =>
        match page.next with
        | some next => provider.scanPages query left (some next) objects cache
        | none => .ok ({ objects, nextCursor := none, truncated := false }, cache)

def search (provider : KappaRegistryProvider) (query : ObjectQuery) (cache : Cache) :
    Except LiveError (ObjectPage × Cache) :=
  provider.scanPages query provider.maxScanPages (query.cursor.map tagFor) [] cache

end KappaRegistryProvider
end HologramLive.Registry.Kappa
