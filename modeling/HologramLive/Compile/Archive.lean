import HologramLive.Compile.Source
import HologramLive.Lib.Table
import HologramLive.Plan.Explain

/-! Compiling an application: its capability sets, its layers, the archives of its children
and the archive that is written. -/

namespace HologramLive.Compile
open Lib Lib.Result Python Plan

/-! ### Capability sets -/

def sourceError (path : Bytes) (field message : String) : LiveError :=
  .config s!"capability source {displayed path} field {field}: {message}"

/-- The check of neighbours both lists start with. -/
def checkAscending (path : Bytes) (field : String) : Nat → List String → Except LiveError Unit
  | index, first :: second :: rest =>
    if second ≤ first then
      .error <| sourceError path s!"{field}[{index + 1}]" <|
        if first = second then "duplicates the previous value"
        else "is not in ascending lexical order"
    else checkAscending path field (index + 1) (second :: rest)
  | _, _ => .ok ()

section Sets
variable (upstream : Upstream) (packager : Packager)

def parseEndpoints (path : Bytes) (field : String) (values : List String) :
    Except LiveError (List String) := do
  checkAscending path field 0 values
  values.zipIdx.mapM fun (value, index) =>
    (packager.parseScope value).mapError fun error =>
      sourceError path s!"{field}[{index}]"
        s!"expected canonical https://host:port/path-prefix scope: {error}"

def parseLabel (path : Bytes) (field value : String) : Except LiveError String :=
  if value.utf8ByteSize ≠ 71 ∨ ¬ "blake3:".toList <+: value.toList ∨
      ¬ (value.toList.drop 7).all Registry.KappaClient.isLowerHex = true then
    .error (sourceError path field "expected canonical blake3:<64 lowercase hex> κ")
  else (packager.parseLabel value).mapError fun error =>
    sourceError path field s!"invalid κ label: {error}"

def parseLabels (path : Bytes) (field : String) (values : List String) :
    Except LiveError (List String) := do
  checkAscending path field 0 values
  values.zipIdx.mapM fun (value, index) => parseLabel packager path s!"{field}[{index}]" value

/-- Which fields a schema has; the older one grants no network. -/
def CapabilitySource.checkSchema (path : Bytes) (source : CapabilitySource) :
    Except LiveError Unit :=
  if source.schemaVersion = 2 then
    if source.networkFetch.isSome ∨ source.networkAnnounce.isSome then
      .error <| sourceError path
        (if source.networkFetch.isSome then "network_fetch" else "network_announce")
        "schema 2 uses network_fetch_endpoints and network_announce_endpoints"
    else .ok ()
  else if source.schemaVersion = 1 then
    if source.networkFetchEndpoints ≠ [] ∨ source.networkAnnounceEndpoints ≠ [] then
      .error <| sourceError path "network_fetch_endpoints"
        "endpoint scopes require schema_version 2"
    else if source.networkFetch = some true ∨ source.networkAnnounce = some true then
      .error <| sourceError path
        (if source.networkFetch = some true then "network_fetch" else "network_announce") <|
        "schema 1 boolean network authority is no longer accepted; " ++
        "name exact schema 2 endpoint scopes"
    else .ok ()
  else
    .error <| sourceError path "schema_version"
      s!"unsupported value {source.schemaVersion}; expected 1 or 2"

def CapabilitySource.canonicalize (path : Bytes) (source : CapabilitySource) :
    Except LiveError Bytes := do
  source.checkSchema path
  let storageRoots ← parseLabels packager path "storage_roots" source.storageRoots
  let networkFetchEndpoints ←
    parseEndpoints packager path "network_fetch_endpoints" source.networkFetchEndpoints
  let networkAnnounceEndpoints ←
    parseEndpoints packager path "network_announce_endpoints" source.networkAnnounceEndpoints
  let publishChannels ← parseLabels packager path "publish_channels" source.publishChannels
  let subscribeChannels ← parseLabels packager path "subscribe_channels" source.subscribeChannels
  .ok <| upstream.canonicalizeCapabilities
    { storageRoots
      storageQuotaBytes := source.storageQuotaBytes
      networkFetchEndpoints
      networkAnnounceEndpoints
      publishChannels
      subscribeChannels
      memoryMaxBytes := source.memoryMaxBytes
      cpuTimePerEventMs := source.cpuTimePerEventMs
      priorityWeight := source.priorityWeight }

/-- Compile a source document into the canonical set. -/
def compileSource (path source : Bytes) : Except LiveError Bytes := do
  let document ← (packager.parseCapabilities source).mapError fun error =>
    .config s!"parse capability source {displayed path}: {error}"
  document.canonicalize upstream packager path

def emptyCanonical : Bytes := upstream.canonicalizeCapabilities {}

end Sets

/-! ### What a build reads -/

/-- The files a build sees and the builders it calls, for whichever architecture it runs on.
`R` and `C` are what the builders report of a root file system and of a component. -/
structure Workspace (R C : Type) where
  host : String
  read : Bytes → Except String Bytes
  compileDirectory : Bytes → Except LiveError Bytes
  compileRootfs : Bytes → PythonRootfsSource → String → Bool → Except LiveError (Bytes × R)
  compileComponent : Bytes → PythonRootfsSource → Except LiveError (Bytes × C)
  checkRootfs : Bytes → PythonRootfsSource → String → Except LiveError R
  checkComponent : Bytes → PythonRootfsSource → Except LiveError C

inductive PythonBuildProvenance (R C : Type) where
  | rootfs (report : R)
  | component (report : C)

structure LayerBuildProvenance (R C : Type) where
  layerIndex : Nat
  language : String := "python"
  source : PythonBuildProvenance R C

structure BuildProvenanceReport (R C : Type) where
  schemaVersion : Nat := 1
  canonical : Bool := false
  layers : List (LayerBuildProvenance R C)

inductive HoloPackaging where
  | fat
  | thin
  deriving DecidableEq

structure CompiledHolo (R C : Type) where
  bytes : Bytes
  layerCount : Nat
  childCount : Nat
  packaging : HoloPackaging
  identity : HoloIdentity
  capabilitiesKappa : String
  buildProvenance : BuildProvenanceReport R C

structure CompiledChild where
  application : String
  capabilities : String
  blobs : List (Bytes × Bytes)

structure CompiledLayer (R C : Type) where
  layer : Layer
  content : Bytes
  provenance : Option (PythonBuildProvenance R C)

/-- A table of blobs, each under the label of its address. -/
def insertBlob (upstream : Upstream) (blobs : List (Bytes × Bytes)) (content : Bytes) :
    List (Bytes × Bytes) :=
  Table.insert blobs (Utf8.encode (upstream.addressBytes content)) content

def insertBlobs (blobs more : List (Bytes × Bytes)) : List (Bytes × Bytes) :=
  more.foldl (fun blobs blob => Table.insert blobs blob.1 blob.2) blobs

section Build
variable {R C : Type} (upstream : Upstream) (packager : Packager) (workspace : Workspace R C)
  (root : Bytes)

def readFile (path : Bytes) : Except LiveError Bytes :=
  (workspace.read path).mapError fun error => .io s!"{displayed path}: {error}"

def readRequired (path : Bytes) : Except LiveError Bytes := readFile workspace (join root path)

def compileCapabilities (path : Option Bytes) : Except LiveError Bytes :=
  match path with
  | none => .ok (emptyCanonical upstream)
  | some path => do
    let source ← readFile workspace (join root path)
    compileSource upstream packager (join root path) source

def compileLayerContent (noBuildCache : Bool) (layer : CompileLayer) :
    Except LiveError (Bytes × Option (PythonBuildProvenance R C)) :=
  match layer.path, layer.source with
  | some path, none => do
    let bytes ← if layer.kind = .view then workspace.compileDirectory (join root path)
      else readRequired workspace root path
    .ok (bytes, none)
  | none, some (.python source) =>
    match source.profile with
    | .rootfs => do
      let arch ← requiredField layer "arch" layer.arch
      let (bytes, report) ← workspace.compileRootfs root source arch noBuildCache
      .ok (bytes, some (.rootfs report))
    | .wasiComponent => do
      let (bytes, report) ← workspace.compileComponent root source
      .ok (bytes, some (.component report))
  | _, _ => .error (layerConfigError layer oneSource)

def compileLayer (noBuildCache : Bool) (layer : CompileLayer) :
    Except LiveError (CompiledLayer R C) := do
  let (content, provenance) ← compileLayerContent workspace root noBuildCache layer
  let built ← buildLayer upstream packager workspace.host layer (upstream.addressBytes content)
  .ok ⟨built, content, provenance⟩

/-! ### Children -/

/-- The blobs of a child's archive, each checked against its label once more. -/
def takeBlobs (path : Bytes) : List (Bytes × Bytes) → List (Bytes × Bytes) →
    Except LiveError (List (Bytes × Bytes))
  | [], blobs => .ok blobs
  | (label, content) :: rest, blobs =>
    let actual := upstream.addressBytes content
    if Utf8.encode actual ≠ label then
      .error <| .invalidHolo <|
        s!"child archive {displayed path} contains a blob whose label does not match its " ++
        s!"bytes; expected {actual}"
    else takeBlobs path rest (Table.insert blobs label content)

def checkReferences (path : Bytes) (blobs : List (Bytes × Bytes)) :
    List String → Except LiveError Unit
  | [] => .ok ()
  | reference :: rest =>
    if (blobs.lookup (Utf8.encode reference)).isNone then
      .error <| .config <|
        s!"child archive {displayed path} is not self-contained; " ++
        s!"missing referenced object {reference}"
    else checkReferences path blobs rest

/-- The manifest of a child's archive, which has to be its canonical encoding. -/
def childManifest (path manifestBytes : Bytes) : Except LiveError AppManifest := do
  let manifest ← (upstream.decodeManifest manifestBytes).mapError fun error =>
    .invalidHolo s!"decode child application manifest {displayed path}: {error}"
  (upstream.validateManifest manifest).mapError fun error =>
    .invalidHolo s!"invalid child application manifest {displayed path}: {error}"
  if upstream.canonicalizeManifest manifest ≠ manifestBytes then
    .error <| .invalidHolo
      s!"child archive {displayed path} contains a non-canonical application manifest"
  else .ok manifest

/-- What a child's archive has to offer: its application and everything it names. -/
def childBlobs (path : Bytes) (archive : Archive) :
    Except LiveError (String × List (Bytes × Bytes)) :=
  match archive.appManifest with
  | none =>
    .error (.invalidHolo s!"child archive {displayed path} has no application manifest")
  | some manifestBytes => do
    let manifest ← childManifest upstream path manifestBytes
    let extensions ← liftHolo archive.extensions
    let contentBlobs ← liftHolo archive.contentBlobs
    let _ ← Directory.verifyRequired upstream manifest (Directory.directoriesOf extensions)
      contentBlobs
    let blobs ← takeBlobs upstream path contentBlobs (insertBlob upstream [] manifestBytes)
    let references ← (packager.references manifestBytes).mapError fun error =>
      .invalidHolo s!"read child application references {displayed path}: {error}"
    checkReferences path blobs references
    .ok (upstream.addressBytes manifestBytes, blobs)

def compileChild (child : CompileChild) : Except LiveError CompiledChild := do
  validateChildSource child
  let path := join root child.application
  let archiveBytes ← readFile workspace path
  requireCurrent archiveBytes
  let archive ← (upstream.load archiveBytes).mapError fun error =>
    .invalidHolo s!"read child archive {displayed path}: {error}"
  let (application, blobs) ← childBlobs upstream packager path archive
  let set ← compileCapabilities upstream packager workspace root (some child.capabilities)
  .ok ⟨application, upstream.addressBytes set, insertBlob upstream blobs set⟩

/-! ### The application -/

/-- What an archive is made of before it is written. -/
structure Assembly (R C : Type) where
  manifest : AppManifest
  blobs : List (Bytes × Bytes)
  provenance : List (LayerBuildProvenance R C)

def assemblyOf (specification : CompileManifest) (set : Bytes) (layers : List (CompiledLayer R C))
    (children : List CompiledChild) : Assembly R C where
  manifest :=
    { primary := specification.primary
      requires := upstream.addressBytes set
      layers := layers.map (·.layer)
      children := children.map fun child => (child.application, child.capabilities) }
  blobs :=
    children.foldl (fun blobs child => insertBlobs blobs child.blobs)
      (layers.foldl (fun blobs layer => insertBlob upstream blobs layer.content)
        (insertBlob upstream [] set))
  provenance := layers.zipIdx.filterMap fun (layer, layerIndex) =>
    layer.provenance.map fun source => { layerIndex, source }

def assemble (noBuildCache : Bool) (specification : CompileManifest) :
    Except LiveError (Assembly R C) := do
  let set ← compileCapabilities upstream packager workspace root specification.requires
  let layers ← specification.layers.mapM
    (compileLayer upstream packager workspace root noBuildCache)
  let children ← specification.children.mapM (compileChild upstream packager workspace root)
  let assembly := assemblyOf upstream specification set layers children
  (upstream.validateManifest assembly.manifest).mapError fun error =>
    .invalidHolo s!"invalid application manifest: {error}"
  .ok assembly

def embeddedBlobs (packaging : HoloPackaging) (assembly : Assembly R C) : List (Bytes × Bytes) :=
  match packaging with
  | .fat => Table.listing assembly.blobs
  | .thin => []

/-- Write an archive and report what the loader makes of it. -/
def package (packaging : HoloPackaging) (source : Bytes) (assembly : Assembly R C) :
    Except LiveError (CompiledHolo R C) := do
  let manifestBytes := upstream.canonicalizeManifest assembly.manifest
  let embedded := embeddedBlobs packaging assembly
  let directory ← Directory.derive upstream assembly.manifest embedded
  let bytes ← liftHolo <| packager.finish
    { appManifest := manifestBytes
      metadata := source
      extensions :=
        [(Directory.directoryExtensionKey, Directory.encode upstream directory)]
      contentBlobs := embedded }
  let archive ← liftHolo (upstream.load bytes)
  .ok
    { bytes
      layerCount := assembly.manifest.layers.length
      childCount := assembly.manifest.children.length
      packaging
      identity :=
        { archiveKappa := upstream.addressBytes bytes
          archiveFingerprint := hex archive.fingerprint
          applicationKappa := upstream.addressBytes manifestBytes }
      capabilitiesKappa := assembly.manifest.requires
      buildProvenance := { layers := assembly.provenance } }

/-- The manifest at a path, parsed and checked. -/
def readSpecification (path : Bytes) : Except LiveError (Bytes × CompileManifest) := do
  let source ← readFile workspace path
  let specification ← (packager.parseManifest source).mapError fun error =>
    .config s!"parse compile manifest {displayed path}: {error}"
  validateCompileManifest upstream packager workspace.host specification
  .ok (source, specification)

def checkLayer (layer : CompileLayer) : Except LiveError (Option (PythonBuildProvenance R C)) :=
  match layer.path, layer.source with
  | some path, none => do
    let _ ← if layer.kind = .view then workspace.compileDirectory (join root path)
      else readRequired workspace root path
    .ok none
  | none, some (.python source) =>
    match source.profile with
    | .rootfs => do
      let arch ← requiredField layer "arch" layer.arch
      let report ← workspace.checkRootfs root source arch
      .ok (some (.rootfs report))
    | .wasiComponent => do
      let report ← workspace.checkComponent root source
      .ok (some (.component report))
  | _, _ => .error (layerConfigError layer oneSource)

end Build

end HologramLive.Compile
