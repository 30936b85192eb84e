import HologramLive.Plan.Directory
import HologramLive.Serde

namespace HologramLive

namespace HoloLayer

def shape : StructShape where
  fields := [("position", false), ("kind", false), ("content_kappa", false), ("entry", false),
    ("contract", false), ("architecture", false), ("surface", false), ("engine", false)]
  denyUnknownFields := true

def toJson (layer : HoloLayer) : Json :=
  .ofFields
    [("position", some (.number layer.position)), ("kind", some (.string layer.kind)),
      ("content_kappa", some (.string layer.contentKappa)), ("entry", some (.string layer.entry)),
      ("contract", some (.ofOption .string layer.contract)),
      ("architecture", some (.ofOption .string layer.architecture)),
      ("surface", some (.ofOption .string layer.surface)),
      ("engine", some (.ofOption .string layer.engine))]

def ofJson (document : Json) : Option HoloLayer := do
  match ← shape.read document with
  | [position, kind, contentKappa, entry, contract, architecture, surface, engine] =>
    some
      { position := ← Json.required (Json.asUnsigned 32) position
        kind := ← Json.required Json.asStr kind
        contentKappa := ← Json.required Json.asStr contentKappa
        entry := ← Json.required Json.asStr entry
        contract := ← Json.optional Json.asStr contract
        architecture := ← Json.optional Json.asStr architecture
        surface := ← Json.optional Json.asStr surface
        engine := ← Json.optional Json.asStr engine }
  | _ => none

end HoloLayer

namespace HoloChild

def shape : StructShape where
  fields := [("position", false), ("application_kappa", false), ("capabilities_kappa", false),
    ("parent_application_kappa", true), ("depth", true), ("requires_kappa", true),
    ("application_resolution_source", true), ("capabilities_resolution_source", true)]
  denyUnknownFields := true

def toJson (child : HoloChild) : Json :=
  .ofFields
    [("position", some (.number child.position)),
      ("application_kappa", some (.string child.applicationKappa)),
      ("capabilities_kappa", some (.string child.capabilitiesKappa)),
      ("parent_application_kappa", child.parentApplicationKappa.map .string),
      ("depth", child.depth.map .number), ("requires_kappa", child.requiresKappa.map .string),
      ("application_resolution_source", child.applicationResolutionSource.map .string),
      ("capabilities_resolution_source", child.capabilitiesResolutionSource.map .string)]

def ofJson (document : Json) : Option HoloChild := do
  match ← shape.read document with
  | [position, applicationKappa, capabilitiesKappa, parentApplicationKappa, depth, requiresKappa,
      applicationResolutionSource, capabilitiesResolutionSource] =>
    some
      { position := ← Json.required (Json.asUnsigned 32) position
        applicationKappa := ← Json.required Json.asStr applicationKappa
        capabilitiesKappa := ← Json.required Json.asStr capabilitiesKappa
        parentApplicationKappa := ← Json.optional Json.asStr parentApplicationKappa
        depth := ← Json.optional (Json.asUnsigned 32) depth
        requiresKappa := ← Json.optional Json.asStr requiresKappa
        applicationResolutionSource := ← Json.optional Json.asStr applicationResolutionSource
        capabilitiesResolutionSource := ← Json.optional Json.asStr capabilitiesResolutionSource }
  | _ => none

end HoloChild

namespace HoloBlob

def shape : StructShape where
  fields := [("kappa", false), ("byte_length", false)]
  denyUnknownFields := true

def toJson (blob : HoloBlob) : Json :=
  .ofFields
    [("kappa", some (.string blob.kappa)), ("byte_length", some (.number blob.byteLength))]

def ofJson (document : Json) : Option HoloBlob := do
  match ← shape.read document with
  | [kappa, byteLength] =>
    some
      { kappa := ← Json.required Json.asStr kappa
        byteLength := ← Json.required (Json.asUnsigned 64) byteLength }
  | _ => none

end HoloBlob

namespace HoloDirectory

def shape : StructShape where
  fields := [("schema_version", false), ("primary_layer", false), ("requires_kappa", false),
    ("layers", false), ("children", false), ("blobs", false)]
  denyUnknownFields := true

def toJson (directory : HoloDirectory) : Json :=
  .ofFields
    [("schema_version", some (.number directory.schemaVersion)),
      ("primary_layer", some (.ofOption .number directory.primaryLayer)),
      ("requires_kappa", some (.string directory.requiresKappa)),
      ("layers", some (.array (directory.layers.map HoloLayer.toJson))),
      ("children", some (.array (directory.children.map HoloChild.toJson))),
      ("blobs", some (.array (directory.blobs.map HoloBlob.toJson)))]

def ofJson (document : Json) : Option HoloDirectory := do
  match ← shape.read document with
  | [schemaVersion, primaryLayer, requiresKappa, layers, children, blobs] =>
    some
      { schemaVersion := ← Json.required (Json.asUnsigned 16) schemaVersion
        primaryLayer := ← Json.optional (Json.asUnsigned 32) primaryLayer
        requiresKappa := ← Json.required Json.asStr requiresKappa
        layers := ← Json.required (Json.vector HoloLayer.ofJson) layers
        children := ← Json.required (Json.vector HoloChild.ofJson) children
        blobs := ← Json.required (Json.vector HoloBlob.ofJson) blobs }
  | _ => none

end HoloDirectory

/-- The crates with the directory written and read as its declaration derives it. -/
def Upstream.serde (upstream : Upstream) (codec : JsonCodec) (refusal : Bytes → String) :
    Upstream :=
  { upstream with
    directoryToVec := fun directory => codec.toVec directory.toJson
    directoryFromSlice := codec.read refusal HoloDirectory.ofJson }

/-- A row's numbers are of the widths its declaration gives them. -/
def HoloLayer.Sized (layer : HoloLayer) : Prop := layer.position < 2 ^ 32

structure HoloChild.Sized (child : HoloChild) : Prop where
  position : child.position < 2 ^ 32
  depth : ∀ depth, child.depth = some depth → depth < 2 ^ 32

def HoloBlob.Sized (blob : HoloBlob) : Prop := blob.byteLength < 2 ^ 64

structure HoloDirectory.Sized (directory : HoloDirectory) : Prop where
  schemaVersion : directory.schemaVersion < 2 ^ 16
  primaryLayer : ∀ primary, directory.primaryLayer = some primary → primary < 2 ^ 32
  layers : ∀ layer ∈ directory.layers, layer.Sized
  children : ∀ child ∈ directory.children, child.Sized
  blobs : ∀ blob ∈ directory.blobs, blob.Sized

theorem optional_string (value : Option String) :
    Json.optional Json.asStr (some (.ofOption .string value)) = some value :=
  Json.optional_ofOption (fun _ _ => rfl) fun _ => Json.noConfusion

theorem skipped_string (value : Option String) :
    Json.optional Json.asStr (value.map .string) = some value :=
  Json.optional_skipped (fun _ _ => rfl) fun _ => Json.noConfusion

theorem HoloLayer.ofJson_toJson {layer : HoloLayer} (h : layer.Sized) :
    HoloLayer.ofJson layer.toJson = some layer := by
  have hposition : Json.asUnsigned 32 (.number layer.position) = some layer.position :=
    Json.asUnsigned_number h
  rw [ofJson, toJson, StructShape.read_ofFields rfl (by decide)]
  simp [hposition, optional_string]

theorem HoloChild.ofJson_toJson {child : HoloChild} (h : child.Sized) :
    HoloChild.ofJson child.toJson = some child := by
  have hposition : Json.asUnsigned 32 (.number child.position) = some child.position :=
    Json.asUnsigned_number h.position
  have hdepth : Json.optional (Json.asUnsigned 32) (child.depth.map .number) = some child.depth :=
    Json.optional_skipped (fun depth hdepth => Json.asUnsigned_number (h.depth depth hdepth))
      fun _ => Json.noConfusion
  rw [ofJson, toJson, StructShape.read_ofFields rfl (by decide)]
  simp [hposition, hdepth, skipped_string]

theorem HoloBlob.ofJson_toJson {blob : HoloBlob} (h : blob.Sized) :
    HoloBlob.ofJson blob.toJson = some blob := by
  have hlength : Json.asUnsigned 64 (.number blob.byteLength) = some blob.byteLength :=
    Json.asUnsigned_number h
  rw [ofJson, toJson, StructShape.read_ofFields rfl (by decide)]
  simp [hlength]

/-- A directory reads back from its document. -/
theorem HoloDirectory.ofJson_toJson {directory : HoloDirectory} (h : directory.Sized) :
    HoloDirectory.ofJson directory.toJson = some directory := by
  have hschema : Json.asUnsigned 16 (.number directory.schemaVersion) =
      some directory.schemaVersion := Json.asUnsigned_number h.schemaVersion
  have hprimary : Json.optional (Json.asUnsigned 32) (some (.ofOption .number directory.primaryLayer)) =
      some directory.primaryLayer :=
    Json.optional_ofOption (fun found hfound => Json.asUnsigned_number (h.primaryLayer found hfound))
      fun _ => Json.noConfusion
  have hlayers := Json.vector_written fun layer hlayer =>
    HoloLayer.ofJson_toJson (h.layers layer hlayer)
  have hchildren := Json.vector_written fun child hchild =>
    HoloChild.ofJson_toJson (h.children child hchild)
  have hblobs := Json.vector_written fun blob hblob => HoloBlob.ofJson_toJson (h.blobs blob hblob)
  rw [ofJson, toJson, StructShape.read_ofFields rfl (by decide)]
  simp [hschema, hprimary, hlayers, hchildren, hblobs]

end HologramLive
