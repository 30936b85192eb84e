import HologramLive.Json
import HologramLive.Lib.Result
import HologramLive.Store.Names

namespace HologramLive.Artifact
open Lib.Result

def artifactType : String := "application/vnd.hologram.artifact.v1+json"
def annotationRole : String := "dev.hologram.role"
def annotationKind : String := "dev.hologram.kind"
def annotationName : String := "dev.hologram.name"
def annotationTag : String := "dev.hologram.tag"

/-- A fully-qualified artifact reference, with every default already applied. -/
structure ArtifactRef where
  host : String
  «namespace» : String
  name : String
  tag : String
  deriving DecidableEq

namespace ArtifactRef

/-- The repository portion of an upstream path. -/
def repository (reference : ArtifactRef) : String := s!"{reference.namespace}/{reference.name}"

def display (reference : ArtifactRef) : String :=
  s!"{reference.host}/{reference.namespace}/{reference.name}:{reference.tag}"

end ArtifactRef

/-- What a layer contributes: the archive itself, of which there is exactly one, or a
payload the archive references. -/
inductive LayerRole where
  | archive
  | layer
  deriving DecidableEq

structure ArtifactLayer where
  kappa : String
  mediaType : String
  size : Nat
  role : LayerRole
  deriving DecidableEq

structure ArtifactManifest where
  layers : List ArtifactLayer
  kind : Option String
  name : Option String
  tag : Option String
  deriving DecidableEq

def isAsciiUppercase (c : Char) : Bool := 'A' ≤ c && c ≤ 'Z'

def isBlake3 (kappa : String) : Bool :=
  decide ("blake3:".toList <+: kappa.toList) &&
    ((kappa.toList.drop 7).length = 64 &&
      (kappa.toList.drop 7).all fun c => Store.isAsciiHexDigit c && !isAsciiUppercase c)

def decodeRole (entry : Json) : LayerRole :=
  match ((entry.get "annotations").bind fun map => map.get annotationRole).bind Json.asStr with
  | some "archive" => .archive
  | _ => .layer

/-- One entry of the layer list. Identity is blake3 everywhere, so a digest on a foreign
axis is refused here. -/
def decodeLayer (debug : String → String) (entry : Json) : Except LiveError ArtifactLayer :=
  match (entry.get "digest").bind Json.asStr with
  | none => .error (.protocol "artifact manifest layer has no digest")
  | some kappa =>
    if !isBlake3 kappa then
      .error (.protocol s!"artifact manifest layer digest {debug kappa} is not a blake3 kappa")
    else
      .ok
        { kappa
          mediaType := ((entry.get "mediaType").bind Json.asStr).getD "application/octet-stream"
          size := ((entry.get "size").bind Json.asU64).getD 0
          role := decodeRole entry }

namespace ArtifactManifest

def ofDocument (debug : String → String) (document : Json) : Except LiveError ArtifactManifest :=
  let annotation := fun key =>
    (document.get "annotations").bind fun map => (map.get key).bind Json.asStr
  match (document.get "layers").bind Json.asArray with
  | none => .error (.protocol "artifact manifest has no layers")
  | some entries => do
    let layers ← entries.mapM (decodeLayer debug)
    .ok
      { layers, kind := annotation annotationKind, name := annotation annotationName
        tag := annotation annotationTag }

def decode (codec : JsonCodec) (debug : String → String) (body : Bytes) :
    Except LiveError ArtifactManifest :=
  match codec.fromSlice body with
  | .error error => .error (.protocol error)
  | .ok document => ofDocument debug document

/-- The single archive layer, or what was wrong. -/
def archive (manifest : ArtifactManifest) : Except LiveError ArtifactLayer :=
  match manifest.layers.filter fun layer => layer.role = .archive with
  | [] => .error (.protocol "artifact manifest declares no archive layer")
  | [archive] => .ok archive
  | _ => .error (.protocol "artifact manifest declares more than one archive layer")

end ArtifactManifest

def roleName : LayerRole → String
  | .archive => "archive"
  | .layer => "layer"

/-- A layer's entry, keys in printed order. -/
def layerDocument (layer : ArtifactLayer) : Json :=
  .object
    [("annotations", .object [(annotationRole, .string (roleName layer.role))]),
      ("digest", .string layer.kappa), ("mediaType", .string layer.mediaType),
      ("size", .number layer.size)]

def annotated (key : String) (value : Option String) : List (String × Json) :=
  match value with
  | some value => [(key, .string value)]
  | none => []

/-- The document that is published, keys in printed order. -/
def document (archive : ArtifactLayer) (manifest : ArtifactManifest) : Json :=
  .object
    [("annotations", .object (annotated annotationKind manifest.kind ++
        annotated annotationName manifest.name ++ annotated annotationTag manifest.tag)),
      ("artifactType", .string artifactType),
      ("config", .object
        [("digest", .string archive.kappa),
          ("mediaType", .string "application/vnd.oci.empty.v1+json"),
          ("size", .number archive.size)]),
      ("layers", .array (manifest.layers.map layerDocument)),
      ("mediaType", .string "application/vnd.oci.image.manifest.v1+json"),
      ("schemaVersion", .number 2)]

def ArtifactManifest.encode (codec : JsonCodec) (manifest : ArtifactManifest) :
    Except LiveError Bytes := do
  let archive ← manifest.archive
  .ok (codec.toVec (document archive manifest))

section RoundTrip
variable {codec : JsonCodec} {debug : String → String} {manifest : ArtifactManifest}
  {layer archive : ArtifactLayer}

/-- A layer that its own document describes. -/
structure ArtifactLayer.Printable (layer : ArtifactLayer) : Prop where
  kappa : isBlake3 layer.kappa = true
  size : layer.size < 2 ^ 64

theorem decodeRole_document (layer : ArtifactLayer) : decodeRole (layerDocument layer) = layer.role := by
  obtain ⟨kappa, mediaType, size, role⟩ := layer
  cases role <;> rfl

theorem decodeLayer_document (h : layer.Printable) :
    decodeLayer debug (layerDocument layer) = .ok layer := by
  have hdigest : ((layerDocument layer).get "digest").bind Json.asStr = some layer.kappa := rfl
  have hmedia : ((layerDocument layer).get "mediaType").bind Json.asStr = some layer.mediaType := rfl
  have hsize : ((layerDocument layer).get "size").bind Json.asU64 = some layer.size := by
    change (if layer.size < 2 ^ 64 then some layer.size else none) = some layer.size
    exact if_pos h.size
  simp only [decodeLayer, hdigest, h.kappa, hmedia, hsize, decodeRole_document, Bool.not_true,
    Bool.false_eq_true, ↓reduceIte, Option.getD_some]

theorem decodeLayers_document {layers : List ArtifactLayer} (h : ∀ layer ∈ layers, layer.Printable) :
    (layers.map layerDocument).mapM (decodeLayer debug) = .ok layers := by
  induction layers with
  | nil => rfl
  | cons layer rest ih =>
    rw [List.map_cons, List.mapM_cons, decodeLayer_document (h layer List.mem_cons_self), ok_bind,
      ih fun other hother => h other (List.mem_cons_of_mem _ hother)]
    rfl

theorem annotation_document (archive : ArtifactLayer) (manifest : ArtifactManifest) :
    let annotation := fun key => ((document archive manifest).get "annotations").bind fun map =>
      (map.get key).bind Json.asStr
    annotation annotationKind = manifest.kind ∧ annotation annotationName = manifest.name ∧
      annotation annotationTag = manifest.tag := by
  obtain ⟨layers, kind, name, tag⟩ := manifest
  refine ⟨?_, ?_, ?_⟩ <;> cases kind <;> cases name <;> cases tag <;> rfl

theorem ofDocument_document (archive : ArtifactLayer)
    (h : ∀ layer ∈ manifest.layers, layer.Printable) :
    ArtifactManifest.ofDocument debug (document archive manifest) = .ok manifest := by
  obtain ⟨hkind, hname, htag⟩ := annotation_document archive manifest
  have hentries : ((document archive manifest).get "layers").bind Json.asArray =
      some (manifest.layers.map layerDocument) := rfl
  simp only [ArtifactManifest.ofDocument, hentries, decodeLayers_document h, ok_bind, hkind, hname,
    htag]

/-- What is published reads back as what was to be published. -/
theorem decode_encode {body : Bytes}
    (hcodec : ∀ archive, manifest.archive = .ok archive → codec.Keeps (document archive manifest))
    (hlayers : ∀ layer ∈ manifest.layers, layer.Printable)
    (h : manifest.encode codec = .ok body) :
    ArtifactManifest.decode codec debug body = .ok manifest := by
  obtain ⟨archive, harchive, hbody⟩ := bind_ok.mp h
  obtain rfl := Except.ok.inj hbody
  have hread : codec.fromSlice (codec.toVec (document archive manifest)) =
      .ok (document archive manifest) := hcodec archive harchive
  simp only [ArtifactManifest.decode, hread, ofDocument_document archive hlayers]

theorem archive_ok (h : manifest.archive = .ok archive) :
    manifest.layers.filter (fun layer => layer.role = .archive) = [archive] := by
  unfold ArtifactManifest.archive at h
  split at h
  · cases h
  · rename_i found hfound
    obtain rfl := Except.ok.inj h
    exact hfound
  · cases h

theorem archive_of_filter
    (h : manifest.layers.filter (fun layer => layer.role = .archive) = [archive]) :
    manifest.archive = .ok archive := by
  simp only [ArtifactManifest.archive, h]

/-- The digest of a hash is written in lower case. -/
theorem isBlake3_address (blake3 : Store.Blake3) (bytes : Bytes) :
    isBlake3 (Store.address blake3 bytes) = true := by
  have hlist : (Store.address blake3 bytes).toList =
      "blake3:".toList ++ (Store.hexDigest blake3 bytes).toList := String.toList_append ..
  have hdrop : (Store.address blake3 bytes).toList.drop 7 = (Store.hexDigest blake3 bytes).toList := by
    rw [hlist]
    rfl
  have hlower : (Store.hexDigest blake3 bytes).toList.all
      (fun c => Store.isAsciiHexDigit c && !isAsciiUppercase c) = true := Store.hex_all rfl _
  have hstarts : "blake3:".toList <+: (Store.address blake3 bytes).toList := by
    rw [hlist]
    exact List.prefix_append ..
  simp only [isBlake3, hdrop, hlower, (Store.hexDigest_valid blake3 bytes).1, hstarts, decide_true,
    Bool.and_self]

end RoundTrip

end HologramLive.Artifact
