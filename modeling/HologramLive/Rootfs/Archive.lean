import HologramLive.Lib.Pieces
import HologramLive.Lib.Result
import HologramLive.Lib.Table
import HologramLive.Lib.Utf8
import HologramLive.Serde
import HologramLive.Store.Names
import Mathlib.Data.List.Destutter

/-! The canonical encoding of the Docker archives that root file systems come as. -/

namespace HologramLive.Rootfs
open Lib Lib.Result Store

def maxArchiveBytes : Nat := 2 * 1024 * 1024 * 1024

/-! ### Paths as they are in an archive -/

def slash : UInt8 := 0x2f

def dot : UInt8 := 0x2e

inductive Component where
  | rootDir
  | curDir
  | parentDir
  | normal (name : Bytes)
  deriving DecidableEq

def Component.ofPiece (piece : Bytes) : Component :=
  if piece = [dot, dot] then .parentDir else .normal piece

def Component.name? : Component → Option Bytes
  | .normal name => some name
  | _ => none

/-- `Path::components`: a dot stands for a component of its own only at the front. -/
def components (path : Bytes) : List Component :=
  let pieces := Pieces.pieces slash path
  let inner := (pieces.filter (· ≠ [dot])).map .ofPiece
  if path.head? = some slash then .rootDir :: inner
  else if pieces.head? = some [dot] then .curDir :: inner
  else inner

/-- What two paths are compared by once they have passed `validatePath`. -/
def names (path : Bytes) : List Bytes := (components path).filterMap Component.name?

def validatePath (path : Bytes) : Except LiveError Unit :=
  if path = [] ∨ ¬(components path).all (·.name?.isSome) then
    .error (.protocol s!"Docker archive contains unsafe member path {Utf8.decodeLossy path}")
  else .ok ()

/-- Files by the names on their paths. -/
abbrev Files := List (List Bytes × Bytes)

/-- The bytes of a path that is put together from its names. -/
def joined (names : List Bytes) : Bytes := [slash].intercalate names

/-! ### The archive -/

inductive EntryType where
  | regular
  | directory
  | other

/-- A member as the reader of the archive gives it. Its path and its contents may fail to be
read on their own. -/
structure Entry where
  entryType : EntryType
  mode : Nat
  uid : Nat
  gid : Nat
  mtime : Nat
  size : Nat
  path : Except String Bytes
  contents : Except String Bytes

/-- The crate that reads and writes archives. -/
structure Tar where
  entries : Bytes → Except String (List (Except String Entry))
  build : List Entry → Bytes

/-- What is written into an archive is read back as it was. -/
def Tar.Keeps (tar : Tar) (entries : List Entry) : Prop :=
  tar.entries (tar.build entries) = .ok (entries.map .ok)

structure DockerManifest where
  config : String
  repoTags : List String
  layers : List String

namespace DockerManifest

def shape : StructShape where
  fields := [("Config", false), ("RepoTags", false), ("Layers", false)]
  denyUnknownFields := false

def toJson (manifest : DockerManifest) : Json :=
  .ofFields
    [("Config", some (.string manifest.config)),
      ("RepoTags", some (.array (manifest.repoTags.map .string))),
      ("Layers", some (.array (manifest.layers.map .string)))]

def ofJson (document : Json) : Option DockerManifest := do
  match ← shape.read document with
  | [config, repoTags, layers] =>
    some
      { config := ← Json.required Json.asStr config
        repoTags := ← Json.required (Json.vector Json.asStr) repoTags
        layers := ← Json.required (Json.vector Json.asStr) layers }
  | _ => none

end DockerManifest

/-- What the encoding uses of other crates: the archives, the manifest's text and the hash. -/
structure Tools where
  tar : Tar
  codec : JsonCodec
  refusal : Bytes → String
  sha256 : Bytes → Vector UInt8 32

structure NormalizedDockerArchive where
  bytes : Bytes
  imageId : String

/-- One more member, and the size of all so far. -/
def readEntry : Files × Nat → Except String Entry → Except LiveError (Files × Nat)
  | _, .error error => .error (.protocol s!"read Docker archive entry: {error}")
  | (files, total), .ok entry =>
    match entry.entryType with
    | .directory => .ok (files, total)
    | .other => .error (.protocol "Docker archive contains a non-file member")
    | .regular => do
      let path ← entry.path.mapError fun error =>
        .protocol s!"decode Docker archive path: {error}"
      validatePath path
      if 2 ^ 64 ≤ total + entry.size then
        .error (.protocol "Docker archive expanded size overflowed")
      else if maxArchiveBytes < total + entry.size then
        .error (.protocol s!"Docker archive expands beyond {maxArchiveBytes} bytes")
      else do
        let contents ← entry.contents.mapError fun error =>
          .protocol s!"read Docker archive member: {error}"
        if (files.lookup (names path)).isSome then
          .error <| .protocol <|
            s!"Docker archive contains duplicate member {Utf8.decodeLossy path}"
        else .ok ((names path, contents) :: files, total + entry.size)

def readRegularFiles (tar : Tar) (archive : Bytes) : Except LiveError Files := do
  let entries ← (tar.entries archive).mapError fun error =>
    .protocol s!"read Docker archive: {error}"
  let (files, _) ← entries.foldlM readEntry ([], 0)
  .ok files

def requiredMember (files : Files) (path kind : String) : Except LiveError Bytes := do
  validatePath (Utf8.encode path)
  match files.lookup (names (Utf8.encode path)) with
  | none => .error (.protocol s!"Docker archive is missing {kind} {path}")
  | some contents => .ok contents

namespace Tools

variable (tools : Tools)

def digest (contents : Bytes) : String := hex (tools.sha256 contents).toList

def blobPath (contents : Bytes) : String := "blobs/sha256/" ++ tools.digest contents

/-- The names on the path of a blob. -/
def blobNames (contents : Bytes) : List Bytes :=
  [Utf8.encode "blobs", Utf8.encode "sha256", Utf8.encode (tools.digest contents)]

/-- Each layer in its turn: the files with it, and the path that now stands for it. -/
def normalizeLayer (files : Files) (normalized : Files × List String) (layer : String) :
    Except LiveError (Files × List String) := do
  let contents ← requiredMember files layer "layer"
  .ok (Table.insert normalized.1 (tools.blobNames contents) contents,
    normalized.2 ++ [tools.blobPath contents])

end Tools

def manifestNames : List Bytes := [Utf8.encode "manifest.json"]

/-- A member with the fixed header that all of them get. -/
def canonicalEntry (file : List Bytes × Bytes) : Entry where
  entryType := .regular
  mode := 0o644
  uid := 0
  gid := 0
  mtime := 0
  size := file.2.length
  path := .ok (joined file.1)
  contents := .ok file.2

def sortedTags (tags : List String) : List String :=
  (tags.insertionSort (· ≤ ·)).destutter (· ≠ ·)

def normalize (tools : Tools) (archive : Bytes) (expectedTag : String) :
    Except LiveError NormalizedDockerArchive := do
  let files ← readRegularFiles tools.tar archive
  match files.lookup manifestNames with
  | none => .error (.protocol "Docker archive is missing manifest.json")
  | some manifestBytes => do
    let manifests ← (tools.codec.read tools.refusal (Json.vector DockerManifest.ofJson)
      manifestBytes).mapError fun error =>
        LiveError.protocol s!"decode Docker archive manifest: {error}"
    match manifests with
    | [manifest] => do
      let repoTags := sortedTags manifest.repoTags
      if expectedTag ∉ repoTags then
        .error (.protocol s!"Docker archive does not contain expected tag {expectedTag}")
      else do
        let config ← requiredMember files manifest.config "image config"
        let imageId := "sha256:" ++ tools.digest config
        let (normalized, layers) ← manifest.layers.foldlM (tools.normalizeLayer files)
          ([(tools.blobNames config, config)], [])
        let manifest : DockerManifest := ⟨tools.blobPath config, repoTags, layers⟩
        let normalized := Table.insert normalized manifestNames
          (tools.codec.toVec (.array [manifest.toJson]))
        .ok ⟨tools.tar.build ((Table.listing normalized).map canonicalEntry), imageId⟩
    | _ => .error (.protocol
        s!"Docker archive contains {manifests.length} images; expected exactly one")

end HologramLive.Rootfs
