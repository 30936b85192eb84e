import HologramLive.Lib.Result
import HologramLive.Lib.Utf8
import HologramLive.Store.Names
import HologramLive.View.Path
import Mathlib.Data.List.Lex

/-! The manifest of one revision of a model repository: what it may say. -/

namespace HologramLive.Repo
open Lib Lib.Result Store

/-- The only accepted value of `RepoManifest.format`. -/
def repoManifestFormat : String := "hologram.repo-manifest/v1"

/-- Largest chunk a chunker may produce or a manifest may declare. -/
def maxChunkBytes : UInt64 := 256 * 1024 * 1024

def blake3Prefix : String := "blake3:"
def sha256Prefix : String := "sha256:"

structure ManifestSource where
  kind : String
  repo : String
  revision : String
  deriving DecidableEq

structure ManifestChunk where
  kappa : String
  offset : UInt64
  size : UInt64
  deriving DecidableEq

structure ManifestFile where
  path : String
  size : UInt64
  mediaType : Option String
  sha256 : Option String
  blake3 : String
  chunks : List ManifestChunk
  deriving DecidableEq

structure RepoManifest where
  format : String
  name : String
  source : Option ManifestSource
  files : List ManifestFile
  deriving DecidableEq

/-- The other content hash. -/
abbrev Sha256 := Bytes → Vector UInt8 32

def kappaOf (blake3 : Blake3) (bytes : Bytes) : String := blake3Prefix ++ hexDigest blake3 bytes

/-- `u64::checked_add`. -/
def checkedAdd (left right : UInt64) : Option UInt64 :=
  if left.toNat + right.toNat < 2 ^ 64 then some (left + right) else none

def isAsciiGraphic (c : Char) : Bool := '!' ≤ c && c ≤ '~'

def isLowerHex (c : Char) : Bool := ('0' ≤ c && c ≤ '9') || ('a' ≤ c && c ≤ 'f')

section Validate
variable (debug : String → String)

def validateNamePart (part : List Char) : Except LiveError Unit :=
  if part.all fun c => View.isAsciiAlphanumeric c || c = '.' || c = '_' || c = '-' then .ok ()
  else
    .error (.protocol
      s!"repo name part {debug (String.ofList part)} may only contain [A-Za-z0-9._-]")

def validateRepoName (name : String) : Except LiveError Unit :=
  let parts := name.toList.splitOn '/'
  if parts.length ≠ 2 ∨ parts.any (·.isEmpty) then
    .error (.protocol
      s!"repo name {debug name} must be \"namespace/repo\" with non-empty parts")
  else parts.forM (validateNamePart debug)

/-- Paths compare as exact UTF-8 bytes: nothing is normalized. -/
def validateFilePath (path : String) : Except LiveError Unit :=
  if path = "" ∨ "/".toList <+: path.toList ∨ '\\' ∈ path.toList ∨
      (path.toList.splitOn '/').any
        (fun segment => segment.isEmpty || segment = ['.'] || segment = ['.', '.']) ∨
      path.toList.any isControl then
    .error (.protocol s!"invalid repo file path {debug path}")
  else .ok ()

/-- A digest as `validateDigest` wants it: a marker, then 64 lowercase digits. -/
def DigestOf (marker value : String) : Prop :=
  marker.toList <+: value.toList ∧ (value.toList.drop marker.toList.length).length = 64 ∧
    (value.toList.drop marker.toList.length).all isLowerHex = true

instance : Decidable (DigestOf marker value) := inferInstanceAs (Decidable (_ ∧ _ ∧ _))

def validateDigest (value marker : String) : Except LiveError Unit :=
  if DigestOf marker value then .ok ()
  else
    .error (.protocol
      s!"{debug value} must be {debug marker} followed by 64 lowercase hex characters")

def validateKappa (kappa : String) : Except LiveError Unit :=
  validateDigest debug kappa blake3Prefix

def validateMediaType (path : String) : Option String → Except LiveError Unit
  | none => .ok ()
  | some mediaType =>
    if '/' ∉ mediaType.toList ∨ ¬mediaType.toList.all isAsciiGraphic then
      .error (.protocol s!"file {debug path} media type {debug mediaType} is malformed")
    else .ok ()

def validateSha256 : Option String → Except LiveError Unit
  | none => .ok ()
  | some sha256 => validateDigest debug sha256 sha256Prefix

/-- The loop over the chunks, from the offset the next one must have to the offset
behind the last. -/
def validateChunks (path : String) (expectedOffset : UInt64) :
    List ManifestChunk → Except LiveError UInt64
  | [] => .ok expectedOffset
  | chunk :: chunks => do
    validateKappa debug chunk.kappa
    if chunk.size = 0 ∨ maxChunkBytes < chunk.size then
      .error (.protocol
        s!"file {debug path} declares a {chunk.size} byte chunk; chunks must be 1 to {maxChunkBytes} bytes")
    else if chunk.offset ≠ expectedOffset then
      .error (.protocol
        s!"file {debug path} chunks are not contiguous: offset {chunk.offset} where {expectedOffset} was expected")
    else
      match checkedAdd expectedOffset chunk.size with
      | none => .error (.protocol s!"file {debug path} chunk offsets overflow")
      | some next => validateChunks path next chunks

def validateFile (file : ManifestFile) : Except LiveError Unit := do
  validateFilePath debug file.path
  validateMediaType debug file.path file.mediaType
  validateSha256 debug file.sha256
  validateKappa debug file.blake3
  let covered ← validateChunks debug file.path 0 file.chunks
  if covered ≠ file.size then
    .error (.protocol
      s!"file {debug file.path} chunks cover {covered} bytes but the manifest declares {file.size}")
  else .ok ()

def validateSourceField (field value : String) : Except LiveError Unit :=
  if value = "" ∨ ¬value.toList.all isAsciiGraphic then
    .error (.protocol
      s!"manifest source {field} {debug value} must be non-empty printable ASCII")
  else .ok ()

def validateSource : Option ManifestSource → Except LiveError Unit
  | none => .ok ()
  | some source => do
    validateSourceField debug "kind" source.kind
    validateSourceField debug "repo" source.repo
    validateSourceField debug "revision" source.revision

/-- The loop over the files, with the paths seen so far. -/
def validateFiles (seen : List String) : List ManifestFile → Except LiveError Unit
  | [] => .ok ()
  | file :: files => do
    validateFile debug file
    if file.path ∈ seen then
      .error (.protocol s!"duplicate file path {debug file.path} in repo manifest")
    else validateFiles (file.path :: seen) files

end Validate

namespace RepoManifest

def new (name : String) : RepoManifest := ⟨repoManifestFormat, name, none, []⟩

def validate (debug : String → String) (manifest : RepoManifest) : Except LiveError Unit :=
  if manifest.format ≠ repoManifestFormat then
    .error (.protocol
      s!"unsupported repo manifest format {debug manifest.format}; expected {debug repoManifestFormat}")
  else do
    validateRepoName debug manifest.name
    validateSource debug manifest.source
    validateFiles debug [] manifest.files

end RepoManifest

theorem checkedAdd_eq_some {left right total : UInt64} :
    checkedAdd left right = some total ↔ left.toNat + right.toNat = total.toNat := by
  unfold checkedAdd
  have hbound := total.toNat_lt
  constructor
  · intro h
    split at h
    · rename_i hfits
      obtain rfl := Option.some.inj h
      rw [UInt64.toNat_add, Nat.mod_eq_of_lt hfits]
    · cases h
  · intro h
    rw [if_pos (by omega), Option.some.injEq, ← UInt64.toNat_inj, UInt64.toNat_add,
      Nat.mod_eq_of_lt (by omega), h]

theorem validateDigest_ok : validateDigest debug value marker = .ok () ↔ DigestOf marker value := by
  unfold validateDigest
  split <;> simp [*]

/-- What is written in lowercase digits behind a marker passes its check. -/
theorem digestOf_hex (marker : String) (digest : Vector UInt8 32) :
    DigestOf marker (marker ++ hex digest.toList) := by
  have hdrop : (marker ++ hex digest.toList).toList.drop marker.toList.length =
      (hex digest.toList).toList := by
    rw [String.toList_append, List.drop_left]
  refine ⟨?_, ?_, ?_⟩
  · rw [String.toList_append]
    exact List.prefix_append ..
  · rw [hdrop, length_hex, Vector.length_toList]
  · rw [hdrop]
    exact hex_all rfl _

end HologramLive.Repo
