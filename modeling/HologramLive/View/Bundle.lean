import HologramLive.Lib.BigEndian
import HologramLive.Lib.Result
import HologramLive.Lib.Utf8
import HologramLive.View.Path

namespace HologramLive.View
open Lib Lib.Result

def magic : Bytes := [72, 79, 76, 79, 86, 73, 69, 87]

def viewBundleVersion : UInt16 := 1

def portableEntry : String := "index.html"

def maxFiles : Nat := 4096

def maxFileBytes : Nat := 64 * 1024 * 1024

def maxBundleBytes : Nat := 256 * 1024 * 1024

structure ViewFile where
  path : String
  bytes : Bytes

structure ViewBundle where
  version : UInt16
  entry : String
  files : List ViewFile

def utf8 (text : String) : Bytes := Utf8.encode text

def invalid (message : String) : LiveError := .invalidHolo message

/-- `to_ascii_lowercase`, the form in which paths may not collide. -/
def folded (path : String) : List Char := path.toList.map Char.toLower

/-- The asset loop: the previous path, the folded paths seen, whether the entry
was among them and the bytes so far. -/
def validateFiles (error : String → LiveError) (entry : String) :
    Option String → List (List Char) → Bool → Nat → List ViewFile → Except LiveError (Bool × Nat)
  | _, _, hasEntry, total, [] => .ok (hasEntry, total)
  | previous, seen, hasEntry, total, file :: rest =>
    match portablePath file.path with
    | .error _ => .error (error "invalid View asset path")
    | .ok _ =>
      if previous.any fun value => file.path ≤ value then
        .error (error "View assets must be strictly lexically ordered")
      else if folded file.path ∈ seen then
        .error (error "View assets contain a case-insensitive path collision")
      else if maxFileBytes < file.bytes.length then
        .error (error "View asset exceeds the format limit")
      else if 2 ^ 64 ≤ total + file.bytes.length then
        .error (error "View bundle byte length overflowed")
      else
        validateFiles error entry (some file.path) (folded file.path :: seen)
          (hasEntry || file.path = entry) (total + file.bytes.length) rest

def validateBundle (bundle : ViewBundle) (archive : Bool) : Except LiveError Unit :=
  let error := fun message => if archive then invalid message else .config message
  if bundle.version ≠ viewBundleVersion then
    .error (error "unsupported View bundle version")
  else if bundle.entry ≠ portableEntry then
    .error (error "View bundle entry must be index.html")
  else if bundle.files = [] ∨ maxFiles < bundle.files.length then
    .error (error "View bundle file count is outside the format limit")
  else do
    let (hasEntry, total) ← validateFiles error bundle.entry none [] false 0 bundle.files
    if maxBundleBytes < total then .error (error "View bundle exceeds the format limit")
    else if !hasEntry then .error (error "View bundle is missing index.html")
    else .ok ()

def writeLen (length : Nat) (description : String) : Except LiveError Bytes :=
  if 2 ^ 32 ≤ length then .error (.config s!"{description} is too large")
  else .ok (BigEndian.encode 4 length)

def encodeFiles : List ViewFile → Except LiveError Bytes
  | [] => .ok []
  | file :: rest => do
    let length ← writeLen file.path.utf8ByteSize "View asset path"
    let others ← encodeFiles rest
    .ok (length ++ utf8 file.path ++ BigEndian.encode 8 file.bytes.length ++ file.bytes ++ others)

def encode (bundle : ViewBundle) : Except LiveError Bytes := do
  validateBundle bundle false
  let entryLength ← writeLen bundle.entry.utf8ByteSize "View entry path"
  let count ← writeLen bundle.files.length "View file count"
  let files ← encodeFiles bundle.files
  .ok (magic ++ BigEndian.encode 2 bundle.version.toNat ++ entryLength ++ utf8 bundle.entry ++
    count ++ files)

/-- Input with a position that never leaves it. -/
structure Reader where
  bytes : Bytes
  offset : Nat
  within : offset ≤ bytes.length

namespace Reader

def new (bytes : Bytes) : Reader := ⟨bytes, 0, Nat.zero_le _⟩

def remaining (reader : Reader) : Bytes := reader.bytes.drop reader.offset

def take (length : Nat) (reader : Reader) : Except LiveError (Bytes × Reader) :=
  if h : reader.offset + length ≤ reader.bytes.length then
    .ok (reader.remaining.take length, ⟨reader.bytes, reader.offset + length, h⟩)
  else .error (invalid "truncated View bundle")

def number (width : Nat) (reader : Reader) : Except LiveError (Nat × Reader) := do
  let (bytes, reader) ← reader.take width
  .ok (BigEndian.decode bytes, reader)

def u16 (reader : Reader) : Except LiveError (UInt16 × Reader) := do
  let (version, reader) ← reader.number 2
  .ok (UInt16.ofNat version, reader)

def u32 : Reader → Except LiveError (Nat × Reader) := number 4

def u64 : Reader → Except LiveError (Nat × Reader) := number 8

def fromUtf8 (bytes : Bytes) : Except LiveError String :=
  match Utf8.decode bytes with
  | some text => .ok text
  | none => .error (invalid "View path is not valid UTF-8")

def text (length : Nat) (reader : Reader) : Except LiveError (String × Reader) := do
  let (bytes, reader) ← reader.take length
  let text ← fromUtf8 bytes
  .ok (text, reader)

def string (reader : Reader) : Except LiveError (String × Reader) := do
  let (length, reader) ← reader.u32
  if length = 0 ∨ maxPathBytes < length then
    .error (invalid "View string length is outside the format limit")
  else reader.text length

end Reader

/-- The asset loop of the decoder, with the bytes so far. -/
def decodeFiles : Nat → Nat → Reader → Except LiveError (List ViewFile × Reader)
  | 0, _, reader => .ok ([], reader)
  | count + 1, total, reader => do
    let (path, reader) ← reader.string
    let (length, reader) ← reader.u64
    if maxFileBytes < length then .error (invalid "View asset exceeds the format limit")
    else if maxBundleBytes < total + length then
      .error (invalid "View bundle exceeds the format limit")
    else do
      let (bytes, reader) ← reader.take length
      let (rest, reader) ← decodeFiles count (total + length) reader
      .ok ({ path, bytes } :: rest, reader)

def decode (bytes : Bytes) : Except LiveError ViewBundle := do
  let (found, reader) ← (Reader.new bytes).take magic.length
  if found ≠ magic then .error (invalid "invalid View bundle magic")
  else do
    let (version, reader) ← reader.u16
    let (entry, reader) ← reader.string
    let (count, reader) ← reader.u32
    if maxFiles < count then .error (invalid "View file count exceeds the format limit")
    else do
      let (files, reader) ← decodeFiles count 0 reader
      if reader.remaining ≠ [] then .error (invalid "View bundle has trailing bytes")
      else do
        let bundle : ViewBundle := { version, entry, files }
        validateBundle bundle true
        .ok bundle

/-- What both validations demand of a bundle. -/
structure WellFormed (bundle : ViewBundle) : Prop where
  version : bundle.version = viewBundleVersion
  entry : bundle.entry = portableEntry
  nonempty : bundle.files ≠ []
  count : bundle.files.length ≤ maxFiles
  portable : ∀ file ∈ bundle.files, ∃ logical, portablePath file.path = .ok logical
  ordered : bundle.files.Pairwise fun left right => left.path < right.path
  distinct : (bundle.files.map fun file => folded file.path).Nodup
  fileBytes : ∀ file ∈ bundle.files, file.bytes.length ≤ maxFileBytes
  bundleBytes : (bundle.files.map fun file => file.bytes.length).sum ≤ maxBundleBytes
  hasEntry : ∃ file ∈ bundle.files, file.path = bundle.entry

end HologramLive.View
