import HologramLive.Json
import HologramLive.Lib.Result
import HologramLive.ModelHub.ZipWriter
import HologramLive.Store.Names
import Mathlib.Data.List.Sort

/-! The service worker that answers with a zip assembled while it streams: bytes from the
sources, names and addresses from the index. -/

namespace HologramLive.ModelHub
open Lib

def escapeChar (c : Char) : List Char :=
  if c = '"' then ['\\', '"']
  else if c = '\\' then ['\\', '\\']
  else if c.toNat = 0x08 then ['\\', 'b']
  else if c.toNat = 0x09 then ['\\', 't']
  else if c.toNat = 0x0a then ['\\', 'n']
  else if c.toNat = 0x0c then ['\\', 'f']
  else if c.toNat = 0x0d then ['\\', 'r']
  else if c.toNat < 0x20 then
    ['\\', 'u', '0', '0', Nat.digitChar (c.toNat / 16), Nat.digitChar (c.toNat % 16)]
  else [c]

def quoted (text : String) : List Char := '"' :: text.toList.flatMap escapeChar ++ ['"']

mutual

/-- `JSON.stringify`. -/
def stringifyChars : Json → List Char
  | .null => "null".toList
  | .bool value => (if value then "true" else "false").toList
  | .number value => (toString value).toList
  | .string value => quoted value
  | .array items => '[' :: stringifyItems items ++ [']']
  | .object fields => '\x7b' :: stringifyFields fields ++ ['\x7d']

def stringifyItems : List Json → List Char
  | [] => []
  | [item] => stringifyChars item
  | item :: items => stringifyChars item ++ ',' :: stringifyItems items

def stringifyFields : List (String × Json) → List Char
  | [] => []
  | [(key, value)] => quoted key ++ ':' :: stringifyChars value
  | (key, value) :: fields =>
    quoted key ++ ':' :: stringifyChars value ++ ',' :: stringifyFields fields

end

def stringify (document : Json) : String := String.ofList (stringifyChars document)

def uriUnreserved (byte : UInt8) : Bool :=
  (0x30 ≤ byte && byte ≤ 0x39) || (0x41 ≤ byte && byte ≤ 0x5a) || (0x61 ≤ byte && byte ≤ 0x7a) ||
    "-_.!~*'()".toList.any fun c => c.toNat = byte.toNat

def upperHex (nibble : UInt8) : Char := "0123456789ABCDEF".toList.getD nibble.toNat '0'

def encodeURIComponent (text : String) : List Char :=
  (Utf8.encode text).flatMap fun byte : UInt8 =>
    if uriUnreserved byte then [Char.ofNat byte.toNat]
    else ['%', upperHex (byte >>> 4), upperHex (byte &&& 0x0f)]

def encodePath (path : String) : String :=
  String.ofList (['/'].intercalate
    ((path.toList.splitOn '/').map fun piece => encodeURIComponent (String.ofList piece)))

namespace ZipSw

/-- One place a model's bytes can be fetched, as the index document lists it. -/
structure Source where
  kind : String
  p2p : Bool
  pull : Bool
  missing : List String
  resolve : String

structure IndexFile where
  path : String
  size : Option Nat
  address : String
  hfUrl : Option String

structure IndexDocument where
  revision : String
  manifest : Option Json
  sources : List Source
  files : List IndexFile

structure SourceUrl where
  kind : String
  url : String

inductive Tail where
  | sums
  | record

structure Entry where
  name : String
  size : Nat
  address : String
  urls : List SourceUrl
  tail : Option Tail

def sourceOrder : List String := ["huggingface.co", "modelscope.cn", "ipfs"]

/-- `indexOf`, which is below every place for a kind that is not listed. -/
def sourceRank (kind : String) : Int :=
  match sourceOrder.idxOf? kind with
  | some place => place
  | none => -1

def small : Nat := 4 * 1024 * 1024

def chosenSources (doc : IndexDocument) (source : String) : List Source :=
  (doc.sources.filter fun s => !s.p2p && !s.pull && (source == "auto" || s.kind == source))
    |>.insertionSort fun a b => sourceRank a.kind ≤ sourceRank b.kind

def urlsOf (sources : List Source) (file : IndexFile) : List SourceUrl :=
  ((sources.filter fun s => !s.missing.contains file.path).map fun s : Source =>
      ⟨s.kind, if s.kind = "huggingface.co" then file.hfUrl.getD "" else
        s.resolve ++ encodePath file.path⟩).filter fun u : SourceUrl => u.url ≠ ""

/-- The files that some chosen source has. -/
def fileEntries (sources : List Source) (files : List IndexFile) : List Entry :=
  files.filterMap fun file =>
    let urls := urlsOf sources file
    if urls.length ≠ 0 then some ⟨file.path, file.size.getD 0, file.address, urls, none⟩ else none

def sums (entries : List Entry) : Bytes :=
  Utf8.encode (String.join (entries.map fun e =>
    String.ofList ((e.address.toList.splitOn ':').getD 1 "undefined".toList) ++ "  " ++ e.name ++
      "\n"))

/-- Which source delivered each file is one number a file. -/
def record (modelName : String) (doc : IndexDocument) (created : String) (sources : List Source)
    (entries : List Entry) (origins : List Nat) : Bytes :=
  let files := (entries.zip origins).map fun (e, origin) =>
    Json.array [.string e.name, .string e.address, .number origin]
  Utf8.encode (stringify (.object (
    [("format", Json.string "hologram.model-hub.zip/v1"), ("model", .string modelName),
      ("revision", .string doc.revision)] ++
    doc.manifest.toList.map (fun manifest => ("manifest", manifest)) ++
    [("created", Json.string created), ("sources", .array (sources.map fun s => .string s.kind)),
      ("files", .array files)])) ++ "\n")

/-- What a source answers one request with. -/
inductive Answer where
  /-- It says that it has no such file, or that it may not be had. -/
  | missing
  /-- Another status, no body, or no answer at all. -/
  | refused
  /-- A body, of the range alone where the source keeps to it. What it delivers may be cut. -/
  | body (ranged : Bool) (chunks : List Bytes) (cut : Bool)

def skipping : Nat → List Bytes → List Bytes
  | _, [] => []
  | 0, chunks => chunks
  | left + 1, chunk :: chunks =>
    if chunk.length ≤ left + 1 then skipping (left + 1 - chunk.length) chunks
    else chunk.drop (left + 1) :: chunks

/-- What is passed on of a body, and how much of the file has been received after it. -/
def readBody (entry : Entry) (kind : String) : Nat → List Bytes →
    List (Except String Bytes) × Option Nat
  | received, [] => ([], some received)
  | received, chunk :: chunks =>
    let received := received + chunk.length
    if entry.size < received then
      ([.error s!"{kind} sent more than {entry.size} bytes for {entry.name}."], none)
    else
      let (items, after) := readBody entry kind received chunks
      (.ok chunk :: items, after)

/-- After four tries the next source is asked. -/
def nextTry (place tries : Nat) : Nat × Nat := if tries < 4 then (place, tries) else (place + 1, 0)

/-- One file's bytes as a stream that survives a dropped connection, and the source they came
from last. Where the answers run out the download has been cancelled. -/
def resilient (entry : Entry) (received place tries origin : Nat) :
    List Answer → List (Except String Bytes) × Nat
  | [] =>
    match entry.urls[(nextTry place tries).1]? with
    | none => ([.error s!"No source delivered {entry.name}."], origin)
    | some _ => ([.error "cancelled"], origin)
  | answer :: rest =>
    let place' := (nextTry place tries).1
    let tries' := (nextTry place tries).2
    match entry.urls[place']? with
    | none => ([.error s!"No source delivered {entry.name}."], origin)
    | some url =>
      match answer with
      | .missing => resilient entry received (place' + 1) 0 origin rest
      | .refused => resilient entry received place' (tries' + 1) origin rest
      | .body ranged chunks cut =>
        let chunks := if received ≠ 0 ∧ ranged = false then skipping received chunks else chunks
        match readBody entry url.kind received chunks with
        | (items, none) => (items, place')
        | (items, some received) =>
          if cut = false ∧ entry.size ≤ received then (items, place')
          else
            let more := resilient entry received place' (tries' + 1) place' rest
            (items ++ more.1, more.2)

def bytesStream (bytes : Bytes) : List (Except String Bytes) :=
  if bytes.length ≠ 0 then [.ok bytes] else []

/-- A small file is fetched whole ahead of its turn, a large one is passed on as it comes. -/
def opened (entry : Entry) (stream : List (Except String Bytes)) :
    Except String (List (Except String Bytes)) :=
  if entry.size ≤ small then do
    let chunks ← stream.mapM id
    .ok (bytesStream chunks.flatten)
  else .ok stream

/-- All that one download meets: the answers to the requests for each file, ahead of its turn or
in it, the clock, and whether it is cancelled before its last write. -/
structure Circumstances where
  answers : Nat → List Answer
  time : Nat → Nat
  date : Nat → Nat
  created : String
  cancelled : Bool

/-- A stream that closes has carried all its bytes; any other ends in an error. -/
structure Response where
  contentLength : Nat
  stream : Except String Bytes

section
variable (sha256 : Bytes → Vector UInt8 32)

def check (entry : Entry) (kind : String) (bytes : Bytes) : Except String Unit :=
  if "sha256:" ++ Store.hex (sha256 bytes).toList ≠ entry.address then
    .error s!"{kind} served different bytes for {entry.name}. Nothing was kept."
  else .ok ()

/-- One entry of the archive. Every chunk of a file is shown to the hasher. -/
def addEntry (met : Circumstances) (tail : Tail → Bytes) (zip : ZipWriter) (entry : Entry)
    (i : Nat) : Except String ZipWriter :=
  match entry.tail with
  | some kind => do
    let (zip, _) ← zip.add (fun _ _ => ()) ()
      ⟨entry.name, entry.size, met.time i, met.date i, bytesStream (tail kind)⟩
    .ok zip
  | none => do
    let (delivered, origin) := resilient entry 0 0 0 0 (met.answers i)
    let stream ← opened entry delivered
    let (zip, hashed) ← zip.add (· ++ ·) [] ⟨entry.name, entry.size, met.time i, met.date i, stream⟩
    let _ ← check sha256 entry (((entry.urls[origin]?).map SourceUrl.kind).getD "A source") hashed
    .ok zip

def addEntries (met : Circumstances) (tail : Tail → Bytes) (zip : ZipWriter) :
    Nat → List Entry → Except String ZipWriter
  | _, [] => .ok zip
  | i, entry :: entries => do
    let zip ← addEntry sha256 met tail zip entry i
    addEntries met tail zip (i + 1) entries

def download (met : Circumstances) (entries : List Entry) (tail : Tail → Bytes) : Response where
  contentLength := ZipWriter.sizeOf (entries.map fun entry => (entry.name, entry.size))
  stream := do
    let zip ← addEntries sha256 met tail {} 0 entries
    if met.cancelled then .error "cancelled" else .ok zip.finish.written

/-- The source each file came from, once all have been delivered. -/
def originsOf (met : Circumstances) (files : List Entry) : List Nat :=
  files.zipIdx.map fun (entry, i) => (resilient entry 0 0 0 0 (met.answers i)).2

def tailBytes (modelName : String) (doc : IndexDocument) (met : Circumstances) (sources : List Source)
    (files : List Entry) : Tail → Bytes
  | .sums => sums files
  | .record => record modelName doc met.created sources files (originsOf met files)

/-- The entries of a model's archive: its files and the two that let it be checked offline. The
size of the record is fixed before any file is delivered. -/
def entriesOf (modelName : String) (doc : IndexDocument) (created : String) (sources : List Source)
    (files : List Entry) : List Entry :=
  files ++
    [⟨"SHA256SUMS", (sums files).length, "", [], some .sums⟩,
      ⟨"HOLOGRAM.json",
        (record modelName doc created sources files (files.map fun _ => 0)).length, "", [],
        some .record⟩]

def model (org name source : String) (doc : IndexDocument) (met : Circumstances) :
    Except String Response :=
  let sources := chosenSources doc source
  if sources.length = 0 then .error s!"This model is not on {source}."
  else
    let files := fileEntries sources doc.files
    let modelName := org ++ "/" ++ name
    .ok (download sha256 met (entriesOf modelName doc met.created sources files)
      (tailBytes modelName doc met sources files))

end
end ZipSw
end HologramLive.ModelHub
