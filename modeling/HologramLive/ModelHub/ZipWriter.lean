import HologramLive.Error
import HologramLive.Lib.Crc32
import HologramLive.Lib.LittleEndian
import HologramLive.Lib.Utf8
import HologramLive.Store

/-! The streaming zip writer: stored entries, each written as it arrives. -/

namespace HologramLive.ModelHub
open Lib

def crcTable : List (BitVec 32) :=
  (List.range 256).map fun n => Crc32.tableEntry (BitVec.ofNat 32 n)

def crc32 (crc : BitVec 32) (bytes : Bytes) : BitVec 32 :=
  ~~~(bytes.foldl (fun c byte =>
    crcTable.getD ((c ^^^ byte.toBitVec.setWidth 32) &&& 0xff#32).toNat 0 ^^^ (c >>> 8)) (~~~crc))

def limit32 : Nat := 0xffffffff

def u16 (v : Nat) : Bytes := LittleEndian.encode 2 v
def u32 (v : Nat) : Bytes := LittleEndian.encode 4 v
def u64 (v : Nat) : Bytes := LittleEndian.encode 8 v

/-- What an entry is added with. A stream delivers chunks or fails. -/
structure ZipInput where
  name : String
  size : Nat
  time : Nat
  date : Nat
  stream : List (Except String Bytes)

/-- What is kept of an entry for the directory. -/
structure ZipEntry where
  nameBytes : Bytes
  size : Nat
  crc : BitVec 32
  start : Nat
  time : Nat
  date : Nat
  zip64 : Bool

structure ZipWriter where
  written : Bytes := []
  offset : Nat := 0
  entries : List ZipEntry := []

namespace ZipWriter

structure SizeState where
  offset : Nat := 0
  directory : Nat := 0
  any64 : Bool := false

def sizeStep (state : SizeState) (entry : String × Nat) : SizeState :=
  let name := (Utf8.encode entry.1).length
  let zip64 := limit32 ≤ entry.2
  let bigOffset := limit32 ≤ state.offset
  { any64 := state.any64 || zip64
    directory := state.directory + (46 + name +
      (if zip64 ∨ bigOffset then
        4 + (if zip64 then 16 else 0) + (if bigOffset then 8 else 0) else 0))
    offset := state.offset + (30 + name + (if zip64 then 20 else 0) + entry.2 +
      (if zip64 then 24 else 16)) }

/-- The byte length of the archive for some entries, by their names and sizes. -/
def sizeOf (entries : List (String × Nat)) : Nat :=
  let state := entries.foldl sizeStep {}
  let needs64 := 0xffff ≤ entries.length ∨ limit32 ≤ state.offset ∨ limit32 ≤ state.directory ∨
    state.any64 = true
  state.offset + state.directory + (if needs64 then 56 + 20 else 0) + 22

def put (zip : ZipWriter) (bytes : Bytes) : ZipWriter :=
  { zip with written := zip.written ++ bytes, offset := zip.offset + bytes.length }

def localExtra (size : Nat) : Bytes :=
  if limit32 ≤ size then u16 0x0001 ++ u16 16 ++ u64 size ++ u64 size else []

/-- Flag bit 3: sizes and checksum follow the data, since the checksum is only known then. -/
def localHeader (input : ZipInput) : Bytes :=
  let nameBytes := Utf8.encode input.name
  let zip64 := limit32 ≤ input.size
  u32 0x04034b50 ++ u16 (if zip64 then 45 else 20) ++ u16 0x0808 ++ u16 0 ++ u16 input.time ++
    u16 input.date ++ u32 0 ++ u32 (if zip64 then limit32 else 0) ++
    u32 (if zip64 then limit32 else 0) ++ u16 nameBytes.length ++
    u16 (localExtra input.size).length ++ nameBytes ++ localExtra input.size

def descriptor (size : Nat) (crc : BitVec 32) : Bytes :=
  u32 0x08074b50 ++ u32 crc.toNat ++
    (if limit32 ≤ size then u64 size ++ u64 size else u32 size ++ u32 size)

/-- The loop over a stream: every chunk is added to the checksum, shown to `onChunk` and
written. -/
def pump (onChunk : σ → Bytes → σ) (zip : ZipWriter) (crc : BitVec 32) (written : Nat) (seen : σ) :
    List (Except String Bytes) → Except String (ZipWriter × BitVec 32 × Nat × σ)
  | [] => .ok (zip, crc, written, seen)
  | .error error :: _ => .error error
  | .ok value :: rest =>
    pump onChunk (zip.put value) (crc32 crc value) (written + value.length) (onChunk seen value) rest

def add (onChunk : σ → Bytes → σ) (seen : σ) (zip : ZipWriter) (input : ZipInput) :
    Except String (ZipWriter × σ) := do
  let start := zip.offset
  let (zip, crc, written, seen) ←
    pump onChunk (zip.put (localHeader input)) 0 0 seen input.stream
  if written ≠ input.size then
    .error s!"{input.name}: expected {input.size} bytes, received {written}"
  else
    let zip := zip.put (descriptor input.size crc)
    let entry : ZipEntry :=
      ⟨Utf8.encode input.name, input.size, crc, start, input.time, input.date,
        decide (limit32 ≤ input.size)⟩
    .ok ({ zip with entries := zip.entries ++ [entry] }, seen)

def centralExtra (entry : ZipEntry) : Bytes :=
  let bigOffset := limit32 ≤ entry.start
  if entry.zip64 = true ∨ bigOffset then
    u16 0x0001 ++ u16 ((if entry.zip64 then 16 else 0) + (if bigOffset then 8 else 0)) ++
      (if entry.zip64 then u64 entry.size ++ u64 entry.size else []) ++
      (if bigOffset then u64 entry.start else [])
  else []

def centralHeader (entry : ZipEntry) : Bytes :=
  let bigOffset := limit32 ≤ entry.start
  u32 0x02014b50 ++ u16 45 ++ u16 (if entry.zip64 = true ∨ bigOffset then 45 else 20) ++
    u16 0x0808 ++ u16 0 ++ u16 entry.time ++ u16 entry.date ++ u32 entry.crc.toNat ++
    u32 (if entry.zip64 then limit32 else entry.size) ++
    u32 (if entry.zip64 then limit32 else entry.size) ++ u16 entry.nameBytes.length ++
    u16 (centralExtra entry).length ++ u16 0 ++ u16 0 ++ u16 0 ++ u32 0 ++
    u32 (if bigOffset then limit32 else entry.start) ++ entry.nameBytes ++ centralExtra entry

def finish (zip : ZipWriter) : ZipWriter :=
  let directoryStart := zip.offset
  let zip := zip.entries.foldl (fun zip entry => zip.put (centralHeader entry)) zip
  let directorySize := zip.offset - directoryStart
  let count := zip.entries.length
  let zip :=
    if 0xffff ≤ count ∨ limit32 ≤ directoryStart ∨ limit32 ≤ directorySize ∨
        zip.entries.any ZipEntry.zip64 = true then
      let eocd64 := zip.offset
      (zip.put (u32 0x06064b50 ++ u64 44 ++ u16 45 ++ u16 45 ++ u32 0 ++ u32 0 ++ u64 count ++
        u64 count ++ u64 directorySize ++ u64 directoryStart)).put
        (u32 0x07064b50 ++ u32 0 ++ u64 eocd64 ++ u32 1)
    else zip
  zip.put (u32 0x06054b50 ++ u16 0 ++ u16 0 ++ u16 (min count 0xffff) ++ u16 (min count 0xffff) ++
    u32 (min directorySize limit32) ++ u32 (min directoryStart limit32) ++ u16 0)

/-- `add` for each input in order. -/
def addAll (zip : ZipWriter) : List ZipInput → Except String ZipWriter
  | [] => .ok zip
  | input :: inputs => do
    let (zip, _) ← zip.add (fun _ _ => ()) () input
    zip.addAll inputs

end ZipWriter
end HologramLive.ModelHub
