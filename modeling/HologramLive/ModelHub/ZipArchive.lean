import HologramLive.Lib.Result
import HologramLive.Lib.ZipFormat
import HologramLive.ModelHub.ZipWriter

namespace HologramLive.ModelHub
open Lib LittleEndian ZipFormat

/-- The bytes a stream delivers. -/
def ZipInput.content (input : ZipInput) : Bytes :=
  (input.stream.filterMap Except.toOption).flatten

/-- A stream that ends, with exactly as many bytes as were announced. -/
structure ZipInput.Exact (input : ZipInput) : Prop where
  ends : ∀ item ∈ input.stream, ∃ chunk, item = .ok chunk
  size : input.content.length = input.size

namespace ZipWriter

/-- An entry as it stands in the archive. -/
def memberBytes (input : ZipInput) : Bytes :=
  localHeader input ++ input.content ++ descriptor input.size (Crc32.checksum input.content)

def entryOf (start : Nat) (input : ZipInput) : ZipEntry :=
  ⟨Utf8.encode input.name, input.size, Crc32.checksum input.content, start, input.time, input.date,
    decide (limit32 ≤ input.size)⟩

/-- The entries of some inputs, each at the place its member begins. -/
def entriesFrom (start : Nat) : List ZipInput → List ZipEntry
  | [] => []
  | input :: inputs => entryOf start input :: entriesFrom (start + (memberBytes input).length) inputs

def membersBytes (inputs : List ZipInput) : Bytes := (inputs.map memberBytes).flatten

def directoryBytes (entries : List ZipEntry) : Bytes := (entries.map centralHeader).flatten

section
variable {σ : Type} {onChunk : σ → Bytes → σ} {seen : σ} {zip : ZipWriter} {input : ZipInput}

theorem tableEntry_eq (index : BitVec 32) (h : index.toNat < 256) :
    crcTable.getD index.toNat 0 = Crc32.tableEntry index := by
  have hlength : index.toNat < crcTable.length := by simpa [crcTable] using h
  rw [List.getD_eq_getElem?_getD, List.getElem?_eq_getElem hlength]
  simp [crcTable]

/-- The table computes the checksum. -/
theorem crc32_eq (crc : BitVec 32) (bytes : Bytes) : crc32 crc bytes = Crc32.update crc bytes := by
  have hstep : ∀ (c : BitVec 32) (byte : UInt8),
      crcTable.getD ((c ^^^ byte.toBitVec.setWidth 32) &&& 0xff#32).toNat 0 ^^^ (c >>> 8) =
        Crc32.byteStep c byte := by
    intro c byte
    have hindex : ((c ^^^ byte.toBitVec.setWidth 32) &&& 0xff#32).toNat < 256 := by
      rw [BitVec.toNat_and]
      exact Nat.lt_of_le_of_lt Nat.and_le_right (by decide)
    rw [tableEntry_eq _ hindex, ← Crc32.tableStep_eq, Crc32.tableStep]
  simp only [crc32, Crc32.update, hstep]

theorem put_put (first second : Bytes) : (zip.put first).put second = zip.put (first ++ second) := by
  simp [put, Nat.add_assoc]

theorem put_nil : zip.put [] = zip := by simp [put]

/-- The loop writes what the stream delivers, and sums it up. -/
theorem pump_ok {stream : List (Except String Bytes)} {crc : BitVec 32} {written : Nat}
    (h : ∀ item ∈ stream, ∃ chunk, item = .ok chunk) :
    pump onChunk zip crc written seen stream = .ok
      (zip.put (stream.filterMap Except.toOption).flatten,
        Crc32.update crc (stream.filterMap Except.toOption).flatten,
        written + (stream.filterMap Except.toOption).flatten.length,
        (stream.filterMap Except.toOption).foldl onChunk seen) := by
  induction stream generalizing zip crc written seen with
  | nil => simp [pump, put_nil, Crc32.update_nil]
  | cons item stream ih =>
    obtain ⟨⟨chunk, rfl⟩, hrest⟩ := List.forall_mem_cons.mp h
    have hitem : (Except.ok chunk : Except String Bytes).toOption = some chunk := rfl
    rw [pump, ih hrest, List.filterMap_cons_some hitem, List.flatten_cons, put_put, crc32_eq,
      ← Crc32.update_append, List.foldl_cons, List.length_append, Nat.add_assoc]

theorem add_ok (h : input.Exact) : add onChunk seen zip input = .ok
    ({ zip.put (memberBytes input) with entries := zip.entries ++ [entryOf zip.offset input] },
      (input.stream.filterMap Except.toOption).foldl onChunk seen) := by
  have hpump := @pump_ok _ onChunk seen (zip.put (localHeader input)) input.stream 0 0 h.ends
  have hsize : 0 + (input.stream.filterMap Except.toOption).flatten.length = input.size := by
    rw [Nat.zero_add]
    exact h.size
  rw [add, hpump, Result.ok_bind]
  simp only [hsize, ne_eq, not_true_eq_false, ↓reduceIte, put_put, memberBytes, entryOf,
    ZipInput.content]
  rfl

theorem pump_ends {stream : List (Except String Bytes)} {crc : BitVec 32} {written : Nat}
    {result : ZipWriter × BitVec 32 × Nat × σ}
    (h : pump onChunk zip crc written seen stream = .ok result) :
    ∀ item ∈ stream, ∃ chunk, item = .ok chunk := by
  induction stream generalizing zip crc written seen with
  | nil => simp
  | cons item stream ih =>
    cases item with
    | error error => cases h
    | ok chunk => exact List.forall_mem_cons.mpr ⟨⟨chunk, rfl⟩, ih h⟩

/-- `add` takes nothing but a stream of the announced length. -/
theorem add_exact {result : ZipWriter × σ} (h : add onChunk seen zip input = .ok result) :
    input.Exact := by
  obtain ⟨pumped, hpump, h⟩ := Result.bind_ok.mp h
  have hends := pump_ends hpump
  rw [pump_ok hends] at hpump
  obtain rfl := Except.ok.inj hpump
  dsimp only at h
  obtain ⟨hsize, -⟩ := Result.guard_ok.mp h
  rw [Nat.zero_add] at hsize
  exact ⟨hends, not_not.mp hsize⟩

/-- All entries, added one after another. -/
theorem addAll_ok {inputs : List ZipInput} (h : ∀ input ∈ inputs, input.Exact) :
    addAll zip inputs = .ok
      { written := zip.written ++ membersBytes inputs
        offset := zip.offset + (membersBytes inputs).length
        entries := zip.entries ++ entriesFrom zip.offset inputs } := by
  induction inputs generalizing zip with
  | nil => simp [addAll, membersBytes, entriesFrom]
  | cons input inputs ih =>
    obtain ⟨hinput, hrest⟩ := List.forall_mem_cons.mp h
    rw [addAll, add_ok hinput, Result.ok_bind]
    dsimp only
    rw [ih hrest]
    simp [membersBytes, entriesFrom, put, Nat.add_assoc]

@[simp] theorem length_u16 (v : Nat) : (u16 v).length = 2 := length_encode ..
@[simp] theorem length_u32 (v : Nat) : (u32 v).length = 4 := length_encode ..
@[simp] theorem length_u64 (v : Nat) : (u64 v).length = 8 := length_encode ..

theorem localExtra_length (size : Nat) :
    (localExtra size).length = if limit32 ≤ size then 20 else 0 := by
  unfold localExtra
  split <;> simp

theorem memberBytes_length (input : ZipInput) (h : input.Exact) :
    (memberBytes input).length = 30 + (Utf8.encode input.name).length +
      (if limit32 ≤ input.size then 20 else 0) + input.size +
      (if limit32 ≤ input.size then 24 else 16) := by
  simp only [memberBytes, localHeader, descriptor, List.length_append, length_u16, length_u32,
    localExtra_length, h.size]
  split <;> simp

theorem centralExtra_length (entry : ZipEntry) : (centralExtra entry).length =
    if entry.zip64 = true ∨ limit32 ≤ entry.start then
      4 + (if entry.zip64 = true then 16 else 0) + (if limit32 ≤ entry.start then 8 else 0)
    else 0 := by
  unfold centralExtra
  dsimp only
  split
  · cases entry.zip64 <;> by_cases hbig : limit32 ≤ entry.start <;> simp [hbig]
  · rfl

theorem centralHeader_length (entry : ZipEntry) : (centralHeader entry).length =
    46 + entry.nameBytes.length + (centralExtra entry).length := by
  simp only [centralHeader, List.length_append, length_u16, length_u32]

theorem put_entries (bytes : Bytes) : (zip.put bytes).entries = zip.entries := rfl

theorem put_directory (entries : List ZipEntry) :
    entries.foldl (fun zip entry => zip.put (centralHeader entry)) zip =
      zip.put (directoryBytes entries) := by
  induction entries generalizing zip with
  | nil => exact put_nil.symm
  | cons entry entries ih =>
    rw [List.foldl_cons, ih, put_put, directoryBytes, directoryBytes, List.map_cons,
      List.flatten_cons]

def wideEndBytes (count size start : Nat) : Bytes :=
  u32 0x06064b50 ++ u64 44 ++ u16 45 ++ u16 45 ++ u32 0 ++ u32 0 ++ u64 count ++ u64 count ++
    u64 size ++ u64 start

def locatorBytes (position : Nat) : Bytes := u32 0x07064b50 ++ u32 0 ++ u64 position ++ u32 1

def endBytes (count size start : Nat) : Bytes :=
  u32 0x06054b50 ++ u16 0 ++ u16 0 ++ u16 (min count 0xffff) ++ u16 (min count 0xffff) ++
    u32 (min size limit32) ++ u32 (min start limit32) ++ u16 0

/-- Where the wide end record is called for. -/
def Needs64 (count size start : Nat) (any64 : Bool) : Prop :=
  0xffff ≤ count ∨ limit32 ≤ start ∨ limit32 ≤ size ∨ any64 = true

instance (count size start : Nat) (any64 : Bool) : Decidable (Needs64 count size start any64) :=
  inferInstanceAs (Decidable (_ ∨ _ ∨ _ ∨ _))

/-- What follows the members of an archive. -/
def trailerBytes (entries : List ZipEntry) (start : Nat) : Bytes :=
  let size := (directoryBytes entries).length
  directoryBytes entries ++
    ((if Needs64 entries.length size start (entries.any ZipEntry.zip64) then
      wideEndBytes entries.length size start ++ locatorBytes (start + size) else []) ++
    endBytes entries.length size start)

theorem finish_written : (finish zip).written = zip.written ++ trailerBytes zip.entries zip.offset := by
  have hdirectory : (zip.put (directoryBytes zip.entries)).offset - zip.offset =
      (directoryBytes zip.entries).length := by simp [put]
  unfold finish
  simp only [put_directory, put_entries, hdirectory]
  by_cases hneeds : Needs64 zip.entries.length (directoryBytes zip.entries).length zip.offset
      (zip.entries.any ZipEntry.zip64)
  · have hcondition := hneeds
    rw [Needs64] at hcondition
    rw [if_pos hcondition, trailerBytes, if_pos hneeds]
    simp [put, wideEndBytes, locatorBytes, endBytes]
  · have hcondition := hneeds
    rw [Needs64] at hcondition
    rw [if_neg hcondition, trailerBytes, if_neg hneeds]
    simp [put, endBytes]

/-- The sizes that are foretold are the sizes that are written. -/
theorem sizeStep_ok {inputs : List ZipInput} (h : ∀ input ∈ inputs, input.Exact)
    (state : SizeState) :
    (inputs.map fun input => (input.name, input.size)).foldl sizeStep state =
      { offset := state.offset + (membersBytes inputs).length
        directory := state.directory + (directoryBytes (entriesFrom state.offset inputs)).length
        any64 := state.any64 || (entriesFrom state.offset inputs).any ZipEntry.zip64 } := by
  induction inputs generalizing state with
  | nil => simp [membersBytes, directoryBytes, entriesFrom]
  | cons input inputs ih =>
    obtain ⟨hinput, hrest⟩ := List.forall_mem_cons.mp h
    have hstep : sizeStep state (input.name, input.size) =
        { offset := state.offset + (memberBytes input).length
          directory := state.directory + (centralHeader (entryOf state.offset input)).length
          any64 := state.any64 || decide (limit32 ≤ input.size) } := by
      rw [memberBytes_length input hinput, centralHeader_length, centralExtra_length]
      by_cases hsize : limit32 ≤ input.size <;> by_cases hbig : limit32 ≤ state.offset <;>
        simp [sizeStep, entryOf, Nat.add_assoc, hsize, hbig]
    rw [List.map_cons, List.foldl_cons, hstep, ih hrest]
    simp [membersBytes, directoryBytes, entriesFrom, entryOf, Nat.add_assoc, Bool.or_assoc]

theorem entriesFrom_length (start : Nat) (inputs : List ZipInput) :
    (entriesFrom start inputs).length = inputs.length := by
  induction inputs generalizing start with
  | nil => rfl
  | cons input inputs ih => simp [entriesFrom, ih]

/-- The whole archive. -/
def archiveBytes (inputs : List ZipInput) : Bytes :=
  membersBytes inputs ++ trailerBytes (entriesFrom 0 inputs) (membersBytes inputs).length

theorem archive_written {inputs : List ZipInput} (h : ∀ input ∈ inputs, input.Exact) :
    ∃ zip, addAll {} inputs = .ok zip ∧ (finish zip).written = archiveBytes inputs := by
  refine ⟨_, addAll_ok h, ?_⟩
  rw [finish_written]
  simp [archiveBytes]

theorem archive_length {inputs : List ZipInput} (h : ∀ input ∈ inputs, input.Exact) :
    (archiveBytes inputs).length = sizeOf (inputs.map fun input => (input.name, input.size)) := by
  have hstate := sizeStep_ok h {}
  simp only [Nat.zero_add, Bool.false_or] at hstate
  rw [archiveBytes, trailerBytes, sizeOf, hstate]
  simp only [List.length_map, entriesFrom_length, List.length_append]
  by_cases hneeds : Needs64 inputs.length (directoryBytes (entriesFrom 0 inputs)).length
      (membersBytes inputs).length ((entriesFrom 0 inputs).any ZipEntry.zip64)
  · have hcondition := hneeds
    rw [Needs64] at hcondition
    rw [if_pos hneeds, if_pos hcondition]
    simp [wideEndBytes, locatorBytes, endBytes]
    omega
  · have hcondition := hneeds
    rw [Needs64] at hcondition
    rw [if_neg hneeds, if_neg hcondition]
    simp [endBytes]
    omega

end
end ZipWriter
end HologramLive.ModelHub
