import HologramLive.ModelHub.ZipRead

namespace HologramLive.ModelHub.ZipWriter
open Lib LittleEndian

section
variable {input : ZipInput} {inputs : List ZipInput} {before after : Bytes}

theorem localHeader_eq (input : ZipInput) : localHeader input =
    write [(4, ZipFormat.localSignature), (2, if limit32 ≤ input.size then 45 else 20), (2, 0x0808),
      (2, 0), (2, input.time), (2, input.date), (4, 0),
      (4, if limit32 ≤ input.size then limit32 else 0),
      (4, if limit32 ≤ input.size then limit32 else 0), (2, (Utf8.encode input.name).length),
      (2, (localExtra input.size).length)] ++ (Utf8.encode input.name ++ localExtra input.size) := by
  simp [localHeader, write, u16, u32, ZipFormat.localSignature]

theorem localExtra_fits (size : Nat) : (localExtra size).length < 256 ^ 2 := by
  rw [localExtra_length]
  split <;> simp

theorem read_localHeader (hname : (Utf8.encode input.name).length ≤ 0xffff) (rest : Bytes) :
    ∃ version time date size, LittleEndian.read ZipFormat.localWidths (localHeader input ++ rest) =
      some ([ZipFormat.localSignature, version, 0x0808, 0, time, date, 0, size, size,
        (Utf8.encode input.name).length, (localExtra input.size).length],
        Utf8.encode input.name ++ (localExtra input.size ++ rest)) := by
  have hnameMod : (Utf8.encode input.name).length % 256 ^ 2 = (Utf8.encode input.name).length :=
    Nat.mod_eq_of_lt (lt_of_le_of_lt hname (by decide))
  have hextra : (localExtra input.size).length % 256 ^ 2 = (localExtra input.size).length :=
    Nat.mod_eq_of_lt (localExtra_fits _)
  have hsignature : ZipFormat.localSignature % 256 ^ 4 = ZipFormat.localSignature := by decide
  have hread := read_write [(4, ZipFormat.localSignature),
    (2, if limit32 ≤ input.size then 45 else 20), (2, 0x0808), (2, 0), (2, input.time),
    (2, input.date), (4, 0), (4, if limit32 ≤ input.size then limit32 else 0),
    (4, if limit32 ≤ input.size then limit32 else 0), (2, (Utf8.encode input.name).length),
    (2, (localExtra input.size).length)]
    (Utf8.encode input.name ++ (localExtra input.size ++ rest))
  simp only [List.map_cons, List.map_nil, hnameMod, hextra, hsignature] at hread
  rw [localHeader_eq, List.append_assoc, List.append_assoc]
  exact ⟨_, _, _, _, hread⟩

/-- The width of the sizes after a member's data. -/
theorem localExtra_wide (size : Nat) :
    (ZipFormat.extraField ZipFormat.wideId (localExtra size).length (localExtra size)).isSome =
      decide (limit32 ≤ size) := by
  by_cases hsize : limit32 ≤ size
  · have hlength : (localExtra size).length = 19 + 1 := by rw [localExtra_length, if_pos hsize]
    have hextra : localExtra size =
        write [(2, ZipFormat.wideId), (2, (u64 size ++ u64 size).length)] ++ (u64 size ++ u64 size) := by
      simp [localExtra, hsize, write, u16, ZipFormat.wideId]
    rw [hlength, hextra,
      extraField_write _ _ (by decide) (by simp), decide_eq_true hsize]
    rfl
  · simp [localExtra, hsize, ZipFormat.extraField]

theorem descriptor_described {size : Nat} (hsize : size < 2 ^ 64) (crc : BitVec 32) (name : Bytes)
    (offset : Nat) :
    ZipFormat.described ⟨name, 0x0808, 0, crc.toNat, size, size, offset⟩
      (if decide (limit32 ≤ size) = true then 8 else 4) (descriptor size crc ++ after) = true := by
  have hsignature : ZipFormat.descriptorSignature % 256 ^ 4 = ZipFormat.descriptorSignature := by
    decide
  have hcrc : crc.toNat % 256 ^ 4 = crc.toNat := Nat.mod_eq_of_lt crc.isLt
  by_cases hbig : limit32 ≤ size
  · have hbytes : descriptor size crc =
        write [(4, ZipFormat.descriptorSignature), (4, crc.toNat), (8, size), (8, size)] := by
      simp [descriptor, hbig, write, u32, u64, ZipFormat.descriptorSignature]
    have hread := read_write
      [(4, ZipFormat.descriptorSignature), (4, crc.toNat), (8, size), (8, size)] after
    simp only [List.map_cons, List.map_nil, hsignature, hcrc, mod_wide hsize] at hread
    rw [decide_eq_true hbig, if_pos rfl, hbytes, ZipFormat.described, hread]
    exact decide_eq_true rfl
  · have hsmall : size % 256 ^ 4 = size := by
      have hlimit : limit32 < 256 ^ 4 := by decide
      exact Nat.mod_eq_of_lt (by omega)
    have hbytes : descriptor size crc =
        write [(4, ZipFormat.descriptorSignature), (4, crc.toNat), (4, size), (4, size)] := by
      simp [descriptor, hbig, write, u32, ZipFormat.descriptorSignature]
    have hread := read_write
      [(4, ZipFormat.descriptorSignature), (4, crc.toNat), (4, size), (4, size)] after
    simp only [List.map_cons, List.map_nil, hsignature, hcrc, hsmall] at hread
    rw [decide_eq_false hbig, if_neg Bool.false_ne_true, hbytes, ZipFormat.described, hread]
    exact decide_eq_true rfl

/-- A member is read back by what the directory says of it. -/
theorem readMember_ok (h : input.Exact) (hname : (Utf8.encode input.name).length ≤ 0xffff)
    (hsize : input.size < 2 ^ 64) :
    ZipFormat.readMember (before ++ (memberBytes input ++ after))
        (centralOf (entryOf before.length input)) =
      some (Utf8.encode input.name, input.content) := by
  obtain ⟨version, time, date, size, hlocal⟩ := read_localHeader hname
    (input.content ++ (descriptor input.size (Crc32.checksum input.content) ++ after))
  have hdrop : (before ++ (memberBytes input ++ after)).drop before.length = localHeader input ++
      (input.content ++ (descriptor input.size (Crc32.checksum input.content) ++ after)) := by
    rw [List.drop_left, memberBytes, List.append_assoc, List.append_assoc]
  rw [← hdrop] at hlocal
  have hdescribed := @descriptor_described after input.size hsize (Crc32.checksum input.content)
    (Utf8.encode input.name) before.length
  rw [← localExtra_wide, ← h.size] at hdescribed
  rw [← h.size] at hlocal
  have hmember := ZipFormat.readMember_of hlocal hdescribed
  rw [h.size] at hmember
  exact hmember

/-- What the directory says of the inputs is enough to read all of them. -/
theorem readMembers (h : ∀ input ∈ inputs, input.Exact)
    (hnames : ∀ input ∈ inputs, (Utf8.encode input.name).length ≤ 0xffff)
    (hsize : (membersBytes inputs).length < 2 ^ 64) (before after : Bytes) :
    ((entriesFrom before.length inputs).map centralOf).mapM
        (ZipFormat.readMember (before ++ (membersBytes inputs ++ after))) =
      some (inputs.map fun input => (Utf8.encode input.name, input.content)) := by
  induction inputs generalizing before with
  | nil => rfl
  | cons input inputs ih =>
    obtain ⟨hinput, hrest⟩ := List.forall_mem_cons.mp h
    obtain ⟨hname, hnames⟩ := List.forall_mem_cons.mp hnames
    have hsplit : membersBytes (input :: inputs) = memberBytes input ++ membersBytes inputs := by
      rw [membersBytes, membersBytes, List.map_cons, List.flatten_cons]
    rw [hsplit, List.length_append] at hsize
    have hmember := memberBytes_length input hinput
    have hread := @readMember_ok input before (membersBytes inputs ++ after) hinput hname (by omega)
    have hnext := ih hrest hnames (by omega) (before ++ memberBytes input)
    rw [List.length_append, List.append_assoc] at hnext
    rw [hsplit, List.append_assoc, entriesFrom, List.map_cons, List.mapM_cons, hread, hnext]
    rfl

theorem entriesFrom_fits (h : ∀ input ∈ inputs, input.Exact)
    (hnames : ∀ input ∈ inputs, (Utf8.encode input.name).length ≤ 0xffff) {start : Nat}
    (hsize : start + (membersBytes inputs).length < 2 ^ 64) :
    ∀ entry ∈ entriesFrom start inputs, Fits entry := by
  induction inputs generalizing start with
  | nil => simp [entriesFrom]
  | cons input inputs ih =>
    obtain ⟨hinput, hrest⟩ := List.forall_mem_cons.mp h
    obtain ⟨hname, hnames⟩ := List.forall_mem_cons.mp hnames
    have hmember := memberBytes_length input hinput
    rw [membersBytes, List.map_cons, List.flatten_cons, List.length_append, ← membersBytes] at hsize
    refine List.forall_mem_cons.mpr ⟨⟨hname, ?_, ?_, rfl⟩, ih hrest hnames (by omega)⟩
    · show input.size < 2 ^ 64
      omega
    · show start < 2 ^ 64
      omega

theorem count_le_directory (entries : List ZipEntry) :
    entries.length ≤ (directoryBytes entries).length := by
  induction entries with
  | nil => simp
  | cons entry entries ih =>
    rw [directoryBytes, List.map_cons, List.flatten_cons, List.length_append, ← directoryBytes,
      centralHeader_length, List.length_cons]
    omega

theorem archive_parts (inputs : List ZipInput) : archiveBytes inputs =
    membersBytes inputs ++ (directoryBytes (entriesFrom 0 inputs) ++
      ((if Needs64 inputs.length (directoryBytes (entriesFrom 0 inputs)).length
          (membersBytes inputs).length ((entriesFrom 0 inputs).any ZipEntry.zip64) then
        wideEndBytes inputs.length (directoryBytes (entriesFrom 0 inputs)).length
            (membersBytes inputs).length ++
          locatorBytes ((membersBytes inputs).length +
            (directoryBytes (entriesFrom 0 inputs)).length) else []) ++
      endBytes inputs.length (directoryBytes (entriesFrom 0 inputs)).length
        (membersBytes inputs).length)) := by
  rw [archiveBytes, trailerBytes, entriesFrom_length]

/-- The directory is found and says what is true of every member. -/
theorem archive_directory (h : ∀ input ∈ inputs, input.Exact)
    (hnames : ∀ input ∈ inputs, (Utf8.encode input.name).length ≤ 0xffff)
    (hsize : (archiveBytes inputs).length < 2 ^ 64) :
    ZipFormat.readDirectory (archiveBytes inputs) = some
      (⟨inputs.length, (directoryBytes (entriesFrom 0 inputs)).length, (membersBytes inputs).length⟩,
        (entriesFrom 0 inputs).map centralOf) := by
  rw [archive_parts] at hsize ⊢
  have hcount := count_le_directory (entriesFrom 0 inputs)
  rw [entriesFrom_length] at hcount
  simp only [List.length_append] at hsize
  have hend := @readEnd_trailer (membersBytes inputs) (directoryBytes (entriesFrom 0 inputs))
    inputs.length ((entriesFrom 0 inputs).any ZipEntry.zip64) ⟨by omega, by omega, by omega⟩
    (by rw [List.length_append]; omega)
  have hfits := entriesFrom_fits h hnames (by omega : 0 + (membersBytes inputs).length < 2 ^ 64)
  have hcentrals := readCentrals_directory hfits
  rw [entriesFrom_length] at hcentrals
  rw [ZipFormat.readDirectory, hend]
  simp only [Option.bind_eq_bind, Option.bind_some, List.drop_left, List.take_left, hcentrals]
  exact if_neg (by simp only [List.length_append]; omega)

theorem archive_contents (h : ∀ input ∈ inputs, input.Exact)
    (hnames : ∀ input ∈ inputs, (Utf8.encode input.name).length ≤ 0xffff)
    (hsize : (archiveBytes inputs).length < 2 ^ 64) :
    ZipFormat.readArchive (archiveBytes inputs) =
      some (inputs.map fun input => (Utf8.encode input.name, input.content)) := by
  have hdirectory := archive_directory h hnames hsize
  have hmembers : (membersBytes inputs).length < 2 ^ 64 := by
    rw [archiveBytes, List.length_append] at hsize
    omega
  rw [ZipFormat.readArchive, hdirectory]
  exact readMembers h hnames hmembers [] _

end

/-- A sample archive: two entries, the first cut in two chunks. -/
def sampleInputs : List ZipInput :=
  [⟨"a.txt", 3, 0, 33, [.ok [104, 105], .ok [33]]⟩, ⟨"b/c", 0, 0, 33, []⟩]

end HologramLive.ModelHub.ZipWriter
