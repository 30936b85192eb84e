import HologramLive.Repo.Manifest

/-! Cutting a file into chunks, and putting it together again. -/

namespace HologramLive.Repo
open Lib Lib.Result Store

/-- What one call of `read` answers. -/
inductive Answer where
  | bytes (part : Bytes)
  | interrupted
  | failed (message : String)

/-- A reader as the answers it still has to give. At their end it has no more bytes. -/
abbrev Reader := List Answer

namespace Reader

/-- An answer that is longer than the room for it is given in parts. -/
def read (room : Nat) : Reader → Answer × Reader
  | [] => (.bytes [], [])
  | .bytes part :: rest =>
    if part.length ≤ room then (.bytes part, rest)
    else (.bytes (part.take room), .bytes (part.drop room) :: rest)
  | answer :: rest => (answer, rest)

def pending : Reader → Nat
  | [] => 0
  | .bytes part :: rest => part.length + 1 + pending rest
  | _ :: rest => 1 + pending rest

/-- The reader's bytes, in reads of any length and however often interrupted. -/
def Delivers : Reader → Bytes → Prop
  | [], bytes => bytes = []
  | .bytes part :: rest, bytes => part ≠ [] ∧ ∃ later, bytes = part ++ later ∧ Delivers rest later
  | .interrupted :: rest, bytes => Delivers rest bytes
  | .failed _ :: _, _ => False

/-- What a read hands over is no longer pending. -/
theorem pending_read {reader rest : Reader} (h : reader.read room = (.bytes part, rest)) :
    rest.pending + part.length ≤ reader.pending := by
  rcases reader with _ | ⟨⟨whole⟩ | _ | _, after⟩
  · cases h
    exact Nat.le_refl _
  · rw [read] at h
    split at h
    · cases h
      simp only [pending]
      omega
    · have hlong : room < whole.length := by omega
      obtain ⟨hpart, rfl⟩ := Prod.mk.inj h
      obtain rfl := Answer.bytes.inj hpart
      simp only [pending, List.length_drop, List.length_take]
      omega
  · cases h
  · cases h

theorem pending_interrupted {reader rest : Reader} (h : reader.read room = (.interrupted, rest)) :
    rest.pending < reader.pending := by
  rcases reader with _ | ⟨⟨whole⟩ | _ | _, after⟩
  · cases h
  · rw [read] at h
    split at h <;> cases h
  · cases h
    simp only [pending]
    omega
  · cases h

/-- A read of a reader that delivers: an interruption, a first part of the bytes, or
their end. -/
theorem Delivers.read {reader : Reader} (h : reader.Delivers bytes) (hroom : 0 < room) :
    (∃ rest, reader.read room = (.interrupted, rest) ∧ Delivers rest bytes) ∨
    (∃ byte part later rest, reader.read room = (.bytes (byte :: part), rest) ∧
      bytes = byte :: part ++ later ∧ (byte :: part).length ≤ room ∧ Delivers rest later) ∨
    bytes = [] ∧ reader.read room = (.bytes [], []) := by
  rcases reader with _ | ⟨⟨whole⟩ | _ | _, after⟩
  · exact .inr (.inr ⟨h, rfl⟩)
  · obtain ⟨hsome, later, rfl, hlater⟩ := h
    obtain ⟨byte, part, rfl⟩ := List.exists_cons_of_ne_nil hsome
    by_cases hfits : (byte :: part).length ≤ room
    · exact .inr (.inl ⟨byte, part, later, after, if_pos hfits, rfl, hfits, hlater⟩)
    · -- the room ends inside this answer, and what is left of it stays in front
      have hlong : room < (byte :: part).length := by omega
      obtain ⟨less, rfl⟩ : ∃ less, room = less + 1 := ⟨room - 1, by omega⟩
      refine .inr (.inl ⟨byte, part.take less, part.drop less ++ later,
        .bytes (part.drop less) :: after, if_neg hfits, ?_, ?_, ?_⟩)
      · rw [List.cons_append, List.cons_append, ← List.append_assoc, List.take_append_drop]
      · rw [List.length_cons, List.length_take]
        omega
      · refine ⟨?_, later, rfl, hlater⟩
        rw [List.length_cons] at hlong
        exact List.ne_nil_of_length_pos (by rw [List.length_drop]; omega)
  · exact .inl ⟨after, rfl, h⟩
  · cases h

end Reader

/-- The loop that fills a buffer: until it is full or the input ends. -/
def readFull (capacity : Nat) (filled : Bytes) (reader : Reader) : Except String (Bytes × Reader) :=
  if filled.length < capacity then
    match _hread : reader.read (capacity - filled.length) with
    | (.bytes [], rest) => .ok (filled, rest)
    | (.bytes (byte :: part), rest) => readFull capacity (filled ++ byte :: part) rest
    | (.interrupted, rest) => readFull capacity filled rest
    | (.failed message, _) => .error message
  else .ok (filled, reader)
  termination_by reader.pending
  decreasing_by
    · have := Reader.pending_read _hread
      rw [List.length_cons] at this
      omega
    · exact Reader.pending_interrupted _hread

theorem pending_readFull (h : readFull capacity filled reader = .ok (bytes, rest)) :
    rest.pending + bytes.length ≤ reader.pending + filled.length := by
  fun_induction readFull capacity filled reader with
  | case1 filled reader hroom after hread =>
    cases h
    have := Reader.pending_read hread
    omega
  | case2 filled reader hroom byte part after hread ih =>
    have := Reader.pending_read hread
    have := ih h
    rw [List.length_append] at this
    omega
  | case3 filled reader hroom after hread ih =>
    have := Reader.pending_interrupted hread
    have := ih h
    omega
  | case4 => cases h
  | case5 =>
    cases h
    exact Nat.le_refl _

/-- A buffer takes as much of the input as it has room for. -/
theorem readFull_delivers {reader : Reader} (h : reader.Delivers bytes)
    (hfits : filled.length ≤ capacity) :
    ∃ rest, readFull capacity filled reader =
      .ok (filled ++ bytes.take (capacity - filled.length), rest) ∧
      Reader.Delivers rest (bytes.drop (capacity - filled.length)) := by
  fun_induction readFull capacity filled reader generalizing bytes with
  | case1 filled reader hroom after hread =>
    have hnext := h.read (Nat.sub_pos_of_lt hroom)
    simp only [hread] at hnext
    obtain ⟨rest, ⟨⟩, _⟩ | ⟨_, _, _, _, ⟨⟩, _⟩ | ⟨rfl, ⟨⟩⟩ := hnext
    exact ⟨[], by simp, by simp [Reader.Delivers]⟩
  | case2 filled reader hroom byte part after hread ih =>
    have hnext := h.read (Nat.sub_pos_of_lt hroom)
    simp only [hread] at hnext
    obtain ⟨rest, ⟨⟩, _⟩ | ⟨_, _, later, _, ⟨⟩, rfl, hpart, hlater⟩ | ⟨_, ⟨⟩⟩ := hnext
    have hlength : (filled ++ byte :: part).length = filled.length + (byte :: part).length :=
      List.length_append
    obtain ⟨rest, hfull, hrest⟩ := ih hlater (by omega)
    have hleft : capacity - filled.length =
        (byte :: part).length + (capacity - (filled ++ byte :: part).length) := by omega
    refine ⟨rest, ?_, ?_⟩
    · rw [hfull, hleft, List.take_length_add_append, List.append_assoc]
    · rw [hleft, List.drop_length_add_append]
      exact hrest
  | case3 filled reader hroom after hread ih =>
    have hnext := h.read (Nat.sub_pos_of_lt hroom)
    simp only [hread] at hnext
    obtain ⟨rest, ⟨⟩, hrest⟩ | ⟨_, _, _, _, ⟨⟩, _⟩ | ⟨_, ⟨⟩⟩ := hnext
    exact ih hrest hfits
  | case4 filled reader hroom message after hread =>
    have hnext := h.read (Nat.sub_pos_of_lt hroom)
    simp only [hread] at hnext
    obtain ⟨rest, ⟨⟩, _⟩ | ⟨_, _, _, _, ⟨⟩, _⟩ | ⟨_, ⟨⟩⟩ := hnext
  | case5 filled reader hfull =>
    have hnone : capacity - filled.length = 0 := by omega
    exact ⟨reader, by simp [hnone], by simpa [hnone] using h⟩

/-- A filled buffer is the first part of the input, short of its room only at the end. -/
theorem readFull_splits {reader : Reader} (h : reader.Delivers bytes)
    (hread : readFull capacity [] reader = .ok (filled, rest)) :
    ∃ later, bytes = filled ++ later ∧ filled.length ≤ capacity ∧
      (later ≠ [] → filled.length = capacity) ∧ Reader.Delivers rest later := by
  have hempty : ([] : Bytes).length ≤ capacity := Nat.zero_le capacity
  obtain ⟨_, hfull, hrest⟩ := readFull_delivers h hempty
  rw [hread] at hfull
  cases hfull
  refine ⟨bytes.drop capacity, (List.take_append_drop capacity bytes).symm, ?_, ?_, hrest⟩
  · exact List.length_take_le capacity bytes
  · intro hlater
    have := List.length_pos_of_ne_nil hlater
    rw [List.length_drop] at this
    exact List.length_take_of_le (by omega)

theorem readFull_never_fails {reader : Reader} (h : reader.Delivers bytes) :
    readFull capacity [] reader ≠ .error message := by
  have hempty : ([] : Bytes).length ≤ capacity := Nat.zero_le capacity
  obtain ⟨_, hfull, _⟩ := readFull_delivers h hempty
  rw [hfull]
  exact nofun

/-- How a call ends without a value: with an error, or because it panics. -/
inductive Halt where
  | failed (error : LiveError)
  | overflow
  | capacity

/-- `u64::try_from` of a length, or the largest value. -/
def byteLen (bytes : Bytes) : UInt64 :=
  if bytes.length < 2 ^ 64 then UInt64.ofNat bytes.length else UInt64.ofNat (2 ^ 64 - 1)

theorem toNat_byteLen (h : bytes.length < 2 ^ 64) : (byteLen bytes).toNat = bytes.length := by
  rw [byteLen, if_pos h, UInt64.toNat_ofNat', Nat.mod_eq_of_lt h]

def chunkAt (blake3 : Blake3) (offset : UInt64) (bytes : Bytes) : ManifestChunk :=
  ⟨kappaOf blake3 bytes, offset, byteLen bytes⟩

section Describe
variable (blake3 : Blake3) (sha256 : Sha256) (debug : String → String)

/-- The loop over the buffers, with the bytes hashed so far in `whole`. -/
def describeChunks (path : String) (capacity : Nat) (offset : UInt64) (whole : Bytes)
    (chunks : List ManifestChunk) (reader : Reader) :
    Except Halt (UInt64 × Bytes × List ManifestChunk) :=
  match _hread : readFull capacity [] reader with
  | .error error => .error (.failed (.io s!"read {debug path}: {error}"))
  | .ok (bytes, rest) =>
    if _hend : bytes = [] then .ok (offset, whole, chunks)
    else
      match checkedAdd offset (byteLen bytes) with
      | none => .error .overflow
      | some next =>
        if bytes.length < capacity then
          .ok (next, whole ++ bytes, chunks ++ [chunkAt blake3 offset bytes])
        else
          describeChunks path capacity next (whole ++ bytes)
            (chunks ++ [chunkAt blake3 offset bytes]) rest
  termination_by reader.pending
  decreasing_by
    have := pending_readFull _hread
    have := List.length_pos_of_ne_nil _hend
    rw [List.length_nil] at *
    omega

/-- An empty input has no chunks. -/
def describeFile (path : String) (reader : Reader) (chunkBytes : UInt64) :
    Except Halt ManifestFile :=
  match validateFilePath debug path with
  | .error error => .error (.failed error)
  | .ok () =>
    if chunkBytes = 0 ∨ maxChunkBytes < chunkBytes then
      .error (.failed (.protocol
        s!"chunk size {chunkBytes} must be between 1 and {maxChunkBytes} bytes"))
    else do
      let (offset, whole, chunks) ← describeChunks blake3 debug path chunkBytes.toNat 0 [] [] reader
      .ok
        { path
          size := offset
          mediaType := none
          sha256 := some (sha256Prefix ++ hex (sha256 whole).toList)
          blake3 := kappaOf blake3 whole
          chunks }

end Describe

/-- Chunks that cut these bytes up from this offset on: all of one size, but that the
last may be shorter. -/
def Cuts (blake3 : Blake3) (limit : Nat) : Nat → List ManifestChunk → Bytes → Prop
  | _, [], bytes => bytes = []
  | offset, chunk :: chunks, bytes => ∃ part later, bytes = part ++ later ∧ part ≠ [] ∧
      part.length ≤ limit ∧ (later ≠ [] → part.length = limit) ∧
      chunk.kappa = kappaOf blake3 part ∧ chunk.offset.toNat = offset ∧
      chunk.size.toNat = part.length ∧ Cuts blake3 limit (offset + part.length) chunks later

section Described
variable {blake3 : Blake3} {sha256 : Sha256} {debug : String → String}

theorem describeChunks_delivers {reader : Reader} (path : String) (offset : UInt64) (whole : Bytes)
    (chunks : List ManifestChunk) (hcapacity : 0 < capacity) (h : reader.Delivers bytes)
    (hfits : offset.toNat + bytes.length < 2 ^ 64) :
    ∃ (total : UInt64) (cut : List ManifestChunk),
      describeChunks blake3 debug path capacity offset whole chunks reader =
        .ok (total, whole ++ bytes, chunks ++ cut) ∧
      total.toNat = offset.toNat + bytes.length ∧ Cuts blake3 capacity offset.toNat cut bytes := by
  fun_induction describeChunks blake3 debug path capacity offset whole chunks reader
    generalizing bytes with
  | case1 offset whole chunks reader message hread => exact absurd hread (readFull_never_fails h)
  | case2 offset whole chunks reader rest hread =>
    obtain ⟨later, hlater, _, hfull, _⟩ := readFull_splits h hread
    obtain rfl : bytes = [] := by
      by_contra hsome
      rw [List.nil_append] at hlater
      exact absurd (hfull (hlater ▸ hsome)) (Nat.ne_of_lt hcapacity)
    exact ⟨offset, [], by simp, rfl, rfl⟩
  | case3 offset whole chunks reader filled rest hread hsome hover =>
    obtain ⟨later, rfl, _⟩ := readFull_splits h hread
    rw [List.length_append] at hfits
    have hsize : (byteLen filled).toNat = filled.length := toNat_byteLen (by omega)
    rw [checkedAdd, if_pos (by omega)] at hover
    cases hover
  | case4 offset whole chunks reader filled rest hread hsome next hnext hshort =>
    obtain ⟨later, rfl, hroom, hfull, _⟩ := readFull_splits h hread
    obtain rfl : later = [] := by
      by_contra hlater
      exact absurd (hfull hlater) (Nat.ne_of_lt hshort)
    rw [List.append_nil] at hfits ⊢
    have hsize : (byteLen filled).toNat = filled.length := toNat_byteLen (by omega)
    have htotal := checkedAdd_eq_some.mp hnext
    refine ⟨next, [chunkAt blake3 offset filled], rfl, by omega, filled, [],
      (List.append_nil _).symm, ?_⟩
    exact ⟨hsome, hroom, fun h => absurd rfl h, rfl, rfl, hsize, rfl⟩
  | case5 offset whole chunks reader filled rest hread hsome next hnext hlong ih =>
    obtain ⟨later, rfl, hroom, hfull, hrest⟩ := readFull_splits h hread
    rw [List.length_append] at hfits
    have hsize : (byteLen filled).toNat = filled.length := toNat_byteLen (by omega)
    have hoffset := checkedAdd_eq_some.mp hnext
    rw [hsize] at hoffset
    obtain ⟨total, others, hrun, htotal, hcut⟩ := ih hrest (by omega)
    refine ⟨total, chunkAt blake3 offset filled :: others, ?_, ?_, filled, later, rfl, hsome,
      hroom, hfull, ?_⟩
    · rw [hrun, List.append_assoc, List.append_assoc, List.singleton_append]
    · rw [List.length_append]
      omega
    · exact ⟨rfl, rfl, hsize, hoffset ▸ hcut⟩

/-- The entry a delivered file gets: no reader that delivers it makes a difference. -/
theorem describeFile_delivers {reader : Reader} (hpath : validateFilePath debug path = .ok ())
    (hsome : chunkBytes ≠ 0) (hmax : chunkBytes ≤ maxChunkBytes) (h : reader.Delivers bytes)
    (hfits : bytes.length < 2 ^ 64) :
    ∃ (size : UInt64) (chunks : List ManifestChunk),
      describeFile blake3 sha256 debug path reader chunkBytes =
        .ok ⟨path, size, none, some (sha256Prefix ++ hex (sha256 bytes).toList),
          kappaOf blake3 bytes, chunks⟩ ∧
      size.toNat = bytes.length ∧ Cuts blake3 chunkBytes.toNat 0 chunks bytes := by
  have hcapacity : 0 < chunkBytes.toNat :=
    Nat.pos_of_ne_zero fun hzero => hsome (UInt64.toNat_inj.mp hzero)
  have hzero : (0 : UInt64).toNat = 0 := rfl
  obtain ⟨size, chunks, hrun, hsize, hcuts⟩ :=
    @describeChunks_delivers blake3 debug _ _ reader path 0 [] [] hcapacity h (by omega)
  rw [hzero, Nat.zero_add] at hsize
  refine ⟨size, chunks, ?_, hsize, hcuts⟩
  rw [describeFile, hpath]
  dsimp only
  rw [if_neg (not_or.mpr ⟨hsome, UInt64.not_lt.mpr hmax⟩), hrun, ok_bind]
  rfl

end Described

/-- The bytes of a file that a chunk stands for. -/
def piece (bytes : Bytes) (chunk : ManifestChunk) : Bytes :=
  (bytes.drop chunk.offset.toNat).take chunk.size.toNat

theorem Cuts.pieces (h : Cuts blake3 limit offset chunks bytes) (hbefore : before.length = offset) :
    (chunks.map (piece (before ++ bytes))).flatten = bytes ∧
      ∀ chunk ∈ chunks, chunk.kappa = kappaOf blake3 (piece (before ++ bytes) chunk) ∧
        chunk.size.toNat = (piece (before ++ bytes) chunk).length := by
  induction chunks generalizing offset bytes before with
  | nil =>
    obtain rfl : bytes = [] := h
    exact ⟨rfl, nofun⟩
  | cons chunk chunks ih =>
    obtain ⟨part, later, rfl, _, _, _, hkappa, hoffset, hsize, hrest⟩ := h
    have hpiece : piece (before ++ (part ++ later)) chunk = part := by
      rw [piece, hoffset, hsize, List.drop_append_of_le_length (Nat.le_of_eq hbefore.symm),
        List.drop_of_length_le (Nat.le_of_eq hbefore), List.nil_append, List.take_left']
      rfl
    have hpassed : (before ++ part).length = offset + part.length := by
      rw [List.length_append, hbefore]
    obtain ⟨hflat, heach⟩ := ih hrest hpassed
    rw [List.append_assoc] at hflat heach
    refine ⟨by rw [List.map_cons, List.flatten_cons, hpiece, hflat], ?_⟩
    rw [List.forall_mem_cons, hpiece]
    exact ⟨⟨hkappa, hsize⟩, heach⟩

end HologramLive.Repo
