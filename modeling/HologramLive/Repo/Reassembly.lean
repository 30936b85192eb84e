import HologramLive.Repo.Chunks

namespace HologramLive.Repo
open Lib Lib.Result Store

/-- Where chunks come from. What is answered may depend on all that was asked before. -/
abbrev Fetch (σ : Type) := σ → String → Except LiveError (Option Bytes) × σ

/-- Where bytes go. A write that fails has taken the first so many bytes. -/
abbrev Sink (τ : Type) := τ → Bytes → Option (Nat × String) × τ

/-- What reassembling a file does, in order. -/
inductive Event where
  | checked (chunk : ManifestChunk) (bytes : Bytes)
  | wrote (bytes : Bytes)

/-- The bytes the sink was given. -/
def written (log : List Event) : Bytes :=
  log.flatMap fun
    | .checked _ _ => []
    | .wrote bytes => bytes

/-- The chunks that passed their checks, with their bytes. -/
def vetted (log : List Event) : List (ManifestChunk × Bytes) :=
  log.flatMap fun
    | .checked chunk bytes => [(chunk, bytes)]
    | .wrote _ => []

section Reassemble
variable {σ τ : Type} (blake3 : Blake3) (sha256 : Sha256) (debug : String → String)

/-- The checks a chunk's bytes must pass before any of them is written. -/
def checkChunk (path : String) (chunk : ManifestChunk) (bytes : Bytes) : Except LiveError Unit :=
  if byteLen bytes ≠ chunk.size then
    .error (.invalidHolo
      s!"chunk {chunk.kappa} of {debug path} is {bytes.length} bytes but the manifest declares {chunk.size}")
  else if kappaOf blake3 bytes ≠ chunk.kappa then
    .error (.invalidHolo
      s!"chunk at offset {chunk.offset} of {debug path} does not match its kappa {chunk.kappa}")
  else .ok ()

/-- The loop over the chunks. It leaves the bytes both hashers have seen and the count
of bytes written. -/
def copyChunks (fetch : Fetch σ) (sink : Sink τ) (path : String) (whole : Bytes) (count : UInt64)
    (source : σ) (target : τ) : List ManifestChunk → List Event × Except Halt (Bytes × UInt64)
  | [] => ([], .ok (whole, count))
  | chunk :: chunks =>
    let (answer, source) := fetch source chunk.kappa
    match answer with
    | .error error => ([], .error (.failed error))
    | .ok none =>
      ([], .error (.failed (.notFound s!"chunk {chunk.kappa} of {debug path} is not available")))
    | .ok (some bytes) =>
      match checkChunk blake3 debug path chunk bytes with
      | .error error => ([], .error (.failed error))
      | .ok () =>
        match sink target bytes with
        | (some (taken, error), _) =>
          ([.checked chunk bytes, .wrote (bytes.take taken)],
            .error (.failed (.io s!"write {debug path}: {error}")))
        | (none, target) =>
          match checkedAdd count chunk.size with
          | none => ([.checked chunk bytes, .wrote bytes], .error .overflow)
          | some count =>
            let (log, result) :=
              copyChunks fetch sink path (whole ++ bytes) count source target chunks
            (.checked chunk bytes :: .wrote bytes :: log, result)

/-- The checks of the whole file at the end. -/
def checkWhole (file : ManifestFile) (whole : Bytes) : Except LiveError Unit :=
  if kappaOf blake3 whole ≠ file.blake3 then
    .error (.invalidHolo
      s!"reassembled {debug file.path} is {kappaOf blake3 whole} but the manifest declares {file.blake3}")
  else
    match file.sha256 with
    | none => .ok ()
    | some expected =>
      let actual := sha256Prefix ++ hex (sha256 whole).toList
      if actual ≠ expected then
        .error (.invalidHolo
          s!"reassembled {debug file.path} is {actual} but the manifest declares {expected}")
      else .ok ()

def reassembleFileTo (file : ManifestFile) (fetch : Fetch σ) (sink : Sink τ) (source : σ)
    (target : τ) : List Event × Except Halt UInt64 :=
  match validateFile debug file with
  | .error error => ([], .error (.failed error))
  | .ok () =>
    let (log, result) := copyChunks blake3 debug fetch sink file.path [] 0 source target file.chunks
    (log, do
      let (whole, count) ← result
      (checkWhole blake3 sha256 debug file whole).mapError .failed
      .ok count)

/-- A vector grows with what is written to it. -/
def vecSink : Sink Unit := fun _ _ => (none, ())

/-- The most bytes one allocation can hold. -/
def isizeMax : Nat := 2 ^ 63 - 1

/-- The vector is reserved at the declared size, before the entry is looked at. -/
def reassembleFile (file : ManifestFile) (fetch : Fetch σ) (source : σ) : Except Halt Bytes :=
  if isizeMax < file.size.toNat then .error .capacity
  else
    let (log, result) := reassembleFileTo blake3 sha256 debug file fetch vecSink source ()
    result.map fun _ => written log

end Reassemble

/-- Chunks that lie side by side from this offset on and are of legal size. -/
def Contiguous : Nat → List ManifestChunk → Prop
  | _, [] => True
  | offset, chunk :: chunks => DigestOf blake3Prefix chunk.kappa ∧ chunk.size ≠ 0 ∧
      chunk.size ≤ maxChunkBytes ∧ chunk.offset.toNat = offset ∧
      Contiguous (offset + chunk.size.toNat) chunks

def totalSize (chunks : List ManifestChunk) : Nat := (chunks.map fun chunk => chunk.size.toNat).sum

theorem totalSize_cons : totalSize (chunk :: chunks) = chunk.size.toNat + totalSize chunks := by
  simp [totalSize]

theorem validateChunks_ok : validateChunks debug path expected chunks = .ok total ↔
    Contiguous expected.toNat chunks ∧ expected.toNat + totalSize chunks = total.toNat := by
  induction chunks generalizing expected with
  | nil => simp [validateChunks, Contiguous, totalSize, UInt64.toNat_inj]
  | cons chunk chunks ih =>
    rw [validateChunks, check_ok, guard_ok, guard_ok, validateKappa, validateDigest_ok, totalSize_cons,
      Contiguous, not_or, UInt64.not_lt, Decidable.not_not, ← UInt64.toNat_inj (a := chunk.offset)]
    cases hnext : checkedAdd expected chunk.size with
    | none =>
      have hbound := total.toNat_lt
      have hover : ¬expected.toNat + chunk.size.toNat < 2 ^ 64 := by
        intro hfits
        rw [checkedAdd, if_pos hfits] at hnext
        cases hnext
      constructor
      · rintro ⟨_, _, _, h⟩
        cases h
      · rintro ⟨_, htotal⟩
        omega
    | some next =>
      have hsum := checkedAdd_eq_some.mp hnext
      dsimp only
      rw [ih, ← hsum, Nat.add_assoc]
      simp only [and_assoc]

theorem validateFile_ok {file : ManifestFile} : validateFile debug file = .ok () ↔
    validateFilePath debug file.path = .ok () ∧
      validateMediaType debug file.path file.mediaType = .ok () ∧
      validateSha256 debug file.sha256 = .ok () ∧ DigestOf blake3Prefix file.blake3 ∧
      Contiguous 0 file.chunks ∧ totalSize file.chunks = file.size.toNat := by
  have hzero : (0 : UInt64).toNat = 0 := rfl
  rw [validateFile, check_ok, check_ok, check_ok, check_ok, bind_ok, validateKappa,
    validateDigest_ok]
  simp only [validateChunks_ok, guard_ok, Decidable.not_not, hzero, Nat.zero_add]
  constructor
  · rintro ⟨hpath, hmedia, hsha, hblake, covered, ⟨hchunks, hsum⟩, rfl, _⟩
    exact ⟨hpath, hmedia, hsha, hblake, hchunks, hsum⟩
  · rintro ⟨hpath, hmedia, hsha, hblake, hchunks, hsum⟩
    exact ⟨hpath, hmedia, hsha, hblake, file.size, ⟨hchunks, hsum⟩, rfl, trivial⟩

theorem Cuts.contiguous (h : Cuts blake3 limit offset chunks bytes)
    (hlimit : limit ≤ maxChunkBytes.toNat) :
    Contiguous offset chunks ∧ totalSize chunks = bytes.length := by
  induction chunks generalizing offset bytes with
  | nil =>
    obtain rfl : bytes = [] := h
    exact ⟨trivial, rfl⟩
  | cons chunk chunks ih =>
    obtain ⟨part, later, rfl, hsome, hroom, _, hkappa, hoffset, hsize, hrest⟩ := h
    obtain ⟨hchunks, hsum⟩ := ih hrest
    refine ⟨⟨?_, ?_, ?_, hoffset, hsize ▸ hchunks⟩, ?_⟩
    · rw [hkappa]
      exact digestOf_hex blake3Prefix (blake3 part)
    · intro hzero
      rw [hzero] at hsize
      exact hsome (List.length_eq_zero_iff.mp hsize.symm)
    · rw [UInt64.le_iff_toNat_le]
      omega
    · rw [totalSize_cons, hsize, hsum, List.length_append]

section Copy
variable {σ τ : Type} {blake3 : Blake3} {debug : String → String} {fetch : Fetch σ} {sink : Sink τ}

theorem checkChunk_ok : checkChunk blake3 debug path chunk bytes = .ok () ↔
    byteLen bytes = chunk.size ∧ kappaOf blake3 bytes = chunk.kappa := by
  rw [checkChunk, guard_ok, guard_ok, Decidable.not_not, Decidable.not_not]
  simp

/-- A log that checks the chunks in turn and writes no more of each than it has just
checked. -/
inductive Orderly (good : ManifestChunk → Bytes → Prop) : List ManifestChunk → List Event → Prop
  | stop (chunks : List ManifestChunk) : Orderly good chunks []
  | broken (chunks : List ManifestChunk) (taken : Nat) (hgood : good chunk bytes) :
      Orderly good (chunk :: chunks) [.checked chunk bytes, .wrote (bytes.take taken)]
  | copied (hgood : good chunk bytes) (hrest : Orderly good chunks log) :
      Orderly good (chunk :: chunks) (.checked chunk bytes :: .wrote bytes :: log)

/-- The chunk's own size and address. -/
def Matches (blake3 : Blake3) (chunk : ManifestChunk) (bytes : Bytes) : Prop :=
  byteLen bytes = chunk.size ∧ kappaOf blake3 bytes = chunk.kappa

/-- What one turn of the loop does. -/
theorem copyChunks_cons (fetch : Fetch σ) (sink : Sink τ) (path : String) (whole : Bytes)
    (source : σ) (target : τ) (chunks : List ManifestChunk) (hfits : count.toNat + chunk.size.toNat < 2 ^ 64) :
    (∃ error, copyChunks blake3 debug fetch sink path whole count source target (chunk :: chunks) =
      ([], .error (.failed error))) ∨
    (∃ bytes taken error, Matches blake3 chunk bytes ∧
      copyChunks blake3 debug fetch sink path whole count source target (chunk :: chunks) =
        ([.checked chunk bytes, .wrote (bytes.take taken)], .error (.failed error))) ∨
    (∃ bytes next source' target', Matches blake3 chunk bytes ∧
      next.toNat = count.toNat + chunk.size.toNat ∧
      copyChunks blake3 debug fetch sink path whole count source target (chunk :: chunks) =
        let rest := copyChunks blake3 debug fetch sink path (whole ++ bytes) next source' target' chunks
        (.checked chunk bytes :: .wrote bytes :: rest.1, rest.2)) := by
  rw [copyChunks]
  obtain ⟨answer, after⟩ := fetch source chunk.kappa
  rcases answer with error | _ | bytes
  · exact .inl ⟨error, rfl⟩
  · exact .inl ⟨_, rfl⟩
  · dsimp only
    cases hcheck : checkChunk blake3 debug path chunk bytes with
    | error error => exact .inl ⟨error, rfl⟩
    | ok _ =>
      have hgood := checkChunk_ok.mp hcheck
      dsimp only
      obtain ⟨_ | ⟨taken, error⟩, target'⟩ := sink target bytes
      · have hadd : checkedAdd count chunk.size = some (count + chunk.size) := if_pos hfits
        refine .inr (.inr ⟨bytes, count + chunk.size, after, target', hgood, ?_, ?_⟩)
        · exact (checkedAdd_eq_some.mp hadd).symm
        · dsimp only
          rw [hadd]
      · exact .inr (.inl ⟨bytes, taken, _, hgood, rfl⟩)

theorem written_copied :
    written (.checked chunk bytes :: .wrote bytes' :: log) = bytes' ++ written log := rfl

/-- Bytes that match a chunk of legal size are as many as it says. -/
theorem Matches.length (h : Matches blake3 chunk bytes) (hsize : chunk.size ≤ maxChunkBytes) :
    bytes.length = chunk.size.toNat := by
  have hmax : maxChunkBytes.toNat = 268435456 := rfl
  rw [UInt64.le_iff_toNat_le] at hsize
  have hlength := congrArg UInt64.toNat h.1
  by_cases hfits : bytes.length < 2 ^ 64
  · rw [toNat_byteLen hfits] at hlength
    exact hlength
  · -- a length past 64 bits is reported as the largest value, which is no legal size
    rw [byteLen, if_neg hfits] at hlength
    have hlast : (UInt64.ofNat (2 ^ 64 - 1)).toNat = 2 ^ 64 - 1 := rfl
    omega

/-- Whatever is fetched and wherever it goes: the count never overflows, the log is
orderly, and at the loop's end everything hashed and counted has been written. -/
theorem copyChunks_orderly (fetch : Fetch σ) (sink : Sink τ) (path : String) (whole : Bytes)
    (count : UInt64) (source : σ) (target : τ) (hchunks : Contiguous offset chunks) (hfits : count.toNat + totalSize chunks < 2 ^ 64) :
    let run := copyChunks blake3 debug fetch sink path whole count source target chunks
    Orderly (Matches blake3) chunks run.1 ∧ run.2 ≠ .error .overflow ∧
      ∀ all total, run.2 = .ok (all, total) → all = whole ++ written run.1 ∧
        total.toNat = count.toNat + totalSize chunks ∧
        (written run.1).length = totalSize chunks := by
  induction chunks generalizing offset whole count source target with
  | nil =>
    refine ⟨.stop [], nofun, ?_⟩
    rintro all total ⟨⟩
    exact ⟨(List.append_nil _).symm, rfl, rfl⟩
  | cons chunk chunks ih =>
    obtain ⟨_, _, hsize, _, hrest⟩ := hchunks
    rw [totalSize_cons] at hfits ⊢
    have hfirst : count.toNat + chunk.size.toNat < 2 ^ 64 := by omega
    rcases copyChunks_cons fetch sink path whole source target chunks hfirst with
      ⟨error, hrun⟩ | ⟨bytes, taken, error, hgood, hrun⟩ |
      ⟨bytes, next, source', target', hgood, hnext, hrun⟩
    all_goals rw [hrun]
    · exact ⟨.stop _, nofun, nofun⟩
    · exact ⟨.broken chunks taken hgood, nofun, nofun⟩
    · obtain ⟨horderly, hover, hall⟩ := ih (whole ++ bytes) next source' target' hrest (by omega)
      refine ⟨.copied hgood horderly, hover, ?_⟩
      intro all total hresult
      obtain ⟨rfl, htotal, hlength⟩ := hall all total hresult
      rw [written_copied, List.length_append, hgood.length hsize, ← List.append_assoc]
      exact ⟨rfl, by omega, by omega⟩

/-- At every moment what has been written starts the bytes of the chunks checked so
far, which are the first of the file's. -/
theorem Orderly.checked_first {good : ManifestChunk → Bytes → Prop} (h : Orderly good chunks log)
    (hpast : past <+: log) :
    written past <+: ((vetted past).map Prod.snd).flatten ∧
      (vetted past).map Prod.fst <+: chunks ∧ ∀ pair ∈ vetted past, good pair.1 pair.2 := by
  induction h generalizing past with
  | stop chunks =>
    obtain rfl := List.prefix_nil.mp hpast
    exact ⟨List.prefix_rfl, List.nil_prefix, nofun⟩
  | @broken chunk bytes chunks taken hgood =>
    rcases List.prefix_cons_iff.mp hpast with rfl | ⟨rest, rfl, hrest⟩
    · exact ⟨List.prefix_rfl, List.nil_prefix, nofun⟩
    · have honly : ∀ pair ∈ [(chunk, bytes)], good pair.1 pair.2 := by simpa using hgood
      have hfirst : [chunk] <+: chunk :: chunks := List.prefix_append ..
      rcases List.prefix_cons_iff.mp hrest with rfl | ⟨none, rfl, hnone⟩
      · exact ⟨List.nil_prefix, hfirst, honly⟩
      · obtain rfl := List.prefix_nil.mp hnone
        refine ⟨?_, hfirst, honly⟩
        simpa [written, vetted] using List.take_prefix taken bytes
  | @copied chunk bytes chunks log hgood hrest ih =>
    rcases List.prefix_cons_iff.mp hpast with rfl | ⟨rest, rfl, hrest⟩
    · exact ⟨List.prefix_rfl, List.nil_prefix, nofun⟩
    · rcases List.prefix_cons_iff.mp hrest with rfl | ⟨later, rfl, hlater⟩
      · refine ⟨List.nil_prefix, List.prefix_append [chunk] chunks, ?_⟩
        simpa [vetted] using hgood
      · obtain ⟨hwritten, hchunks, hall⟩ := ih hlater
        refine ⟨(List.prefix_append_right_inj bytes).mpr hwritten,
          List.cons_prefix_cons.mpr ⟨rfl, hchunks⟩, ?_⟩
        exact List.forall_mem_cons.mpr ⟨hgood, hall⟩

/-- A fetch that answers each chunk asked for in turn with its part of these bytes. -/
def Serves (fetch : Fetch σ) (bytes : Bytes) : σ → List ManifestChunk → Prop
  | _, [] => True
  | source, chunk :: chunks => (fetch source chunk.kappa).1 = .ok (some (piece bytes chunk)) ∧
      Serves fetch bytes (fetch source chunk.kappa).2 chunks

theorem copyChunks_serves (path : String) (whole : Bytes) (count : UInt64)
    (h : Serves fetch bytes source chunks)
    (heach : ∀ chunk ∈ chunks, chunk.kappa = kappaOf blake3 (piece bytes chunk) ∧
      chunk.size.toNat = (piece bytes chunk).length)
    (hfits : count.toNat + totalSize chunks < 2 ^ 64) :
    ∃ log total, copyChunks blake3 debug fetch vecSink path whole count source () chunks =
        (log, .ok (whole ++ written log, total)) ∧
      written log = (chunks.map (piece bytes)).flatten := by
  induction chunks generalizing whole count source with
  | nil => exact ⟨[], count, by rw [copyChunks, written, List.flatMap_nil, List.append_nil], rfl⟩
  | cons chunk chunks ih =>
    obtain ⟨hanswer, hrest⟩ := h
    obtain ⟨⟨hkappa, hsize⟩, hothers⟩ := List.forall_mem_cons.mp heach
    rw [totalSize_cons] at hfits
    have hadd : checkedAdd count chunk.size = some (count + chunk.size) := if_pos (by omega)
    have hnext := checkedAdd_eq_some.mp hadd
    have hlength : byteLen (piece bytes chunk) = chunk.size := by
      rw [← UInt64.toNat_inj, toNat_byteLen (by omega), hsize]
    have hcheck : checkChunk blake3 debug path chunk (piece bytes chunk) = .ok () :=
      checkChunk_ok.mpr ⟨hlength, hkappa.symm⟩
    obtain ⟨log, total, hrun, hlog⟩ :=
      ih (whole ++ piece bytes chunk) (count + chunk.size) hrest hothers (by omega)
    refine ⟨.checked chunk (piece bytes chunk) :: .wrote (piece bytes chunk) :: log, total, ?_, ?_⟩
    · rw [copyChunks]
      dsimp only [vecSink] at hrun ⊢
      rw [hanswer]
      dsimp only
      rw [hcheck]
      dsimp only
      rw [hadd]
      dsimp only
      rw [hrun, written_copied, List.append_assoc]
    · rw [written_copied, hlog, List.map_cons, List.flatten_cons]

end Copy

section Whole
variable {σ τ : Type} {blake3 : Blake3} {sha256 : Sha256} {debug : String → String}
  {file : ManifestFile}

/-- What the file as a whole is declared to be. -/
def Declared (blake3 : Blake3) (sha256 : Sha256) (file : ManifestFile) (bytes : Bytes) : Prop :=
  bytes.length = file.size.toNat ∧ kappaOf blake3 bytes = file.blake3 ∧
    ∀ expected, file.sha256 = some expected →
      sha256Prefix ++ hex (sha256 bytes).toList = expected

theorem checkWhole_ok : checkWhole blake3 sha256 debug file whole = .ok () ↔
    kappaOf blake3 whole = file.blake3 ∧ ∀ expected, file.sha256 = some expected →
      sha256Prefix ++ hex (sha256 whole).toList = expected := by
  rw [checkWhole, guard_ok, Decidable.not_not]
  cases file.sha256 with
  | none => simp
  | some expected => simp

/-- Every run of `reassembleFileTo`, whatever is fetched and wherever it goes. -/
theorem reassembleFileTo_checked (blake3 : Blake3) (sha256 : Sha256) (debug : String → String)
    (file : ManifestFile) (fetch : Fetch σ) (sink : Sink τ) (source : σ) (target : τ) :
    let run := reassembleFileTo blake3 sha256 debug file fetch sink source target
    (∀ past, past <+: run.1 → written past <+: ((vetted past).map Prod.snd).flatten ∧
      (vetted past).map Prod.fst <+: file.chunks ∧
      ∀ pair ∈ vetted past, Matches blake3 pair.1 pair.2) ∧
    run.2 ≠ .error .overflow ∧
    ∀ count, run.2 = .ok count → count = file.size ∧
      Declared blake3 sha256 file (written run.1) := by
  rw [reassembleFileTo]
  cases hvalid : validateFile debug file with
  | error error =>
    refine ⟨?_, nofun, nofun⟩
    intro past hpast
    obtain rfl := List.prefix_nil.mp hpast
    exact ⟨List.prefix_rfl, List.nil_prefix, nofun⟩
  | ok _ =>
    obtain ⟨_, _, _, _, hchunks, hsum⟩ := validateFile_ok.mp hvalid
    have hbound := file.size.toNat_lt
    have hzero : (0 : UInt64).toNat = 0 := rfl
    obtain ⟨horderly, hover, hall⟩ := @copyChunks_orderly _ _ blake3 debug _ _ fetch sink file.path
      [] 0 source target hchunks (by omega)
    dsimp only
    refine ⟨fun past hpast => horderly.checked_first hpast, ?_, ?_⟩
    · cases hresult : (copyChunks blake3 debug fetch sink file.path [] 0 source target
        file.chunks).2 with
      | error halt =>
        rw [error_bind]
        rw [hresult] at hover
        intro hsame
        obtain rfl := Except.error.inj hsame
        exact hover rfl
      | ok pair =>
        rw [ok_bind]
        cases checkWhole blake3 sha256 debug file pair.1 <;> exact nofun
    · intro count hcount
      obtain ⟨⟨whole, total⟩, hcopied, hcount⟩ := bind_ok.mp hcount
      obtain ⟨hwhole, hcount⟩ := check_ok.mp hcount
      obtain rfl : total = count := Except.ok.inj hcount
      obtain ⟨rfl, htotal, hlength⟩ := hall whole total hcopied
      rw [List.nil_append, mapError_ok] at hwhole
      refine ⟨UInt64.toNat_inj.mp (by omega), hlength.trans hsum, checkWhole_ok.mp hwhole⟩

theorem reassembleFile_declared {fetch : Fetch σ} {source : σ}
    (h : reassembleFile blake3 sha256 debug file fetch source = .ok bytes) :
    Declared blake3 sha256 file bytes := by
  rw [reassembleFile, guard_ok] at h
  obtain ⟨_, _, hchecked⟩ :=
    reassembleFileTo_checked blake3 sha256 debug file fetch vecSink source ()
  cases hresult : (reassembleFileTo blake3 sha256 debug file fetch vecSink source ()).2 with
  | error halt =>
    dsimp only at h
    rw [hresult] at h
    cases h.2
  | ok count =>
    dsimp only at h
    rw [hresult] at h
    obtain rfl := Except.ok.inj h.2
    exact (hchecked count hresult).2

/-- What the checks of a described file rest on, and what a fetch of its chunks gives. -/
theorem described_reassembles {reader : Reader} (hpath : validateFilePath debug path = .ok ())
    (hsome : 1 ≤ chunkBytes) (hmax : chunkBytes ≤ maxChunkBytes) (h : reader.Delivers bytes)
    (hfits : bytes.length ≤ isizeMax) :
    ∃ file, describeFile blake3 sha256 debug path reader chunkBytes = .ok file ∧
      validateFile debug file = .ok () ∧ (file.chunks.map (piece bytes)).flatten = bytes ∧
      (∀ chunk ∈ file.chunks, chunk.kappa = kappaOf blake3 (piece bytes chunk) ∧
        chunk.size.toNat = (piece bytes chunk).length) ∧
      ∀ {σ : Type} (fetch : Fetch σ) (source : σ), Serves fetch bytes source file.chunks →
        reassembleFile blake3 sha256 debug file fetch source = .ok bytes := by
  have hwide : bytes.length < 2 ^ 64 := by
    have : isizeMax = 2 ^ 63 - 1 := rfl
    omega
  have hone : chunkBytes ≠ 0 := by
    rintro rfl
    exact absurd hsome (by decide)
  obtain ⟨size, chunks, hdescribed, hsize, hcuts⟩ :=
    @describeFile_delivers blake3 sha256 _ _ _ _ _ hpath hone hmax h hwide
  obtain ⟨hchunks, hsum⟩ := hcuts.contiguous (UInt64.le_iff_toNat_le.mp hmax)
  have hstart : ([] : Bytes).length = 0 := rfl
  obtain ⟨hflat, heach⟩ := hcuts.pieces hstart
  rw [List.nil_append] at hflat heach
  have hvalid : validateFile debug ⟨path, size, none, some (sha256Prefix ++ hex (sha256 bytes).toList),
      kappaOf blake3 bytes, chunks⟩ = .ok () := by
    refine validateFile_ok.mpr ⟨hpath, rfl, ?_, digestOf_hex blake3Prefix (blake3 bytes), hchunks,
      hsum.trans hsize.symm⟩
    exact validateDigest_ok.mpr (digestOf_hex sha256Prefix (sha256 bytes))
  refine ⟨_, hdescribed, hvalid, hflat, heach, ?_⟩
  intro σ fetch source hserves
  have hzero : (0 : UInt64).toNat = 0 := rfl
  have hcount : (0 : UInt64).toNat + totalSize chunks < 2 ^ 64 := by omega
  obtain ⟨log, total, hrun, hlog⟩ :=
    @copyChunks_serves _ blake3 debug _ _ _ _ path [] 0 hserves heach hcount
  rw [hflat] at hlog
  have hwhole : checkWhole blake3 sha256 debug ⟨path, size, none,
      some (sha256Prefix ++ hex (sha256 bytes).toList), kappaOf blake3 bytes, chunks⟩ bytes = .ok () :=
    checkWhole_ok.mpr ⟨rfl, fun expected h => Option.some.inj h⟩
  rw [reassembleFile, if_neg (by dsimp only; omega), reassembleFileTo, hvalid]
  dsimp only
  rw [hrun, List.nil_append, hlog]
  dsimp only
  rw [ok_bind, hwhole]
  rfl

/-- A file that any reader delivers is described by an entry that is accepted, whose
chunks cut its bytes up, and which any fetch of those chunks puts together again.
Whatever else is fetched for whatever entry, no byte leaves before its chunk has passed
its checks, the count does not overflow, and only what was declared is returned. -/
theorem chunked_file (blake3 : Blake3) (sha256 : Sha256) (debug : String → String) :
    (∀ (path : String) (bytes : Bytes) (reader : Reader) (chunkBytes : UInt64),
      validateFilePath debug path = .ok () → 1 ≤ chunkBytes → chunkBytes ≤ maxChunkBytes →
      reader.Delivers bytes → bytes.length ≤ isizeMax →
      ∃ file, describeFile blake3 sha256 debug path reader chunkBytes = .ok file ∧
        validateFile debug file = .ok () ∧ (file.chunks.map (piece bytes)).flatten = bytes ∧
        (∀ chunk ∈ file.chunks, chunk.kappa = kappaOf blake3 (piece bytes chunk) ∧
          chunk.size.toNat = (piece bytes chunk).length) ∧
        ∀ {σ : Type} (fetch : Fetch σ) (source : σ), Serves fetch bytes source file.chunks →
          reassembleFile blake3 sha256 debug file fetch source = .ok bytes) ∧
    (∀ {σ : Type} (file : ManifestFile) (fetch : Fetch σ) (source : σ) (bytes : Bytes),
      reassembleFile blake3 sha256 debug file fetch source = .ok bytes →
        Declared blake3 sha256 file bytes) ∧
    (∀ {σ τ : Type} (file : ManifestFile) (fetch : Fetch σ) (sink : Sink τ) (source : σ)
      (target : τ),
      let run := reassembleFileTo blake3 sha256 debug file fetch sink source target
      (∀ past, past <+: run.1 → written past <+: ((vetted past).map Prod.snd).flatten ∧
        (vetted past).map Prod.fst <+: file.chunks ∧
        ∀ pair ∈ vetted past, Matches blake3 pair.1 pair.2) ∧
      run.2 ≠ .error .overflow) := by
  refine ⟨?_, ?_, ?_⟩
  · intro path bytes reader chunkBytes hpath hsome hmax hdelivers hfits
    exact described_reassembles hpath hsome hmax hdelivers hfits
  · intro σ file fetch source bytes h
    exact reassembleFile_declared h
  · intro σ τ file fetch sink source target
    obtain ⟨hlog, hover, _⟩ :=
      reassembleFileTo_checked blake3 sha256 debug file fetch sink source target
    exact ⟨hlog, hover⟩

section Sample

/-- The hash at the three inputs the sample has. -/
def sampleBlake3 (bytes : Bytes) : Vector UInt8 32 :=
  if bytes = [1, 2] then
    #v[0xb7, 0xd7, 0x70, 0x04, 0x0f, 0x78, 0x0e, 0x9d, 0xef, 0xf6, 0xbc, 0x03, 0x8a, 0xbe, 0xa6, 0x6e,
      0x10, 0x8b, 0x88, 0xd0, 0x98, 0xd1, 0x6d, 0x24, 0xcd, 0x74, 0x86, 0xeb, 0x67, 0x10, 0x60, 0xb2]
  else if bytes = [3] then
    #v[0xe1, 0xe0, 0xe8, 0x1d, 0x6e, 0xa3, 0x9b, 0x0c, 0xf8, 0xb8, 0x6f, 0xfd, 0x44, 0x09, 0x21, 0x01,
      0x1f, 0x57, 0x40, 0x0c, 0xbc, 0x3f, 0x76, 0xa8, 0xa1, 0x71, 0x90, 0x6a, 0x9b, 0x8d, 0x75, 0x05]
  else
    #v[0xb1, 0x77, 0xec, 0x1b, 0xf2, 0x6d, 0xfb, 0x3b, 0x70, 0x10, 0xd4, 0x73, 0xe6, 0xd4, 0x47, 0x13,
      0xb2, 0x9b, 0x76, 0x5b, 0x99, 0xc6, 0xe6, 0x0e, 0xcb, 0xfa, 0xe7, 0x42, 0xde, 0x49, 0x65, 0x43]

def sampleSha256 (_ : Bytes) : Vector UInt8 32 :=
    #v[0x03, 0x90, 0x58, 0xc6, 0xf2, 0xc0, 0xcb, 0x49, 0x2c, 0x53, 0x3b, 0x0a, 0x4d, 0x14, 0xef, 0x77,
      0xcc, 0x0f, 0x78, 0xab, 0xcc, 0xce, 0xd5, 0x28, 0x7d, 0x84, 0xa1, 0xa2, 0x01, 0x1c, 0xfb, 0x81]

def sampleReader : Reader := [.bytes [1], .interrupted, .bytes [2, 3]]

theorem sampleReader_delivers : sampleReader.Delivers [1, 2, 3] := by
  refine ⟨by simp, [2, 3], rfl, by simp, [], rfl, rfl⟩

theorem chunked_file_sample : ∃ file,
    describeFile sampleBlake3 sampleSha256 id "model/weights.bin" sampleReader 2 = .ok file ∧
      validateFile id file = .ok () ∧ (file.chunks.map (piece [1, 2, 3])).flatten = [1, 2, 3] := by
  have hpath : (validateFilePath id "model/weights.bin").toOption = some () := by decide
  obtain ⟨file, hdescribed, hvalid, hflat, _⟩ := (chunked_file sampleBlake3 sampleSha256 id).1
    "model/weights.bin" [1, 2, 3] sampleReader 2 (toOption_eq_some.mp hpath) (by decide) (by decide)
    sampleReader_delivers (by decide)
  exact ⟨file, hdescribed, hvalid, hflat⟩

end Sample
end Whole
end HologramLive.Repo
