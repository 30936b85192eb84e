import HologramLive.Lib.Lookup
import HologramLive.Lib.Result
import HologramLive.Store.Cached

/-! The store's calls over whole blobs and records, and the files they stand for. -/

namespace HologramLive
open Lib.Lookup Lib.Result Store

namespace ObjectStore
variable (blake3 : Blake3) (debug : String → String) (store : ObjectStore)

def putRecord (digest : String) (metadata : ObjectMetadata) : ObjectStore :=
  { store with
    records := (digest, metadata) :: store.records.filter fun record => record.1 ≠ digest }

/-- A blob that is there stays as it is, and its creation time with it. -/
def put (now : Nat) (kind mediaType : String) (filename : Option String) (bytes : Bytes) :
    ObjectMetadata × ObjectStore :=
  let digestHex := hexDigest blake3 bytes
  let blobs :=
    if (store.blobs.lookup digestHex).isSome then store.blobs
    else (digestHex, bytes) :: store.blobs
  let createdAtMillis := match store.records.lookup digestHex with
    | some existing => existing.createdAtMillis
    | none => now
  let metadata : ObjectMetadata :=
    { id := "blake3:" ++ digestHex, kind, mediaType, filename
      size := min bytes.length DiskStore.u64Max, createdAtMillis }
  (metadata, { store with blobs }.putRecord digestHex metadata)

def get (id : String) : Except LiveError Bytes := do
  let digest ← validateId debug id
  match store.blobs.lookup digest with
  | some bytes => .ok bytes
  | none => .error (.notFound s!"object {id} not found")

def metadata (id : String) : Except LiveError ObjectMetadata := do
  let digest ← validateId debug id
  match store.records.lookup digest with
  | some metadata => .ok metadata
  | none => .error (.notFound s!"metadata for {id} not found")

def renameFile (id filename : String) : Except LiveError (ObjectMetadata × ObjectStore) := do
  let filename ← validateFilename filename
  let digest ← validateId debug id
  match store.records.lookup digest with
  | none => .error (.notFound s!"metadata for {id} not found")
  | some metadata =>
    if metadata.kind ≠ "file" then .error (.notFound s!"file {id} not found")
    else
      let renamed := { metadata with filename := some filename }
      .ok (renamed, store.putRecord digest renamed)

/-- Cache verified bytes when their newly materialized size fits `maxNewBytes`. True
only when this call created the blob. -/
def cacheAddressedBounded (id : String) (bytes : Bytes) (maxNewBytes : Nat) :
    Except LiveError (Bool × ObjectStore) := do
  let digest ← validateId debug id
  if hexDigest blake3 bytes ≠ digest then
    .error (.invalidHolo s!"content blob {id} does not match its bytes")
  else if (store.blobs.lookup digest).isSome then .ok (false, store)
  else if min bytes.length DiskStore.u64Max > maxNewBytes then
    .error (.capability "addressed object exceeds the permitted new-byte ceiling")
  else .ok (true, { store with blobs := (digest, bytes) :: store.blobs })

def cacheAddressed (id : String) (bytes : Bytes) : Except LiveError ObjectStore := do
  let (_, store) ← store.cacheAddressedBounded blake3 debug id bytes DiskStore.u64Max
  .ok store

def getCached (id : String) : Except LiveError (Option Bytes) := do
  let digest ← validateId debug id
  .ok (store.blobs.lookup digest)

def removeMetadata (id : String) : Except LiveError ObjectStore := do
  let digest ← validateId debug id
  .ok { store with records := store.records.filter fun record => record.1 ≠ digest }

def verify (id : String) : Except LiveError Bool := do
  let bytes ← store.get debug id
  .ok (address blake3 bytes = id)

variable {store}

theorem lookup_putRecord (digest other : String) (metadata : ObjectMetadata) :
    (store.putRecord digest metadata).records.lookup other =
      if other = digest then some metadata else store.records.lookup other := by
  by_cases hsame : other = digest
  · simp [putRecord, hsame]
  · simp only [putRecord, lookup_cons_ne hsame, lookup_filter_ne, if_neg hsame]

theorem lookup_put (now : Nat) (kind mediaType : String) (filename : Option String)
    (bytes : Bytes) (digest : String) :
    (store.put blake3 now kind mediaType filename bytes).2.records.lookup digest =
      if digest = hexDigest blake3 bytes then
        some (store.put blake3 now kind mediaType filename bytes).1
      else store.records.lookup digest := lookup_putRecord ..

theorem blobs_put (now : Nat) (kind mediaType : String) (filename : Option String)
    (bytes : Bytes) (digest : String) :
    (store.put blake3 now kind mediaType filename bytes).2.blobs.lookup digest =
      if digest = hexDigest blake3 bytes ∧ store.blobs.lookup digest = none then some bytes
      else store.blobs.lookup digest := by
  simp only [put, putRecord]
  cases hblob : store.blobs.lookup (hexDigest blake3 bytes) with
  | some blob =>
    have hthere : ¬(digest = hexDigest blake3 bytes ∧ store.blobs.lookup digest = none) := by
      rintro ⟨rfl, hnone⟩
      rw [hblob] at hnone
      cases hnone
    rw [if_neg hthere]
    simp
  | none =>
    by_cases hsame : digest = hexDigest blake3 bytes
    · simp [hsame, hblob]
    · simp [hsame, lookup_cons_ne hsame]

/-- Caching adds nothing but a blob that was not there, under its own digest. -/
theorem cacheAddressedBounded_ok {id : String} {bytes : Bytes} {maxNewBytes : Nat}
    {created : Bool} {after : ObjectStore}
    (h : store.cacheAddressedBounded blake3 debug id bytes maxNewBytes = .ok (created, after)) :
    id = address blake3 bytes ∧
      (after = store ∨ store.blobs.lookup (hexDigest blake3 bytes) = none ∧
        after = { store with blobs := (hexDigest blake3 bytes, bytes) :: store.blobs }) := by
  obtain ⟨digest, hid, h⟩ := bind_ok.mp h
  obtain ⟨hsame, h⟩ := guard_ok.mp h
  obtain rfl := not_not.mp hsame
  refine ⟨(validateId_ok.mp hid).1, ?_⟩
  split at h
  · cases h
    exact .inl rfl
  · rename_i habsent
    obtain ⟨-, h⟩ := guard_ok.mp h
    cases h
    exact .inr ⟨Option.not_isSome_iff_eq_none.mp habsent, rfl⟩

theorem removeMetadata_ok {debug : String → String} {id : String} {after : ObjectStore}
    (h : store.removeMetadata debug id = .ok after) :
    ∃ digest, id = "blake3:" ++ digest ∧ after =
      { store with records := store.records.filter fun record => record.1 ≠ digest } := by
  unfold removeMetadata at h
  cases hid : validateId debug id with
  | error error =>
    rw [hid] at h
    cases h
  | ok digest =>
    rw [hid] at h
    cases h
    exact ⟨digest, (validateId_ok.mp hid).1, rfl⟩

end ObjectStore

namespace Store
open Lib Lib.Files

namespace DiskStore
variable {store : DiskStore} {files state : FileSystem} {objects : ObjectStore} {pid : Nat}

/-- The files of a store whose blobs and records these are. -/
structure Holds (store : DiskStore) (files : FileSystem) (objects : ObjectStore) : Prop where
  blobs : ∀ digest, ValidDigest digest →
    files (store.blobPath digest) = objects.blobs.lookup digest
  records : ∀ digest, ValidDigest digest →
    files (store.metadataPath digest) = (objects.records.lookup digest).map store.toVecPretty

theorem Holds.empty : store.Holds (fun _ => none) {} := ⟨fun _ _ => rfl, fun _ _ => rfl⟩

theorem Holds.putBlob {bytes : Contents} (h : store.Holds files objects) {digest : String}
    (hupdate : Updating pid (store.blobPath digest) bytes files state)
    (hstored : state (store.blobPath digest) = some bytes) :
    store.Holds state { objects with blobs := (digest, bytes) :: objects.blobs } where
  blobs := by
    intro other hvalid
    by_cases hsame : other = digest
    · simp [hsame, hstored]
    · rw [blob_unmoved hupdate hvalid (blobPath_injective.ne hsame), h.blobs other hvalid,
        lookup_cons_ne hsame]
  records := by
    intro other hvalid
    rw [metadata_unmoved hupdate hvalid (blob_ne_metadata _ _).symm, h.records other hvalid]

theorem Holds.putRecord {metadata : ObjectMetadata} (h : store.Holds files objects)
    {digest : String}
    (hupdate : Updating pid (store.metadataPath digest) (store.toVecPretty metadata) files state)
    (hstored : state (store.metadataPath digest) = some (store.toVecPretty metadata)) :
    store.Holds state (objects.putRecord digest metadata) where
  blobs := by
    intro other hvalid
    rw [blob_unmoved hupdate hvalid (blob_ne_metadata _ _), h.blobs other hvalid]
    rfl
  records := by
    intro other hvalid
    rw [ObjectStore.lookup_putRecord]
    by_cases hsame : other = digest
    · simp [hsame, hstored]
    · rw [metadata_unmoved hupdate hvalid (metadataPath_injective.ne hsame), if_neg hsame,
        h.records other hvalid]

theorem Holds.get (h : store.Holds files objects) (id : String) :
    store.get (fun path => (files path).elim (.error missing) .ok) id =
      objects.get store.debug id := by
  unfold DiskStore.get ObjectStore.get
  cases hid : validateId store.debug id with
  | error error => rfl
  | ok digest =>
    simp only [ok_bind]
    rw [h.blobs digest (validateId_ok.mp hid).2]
    cases objects.blobs.lookup digest <;> rfl

theorem Holds.record (h : store.Holds files objects) (digest : String) (metadata : ObjectMetadata) :
    Program.Ensures serve (· = .granted) (fun _ => True)
      (fun result state => result = .ok metadata ∧ store.Holds state (objects.putRecord digest metadata))
      (atomicWrite pid (store.metadataPath digest) (store.toVecPretty metadata) >>= fun _ =>
        pure metadata) files := by
  apply (atomicWrite_granted pid _ _ files).bind
  · rintro value state - ⟨-, hupdate, hstored⟩
    exact ⟨trivial, rfl, h.putRecord hupdate hstored⟩
  · rintro error state - ⟨hresult, -⟩
    cases hresult

/-- A record that is there is found. -/
theorem Holds.readMetadata
    (hcodec : ∀ metadata, store.fromSlice (store.toVecPretty metadata) = .ok metadata)
    (h : store.Holds files objects) {digest : String} (hvalid : ValidDigest digest) :
    Program.Ensures serve (· = .granted) (fun _ => True)
      (fun result state => result = .ok (objects.records.lookup digest) ∧ state = files)
      (store.readMetadata digest) files := by
  refine ⟨trivial, ?_⟩
  rintro verdict rfl
  simp only [serve_granted, FileSystem.granted, h.records digest hvalid]
  cases objects.records.lookup digest with
  | none => exact ⟨trivial, rfl, rfl⟩
  | some metadata =>
    refine ⟨trivial, ?_, rfl⟩
    simp [hcodec, Except.toOption]

/-- The files of the call that stores contents, when none of its calls is refused. -/
theorem Holds.put (hcodec : ∀ metadata, store.fromSlice (store.toVecPretty metadata) = .ok metadata)
    (h : store.Holds files objects) (now : Nat) (kind mediaType : String)
    (filename : Option String) {bytes : Contents} (hsize : bytes.length ≤ u64Max) :
    Program.Ensures serve (· = .granted) (fun _ => True)
      (fun result state =>
        result = .ok (objects.put store.blake3 now kind mediaType filename bytes).1 ∧
          store.Holds state (objects.put store.blake3 now kind mediaType filename bytes).2)
      (store.put pid now kind mediaType filename bytes) files := by
  have hvalid := hexDigest_valid store.blake3 bytes
  apply Program.Ensures.bind fun result state => result = .ok () ∧
    store.Holds state { objects with
      blobs := if (objects.blobs.lookup (hexDigest store.blake3 bytes)).isSome then objects.blobs
        else (hexDigest store.blake3 bytes, bytes) :: objects.blobs }
  · unfold ensureBlob
    apply ensures_pathExists trivial
    rintro verdict rfl
    have hfound : found .granted files (store.blobPath (hexDigest store.blake3 bytes)) =
        (objects.blobs.lookup (hexDigest store.blake3 bytes)).isSome := by
      rw [found, h.blobs _ hvalid]
    rw [hfound]
    cases hblob : objects.blobs.lookup (hexDigest store.blake3 bytes) with
    | some blob => exact ⟨trivial, rfl, h⟩
    | none =>
      apply (atomicWrite_granted pid _ _ files).mono
      · exact fun _ _ => trivial
      · rintro result state - ⟨hresult, hupdate, hstored⟩
        exact ⟨hresult, h.putBlob hupdate hstored⟩
  · rintro value state - ⟨-, hstate⟩
    apply (hstate.readMetadata hcodec hvalid).bind
    · rintro existing after - ⟨hexisting, rfl⟩
      obtain rfl := Except.ok.inj hexisting
      simp only [ObjectStore.put, Nat.min_eq_left hsize]
      exact hstate.record _ _
    · rintro error after - ⟨hresult, -⟩
      cases hresult
  · rintro error state - ⟨hresult, -⟩
    cases hresult

/-- The files of a rename, when none of its calls is refused. -/
theorem Holds.rename
    (hcodec : ∀ metadata, store.fromSlice (store.toVecPretty metadata) = .ok metadata)
    (h : store.Holds files objects) (id filename : String) :
    Program.Ensures serve (· = .granted) (fun _ => True)
      (fun result state =>
        match objects.renameFile store.debug id filename with
        | .ok (renamed, objects) => result = .ok renamed ∧ store.Holds state objects
        | .error error => result = .error error ∧ store.Holds state objects)
      (store.renameFile pid id filename) files := by
  unfold DiskStore.renameFile ObjectStore.renameFile
  apply Program.Ensures.ofExcept trivial
  · intro error hname
    rw [hname]
    exact ⟨rfl, h⟩
  intro name hname
  rw [hname, ok_bind]
  apply Program.Ensures.ofExcept trivial
  · intro error hid
    rw [hid]
    exact ⟨rfl, h⟩
  intro digest hid
  rw [hid, ok_bind]
  have hrecord := h.records digest (validateId_ok.mp hid).2
  apply ensures_attempt trivial
  case hrefused => rintro error written ⟨⟩
  cases hlookup : objects.records.lookup digest with
  | none =>
    rw [hlookup] at hrecord
    simp only [FileSystem.granted, hrecord]
    exact ⟨trivial, rfl, h⟩
  | some metadata =>
    rw [hlookup] at hrecord
    simp only [FileSystem.granted, hrecord, Option.map_some, onReply_ok, Program.done_bind, hcodec]
    have hread : (Program.ofExcept ((Except.ok metadata : Except String ObjectMetadata).mapError
        LiveError.protocol) : FileProgram LiveError ObjectMetadata) = .done metadata := rfl
    rw [hread, Program.done_bind]
    by_cases hkind : metadata.kind = "file"
    · simp only [hkind, ne_eq, not_true_eq_false, ↓reduceIte]
      exact h.record digest _
    · simp only [hkind, ne_eq, not_false_eq_true, ↓reduceIte]
      exact ⟨trivial, rfl, h⟩

theorem Holds.getCached (h : store.Holds files objects) (id : String) :
    Program.Ensures serve (· = .granted) (fun _ => True)
      (fun result state => result = objects.getCached store.debug id ∧ state = files)
      (store.getCached id) files := by
  unfold DiskStore.getCached ObjectStore.getCached
  apply Program.Ensures.ofExcept trivial
  · intro error hid
    rw [hid]
    exact ⟨rfl, rfl⟩
  intro digest hid
  rw [hid, ok_bind]
  refine ⟨trivial, ?_⟩
  rintro verdict rfl
  simp only [serve_granted, FileSystem.granted, h.blobs digest (validateId_ok.mp hid).2]
  cases objects.blobs.lookup digest with
  | none => exact ⟨trivial, rfl, rfl⟩
  | some bytes => exact ⟨trivial, rfl, rfl⟩

/-- The files of a call that caches bytes, when none of its calls is refused. -/
theorem Holds.cacheAddressedBounded (h : store.Holds files objects) (id : String)
    {bytes : Contents} (hsize : bytes.length ≤ u64Max) (maxNewBytes : Nat) :
    Program.Ensures serve (· = .granted) (fun _ => True)
      (fun result state =>
        match objects.cacheAddressedBounded store.blake3 store.debug id bytes maxNewBytes with
        | .ok (created, objects) => result = .ok created ∧ store.Holds state objects
        | .error error => result = .error error ∧ store.Holds state objects)
      (store.cacheAddressedBounded pid id bytes maxNewBytes) files := by
  unfold DiskStore.cacheAddressedBounded ObjectStore.cacheAddressedBounded
  apply Program.Ensures.ofExcept trivial
  · intro error hid
    rw [hid]
    exact ⟨rfl, h⟩
  intro digest hid
  rw [hid, ok_bind]
  by_cases hsame : hexDigest store.blake3 bytes = digest
  · subst digest
    simp only [ne_eq, not_true_eq_false, ↓reduceIte]
    apply ensures_pathExists trivial
    rintro verdict rfl
    rw [found, h.blobs _ (validateId_ok.mp hid).2, Nat.min_eq_left hsize]
    cases objects.blobs.lookup (hexDigest store.blake3 bytes) with
    | some blob => exact ⟨trivial, rfl, h⟩
    | none =>
      simp only [Option.isSome_none, Bool.false_eq_true, ↓reduceIte]
      by_cases hbig : bytes.length > maxNewBytes
      · rw [if_pos hbig, if_pos hbig]
        exact ⟨trivial, rfl, h⟩
      · rw [if_neg hbig, if_neg hbig]
        apply (atomicWrite_granted pid _ _ files).bind
        · rintro value state - ⟨-, hupdate, hstored⟩
          exact ⟨trivial, rfl, h.putBlob hupdate hstored⟩
        · rintro error state - ⟨hresult, -⟩
          cases hresult
  · simp only [ne_eq, hsame, not_false_eq_true, ↓reduceIte]
    exact ⟨trivial, rfl, h⟩

/-- The files of a record's removal, when none of its calls is refused. -/
theorem Holds.removeMetadata (h : store.Holds files objects) (id : String) :
    Program.Ensures serve (· = .granted) (fun _ => True)
      (fun result state =>
        match objects.removeMetadata store.debug id with
        | .ok objects => result = .ok () ∧ store.Holds state objects
        | .error error => result = .error error ∧ store.Holds state objects)
      (store.removeMetadata id) files := by
  unfold DiskStore.removeMetadata ObjectStore.removeMetadata
  apply Program.Ensures.ofExcept trivial
  · intro error hid
    rw [hid]
    exact ⟨rfl, h⟩
  intro digest hid
  rw [hid, ok_bind]
  have hvalid := (validateId_ok.mp hid).2
  have hremoved : ∀ state, (∀ other, other ≠ store.metadataPath digest → state other = files other) →
      state (store.metadataPath digest) = none →
      store.Holds state { objects with
        records := objects.records.filter fun record => record.1 ≠ digest } := by
    intro state hothers hgone
    refine ⟨fun other hother => ?_, fun other hother => ?_⟩
    · rw [hothers _ (blob_ne_metadata _ _), h.blobs other hother]
    · rw [lookup_filter_ne]
      by_cases hsame : other = digest
      · rw [hsame, hgone, if_pos rfl]
        rfl
      · rw [hothers _ (metadataPath_injective.ne hsame), if_neg hsame, h.records other hother]
  apply ensures_pathExists trivial
  rintro verdict rfl
  have hrecord := h.records digest hvalid
  rw [found, hrecord]
  cases hlookup : objects.records.lookup digest with
  | none =>
    rw [hlookup] at hrecord
    exact ⟨trivial, rfl, hremoved files (fun _ _ => rfl) hrecord⟩
  | some metadata =>
    rw [hlookup] at hrecord
    refine ⟨trivial, ?_⟩
    rintro verdict rfl
    simp only [serve_granted, FileSystem.granted, hrecord, Option.map_some]
    exact ⟨trivial, rfl, hremoved _ (fun other hother => FileSystem.remove_other hother)
      (FileSystem.remove_same ..)⟩

end DiskStore
end Store
end HologramLive
