import HologramLive.Store.Guarded
import HologramLive.Store.Objects

/-! The object store's methods side by side, and what they come to one after another. -/

namespace HologramLive.Store
open Lib Lib.Atomic Lib.Files Lib.Lookup Lib.Result

/-- Contents in memory. -/
structure Slice where
  bytes : Contents
  fits : bytes.length ≤ DiskStore.u64Max
  deriving DecidableEq

namespace DiskStore

/-- A call of the store, with what the clock shows. -/
inductive Method where
  | put (now : Nat) (kind mediaType : String) (filename : Option String) (content : Slice)
  | renameFile (id filename : String)
  | cacheAddressedBounded (id : String) (content : Slice) (maxNewBytes : Nat)
  | metadata (id : String)
  | list (kind : Option String)
  | removeMetadata (id : String)
  deriving DecidableEq

inductive Answer where
  | stored (metadata : ObjectMetadata)
  | renamed (metadata : ObjectMetadata)
  | cached (created : Bool)
  | described (metadata : ObjectMetadata)
  | listed (objects : List ObjectMetadata)
  | removed
  deriving DecidableEq

def wanted (kind : Option String) (metadata : ObjectMetadata) : Bool :=
  kind.all fun expected => metadata.kind = expected

def list (store : DiskStore) (kind : Option String) : DirProgram LiveError (List ObjectMetadata) := do
  let directory := store.root ++ ["metadata"]
  let entries ← .call (.right (.readDir directory)) fun reply =>
    .ofExcept (reply.mapError (ioError ("/".intercalate directory)))
  let output ← readRecords directory store.fromSlice (wanted kind) entries
  pure (output.insertionSort ObjectStore.newestFirst)

variable (store : DiskStore)

/-- What a call does before it takes the lock can make it fail. -/
def locks : Method → Bool
  | .put .. => true
  | .renameFile _ filename => (validateFilename filename).toOption.isSome
  | .cacheAddressedBounded id content _ => match validateId store.debug id with
    | .ok digest => hexDigest store.blake3 content.bytes = digest
    | .error _ => false
  | .metadata _ | .list _ | .removeMetadata _ => false

def body (pid : Nat) : Method → DirProgram LiveError Answer
  | .put now kind mediaType filename content =>
    (do
      let metadata ← store.put pid now kind mediaType filename content.bytes
      pure (Answer.stored metadata)).translate .left
  | .renameFile id filename =>
    (do
      let metadata ← store.renameFile pid id filename
      pure (Answer.renamed metadata)).translate .left
  | .cacheAddressedBounded id content maxNewBytes =>
    (do
      let created ← store.cacheAddressedBounded pid id content.bytes maxNewBytes
      pure (Answer.cached created)).translate .left
  | .metadata id =>
    (do
      let metadata ← store.metadata id
      pure (Answer.described metadata)).translate .left
  | .list kind => do
    let objects ← store.list kind
    pure (.listed objects)
  | .removeMetadata id =>
    (do
      store.removeMetadata id
      pure Answer.removed).translate .left

/-- What a call comes to that reports failure by leaving the store alone. -/
def settled (known : ObjectStore) (answer : α → Answer) :
    Except LiveError (α × ObjectStore) → Except LiveError Answer × ObjectStore
  | .ok (value, after) => (.ok (answer value), after)
  | .error error => (.error error, known)

/-- A call carried out at once, where the directory of records lists `names`. -/
def apply (names : List String) (known : ObjectStore) :
    Method → Except LiveError Answer × ObjectStore
  | .put now kind mediaType filename content =>
    let (metadata, after) := known.put store.blake3 now kind mediaType filename content.bytes
    (.ok (.stored metadata), after)
  | .renameFile id filename => settled known .renamed (known.renameFile store.debug id filename)
  | .cacheAddressedBounded id content maxNewBytes =>
    settled known .cached
      (known.cacheAddressedBounded store.blake3 store.debug id content.bytes maxNewBytes)
  | .metadata id => ((known.metadata store.debug id).map .described, known)
  | .list kind =>
    (.ok (.listed (((names.filterMap fun name =>
      if fileExtension name = some "json" then known.records.lookup (fileStem name) else none).filter
        (wanted kind)).insertionSort ObjectStore.newestFirst)), known)
  | .removeMetadata id =>
    settled known (fun _ => .removed) ((known.removeMetadata store.debug id).map fun after => ((), after))

/-- What a call may come to when it is carried out at once. The order in which a directory
lists its files decides only between equals. -/
def allows (method : Method) (known : ObjectStore) (answer : Except LiveError Answer)
    (after : ObjectStore) : Prop :=
  match method with
  | .list kind => after = known ∧ ∃ output : List ObjectMetadata,
    output.Perm ((known.records.map Prod.snd).filter (wanted kind)) ∧
      answer = .ok (.listed (output.insertionSort ObjectStore.newestFirst))
  | method => store.apply [] known method = (answer, after)

def role : Method → Role ObjectMetadata
  | .put _ _ _ _ content => .writer (hexDigest store.blake3 content.bytes) fun _ => false
  | .renameFile id _ => match validateId store.debug id with
    | .ok digest => .writer digest fun existing => !existing.any fun metadata => metadata.kind = "file"
    | .error _ => .idle
  | .cacheAddressedBounded _ content _ => .keeper (store.blobPath (hexDigest store.blake3 content.bytes))
  | .metadata id => match validateId store.debug id with
    | .ok digest => .reader digest
    | .error _ => .idle
  | .list _ => .lister
  | .removeMetadata id => match validateId store.debug id with
    | .ok digest => .remover digest
    | .error _ => .idle

/-- The metadata directory, with the blobs beside it. -/
def ledger (hcodec : ∀ metadata, store.fromSlice (store.toVecPretty metadata) = .ok metadata) :
    Ledger ObjectMetadata ObjectStore (List (String × Bytes)) where
  directory := store.root ++ ["metadata"]
  toVecPretty := store.toVecPretty
  fromSlice := store.fromSlice
  records := ObjectStore.records
  aside := ObjectStore.blobs
  drop := fun known key =>
    { known with records := known.records.filter fun record => record.1 ≠ key }
  apart := fun files blobs => ∀ digest, ValidDigest digest →
    files (store.blobPath digest) = blobs.lookup digest
  fromSlice_toVecPretty := hcodec
  records_drop := fun _ _ => rfl
  aside_drop := fun _ _ => rfl
  apart_congr := by
    intro files files' blobs hsame h digest hvalid
    rw [hsame]
    · exact h digest hvalid
    · intro heq
      have := congrArg List.length heq
      simp [blobPath] at this

def service (hcodec : ∀ metadata, store.fromSlice (store.toVecPretty metadata) = .ok metadata)
    (pid : Nat) : Service (store.ledger hcodec) Method Answer where
  role := store.role
  locks := store.locks
  body := store.body pid
  allows := store.allows
  apply := fun method names known => store.apply names known method
  fresh := fun _ _ => True

section Runs
variable {store} {hcodec : ∀ metadata, store.fromSlice (store.toVecPretty metadata) = .ok metadata}
  {pid : Nat} {point : FileSystem × ObjectStore} {blobs rewritten : List (String × Bytes)}

/-- The record of stored contents, over what was found under their digest. -/
def recordOf (store : DiskStore) (now : Nat) (kind mediaType : String) (filename : Option String)
    (bytes : Contents) (existing : Option ObjectMetadata) : ObjectMetadata :=
  { id := address store.blake3 bytes, kind, mediaType, filename, size := bytes.length
    createdAtMillis := match existing with
      | some metadata => metadata.createdAtMillis
      | none => now }

theorem put_eq (known : ObjectStore) (now : Nat) (kind mediaType : String)
    (filename : Option String) (content : Slice) :
    (known.put store.blake3 now kind mediaType filename content.bytes).1 =
      store.recordOf now kind mediaType filename content.bytes
        (known.records.lookup (hexDigest store.blake3 content.bytes)) := by
  exact congrArg (fun size => { store.recordOf now kind mediaType filename content.bytes
    (known.records.lookup (hexDigest store.blake3 content.bytes)) with size })
    (Nat.min_eq_left content.fits)

/-- What `readMetadata` makes of a reply. -/
def recordIn (store : DiskStore) : Except IoError Contents → Option ObjectMetadata
  | .ok bytes => (store.fromSlice bytes).toOption
  | .error _ => none

theorem runs_describe (now : Nat) (kind mediaType : String) (filename : Option String) (content : Slice)
    (hkept : (store.ledger hcodec).Kept none point.1 point.2) (hblobs : point.2.blobs = blobs)
    (hrewritten : rewritten =
      if (blobs.lookup (hexDigest store.blake3 content.bytes)).isSome then blobs
      else (hexDigest store.blake3 content.bytes, content.bytes) :: blobs)
    (hapart : (store.ledger hcodec).apart point.1 rewritten) :
    (store.service hcodec pid).Runs (.put now kind mediaType filename content) false
      (store.describe pid now kind mediaType filename content.bytes >>= fun metadata =>
        .done (.stored metadata)) point := by
  have hvalid := hexDigest_valid store.blake3 content.bytes
  have hbody : (store.describe pid now kind mediaType filename content.bytes >>= fun metadata =>
      (.done (.stored metadata) : FileProgram LiveError Answer)) =
      .call (.read (store.metadataPath (hexDigest store.blake3 content.bytes))) fun reply =>
        let metadata :=
          store.recordOf now kind mediaType filename content.bytes (store.recordIn reply)
        atomicWrite pid (store.metadataPath (hexDigest store.blake3 content.bytes))
          (store.toVecPretty metadata) >>= fun _ => .done (.stored metadata) := by
    unfold describe readMetadata
    simp only [Program.perform_bind, Program.call_bind, Program.pure_eq, Program.done_bind,
      Program.bind_assoc]
    rfl
  rw [hbody]
  refine Service.runs_read rfl hvalid hkept hblobs hapart ?_ fun existing later _ hheld => ?_
  · intro known names _ hquits
    cases hquits
  · have hexisting : store.recordIn ((store.ledger hcodec).reading existing) = existing := by
      cases existing with
      | none => rfl
      | some metadata => exact congrArg Except.toOption (hcodec metadata)
    dsimp only
    rw [hexisting]
    refine Service.runs_replace rfl hvalid (.inl rfl) ?_ hheld
    intro known names hknown hfind _
    have hmetadata := @put_eq store known now kind mediaType filename content
    rw [show known.records.lookup (hexDigest store.blake3 content.bytes) = existing from hfind]
      at hmetadata
    have happly : store.apply names known (.put now kind mediaType filename content) =
        (.ok (.stored (store.recordOf now kind mediaType filename content.bytes existing)),
          (known.put store.blake3 now kind mediaType filename content.bytes).2) := by
      rw [← hmetadata]
      rfl
    refine ⟨_, happly, happly, ?_, ?_⟩
    · rw [← hmetadata]
      rfl
    · rw [hrewritten, ← show known.blobs = blobs from hknown]
      rfl

/-- The state with all records in place and these blobs. -/
structure Shelved (store : DiskStore)
    (hcodec : ∀ metadata, store.fromSlice (store.toVecPretty metadata) = .ok metadata)
    (blobs : List (String × Bytes)) (point : FileSystem × ObjectStore) : Prop where
  kept : (store.ledger hcodec).Kept none point.1 point.2
  same : point.2.blobs = blobs
  apart : (store.ledger hcodec).apart point.1 blobs

theorem Shelved.spared {own : Option String} {before after : FileSystem × ObjectStore}
    (h : Shelved store hcodec blobs before) (hspared : (store.ledger hcodec).Spared own before after) :
    Shelved store hcodec blobs after where
  kept := hspared.kept none nofun h.kept
  same := hspared.aside.trans h.same
  apart := (store.ledger hcodec).apart_congr _ _ _ (fun _ hpath => hspared.outside hpath) h.apart

theorem Shelved.scratched {before : FileSystem × ObjectStore} (h : Shelved store hcodec blobs before)
    (path : Path) (bytes : Contents) :
    Shelved store hcodec blobs (before.1.write (temporaryFor pid path) bytes, before.2) where
  kept := h.kept.scratched pid path bytes
  same := h.same
  apart := by
    intro digest hvalid
    dsimp only
    rw [FileSystem.write_other (blob_ne_temporary path hvalid)]
    exact h.apart digest hvalid

/-- A blob that has moved in place. -/
theorem Shelved.blobbed {before : FileSystem × ObjectStore} (h : Shelved store hcodec blobs before)
    {digest : String} (bytes : Contents) (known : ObjectStore)
    (hrecords : known.records = before.2.records) :
    (store.ledger hcodec).Kept none
      ((before.1.remove (temporaryFor pid (store.blobPath digest))).write (store.blobPath digest) bytes)
      known ∧
    (store.ledger hcodec).apart
      ((before.1.remove (temporaryFor pid (store.blobPath digest))).write (store.blobPath digest) bytes)
      ((digest, bytes) :: blobs) := by
  constructor
  · refine (h.kept.of_records hrecords).congr fun _ _ => ?_
    rw [FileSystem.write_other, FileSystem.remove_other]
    · intro heq
      have := congrArg (fun path => path.directory.length) heq
      simp [ledger, temporaryFor, Path.withExtension, blobPath] at this
    · intro heq
      have := congrArg (fun path => path.directory.length) heq
      simp [ledger, blobPath] at this
  · intro other hvalid
    by_cases hsame : other = digest
    · rw [hsame, FileSystem.write_same, List.lookup_cons_self]
    · rw [FileSystem.write_other (blobPath_injective.ne hsame),
        FileSystem.remove_other (blob_ne_temporary _ hvalid), lookup_cons_ne hsame]
      exact h.apart other hvalid

theorem runs_blob {method : Method} {counting : Bool} {content : Slice}
    {rest : Unit → FileProgram LiveError Answer}
    (hrole : (store.role method).updates = true)
    (habsent : blobs.lookup (hexDigest store.blake3 content.bytes) = none)
    (hrest : ∀ later, Shelved store hcodec blobs later →
      later.1 (temporaryFor pid (store.blobPath (hexDigest store.blake3 content.bytes))) =
        some content.bytes →
      (store.service hcodec pid).Runs method counting
        (attempt (.rename (temporaryFor pid (store.blobPath (hexDigest store.blake3 content.bytes)))
          (store.blobPath (hexDigest store.blake3 content.bytes)))
            (ioError (store.blobPath (hexDigest store.blake3 content.bytes)).display) >>= rest) later)
    (h : Shelved store hcodec blobs point) :
    (store.service hcodec pid).Runs method counting
      (atomicWrite pid (store.blobPath (hexDigest store.blake3 content.bytes)) content.bytes >>= rest)
      point := by
  have hvalid := hexDigest_valid store.blake3 content.bytes
  apply @Service.runs_atomicWrite _ _ _ _ _ _ (store.service hcodec pid) method counting point
    (Shelved store hcodec blobs)
  case hrole => exact hrole
  case hstable => exact fun before after hheld hspared => hheld.spared hspared
  case hfile =>
    intro before after hheld hspared
    rw [(hheld.spared hspared).apart _ hvalid, hheld.apart _ hvalid]
  case hview => exact fun before hheld => ⟨none, hheld.kept⟩
  case hscratched => exact fun before hheld => hheld.scratched _ _
  case hremoved =>
    intro before hheld hthere
    rw [hheld.apart _ hvalid, habsent] at hthere
    cases hthere
  case hrest => exact hrest
  case h => exact h

theorem runs_put (now : Nat) (kind mediaType : String) (filename : Option String) (content : Slice)
    (h : Shelved store hcodec blobs point) :
    (store.service hcodec pid).Runs (.put now kind mediaType filename content) false
      (store.put pid now kind mediaType filename content.bytes >>= fun metadata =>
        .done (.stored metadata)) point := by
  have hvalid := hexDigest_valid store.blake3 content.bytes
  unfold put ensureBlob
  simp only [Program.bind_assoc]
  refine Service.runs_exists rfl fun later hlater => ?_
  have hheld := h.spared hlater
  refine ⟨⟨none, hheld.kept⟩, ?_⟩
  rw [hheld.apart _ hvalid]
  cases hblob : blobs.lookup (hexDigest store.blake3 content.bytes) with
  | some blob =>
    have hthere : blobs = if (blobs.lookup (hexDigest store.blake3 content.bytes)).isSome then blobs
        else (hexDigest store.blake3 content.bytes, content.bytes) :: blobs := by
      rw [hblob]
      rfl
    exact runs_describe now kind mediaType filename content hheld.kept hheld.same hthere hheld.apart
  | none =>
    refine runs_blob rfl hblob (fun before hbefore htemporary => ?_) hheld
    rw [attempt_bind]
    refine Service.runs_call fun later hlater _ => .inr ⟨?_, ?_⟩
    · exact decide_eq_false (blob_ne_metadata _ _)
    · have hlast := hbefore.spared hlater
      rw [← hlater.temporary] at htemporary
      have hadded : (hexDigest store.blake3 content.bytes, content.bytes) :: blobs =
          if (blobs.lookup (hexDigest store.blake3 content.bytes)).isSome then blobs
          else (hexDigest store.blake3 content.bytes, content.bytes) :: blobs := by
        rw [hblob]
        rfl
      obtain ⟨hkept, hapart⟩ := @Shelved.blobbed _ _ pid _ _ hlast
        (hexDigest store.blake3 content.bytes) content.bytes later.2 rfl
      simp only [FileSystem.granted, htemporary]
      exact ⟨⟨none, hkept⟩,
        runs_describe now kind mediaType filename content hkept hlast.same hadded hapart⟩

theorem runs_cache (id : String) (content : Slice) (maxNewBytes : Nat)
    (hid : validateId store.debug id = .ok (hexDigest store.blake3 content.bytes))
    (h : Shelved store hcodec blobs point) :
    (store.service hcodec pid).Runs (.cacheAddressedBounded id content maxNewBytes) false
      (store.cacheAddressedBounded pid id content.bytes maxNewBytes >>= fun created =>
        .done (.cached created)) point := by
  have hvalid := hexDigest_valid store.blake3 content.bytes
  have hdone : ∀ (later : FileSystem × ObjectStore) (answer : Except LiveError Answer),
      Shelved store hcodec blobs later →
      (∀ known : ObjectStore, known.blobs = blobs →
        store.apply [] known (.cacheAddressedBounded id content maxNewBytes) = (answer, known)) →
      (store.service hcodec pid).allows (.cacheAddressedBounded id content maxNewBytes) later.2 answer
          later.2 ∧
        (store.service hcodec pid).discipline.rest later.1 later.2 := by
    intro later answer hlater happly
    refine ⟨happly later.2 hlater.same, hlater.kept, ?_⟩
    rw [show (store.ledger hcodec).aside later.2 = blobs from hlater.same]
    exact hlater.apart
  have happly : ∀ (known : ObjectStore), known.blobs = blobs →
      known.cacheAddressedBounded store.blake3 store.debug id content.bytes maxNewBytes =
        if (blobs.lookup (hexDigest store.blake3 content.bytes)).isSome then .ok (false, known)
        else if content.bytes.length > maxNewBytes then
          .error (.capability "addressed object exceeds the permitted new-byte ceiling")
        else .ok (true, { known with
          blobs := (hexDigest store.blake3 content.bytes, content.bytes) :: known.blobs }) := by
    intro known hknown
    simp only [ObjectStore.cacheAddressedBounded, hid, ok_bind, ne_eq, not_true_eq_false, ↓reduceIte,
      hknown, Nat.min_eq_left content.fits]
  unfold cacheAddressedBounded
  rw [hid]
  simp only [Program.ofExcept, Program.done_bind, ne_eq, not_true_eq_false, ↓reduceIte,
    Program.bind_assoc]
  refine Service.runs_exists rfl fun later hlater => ?_
  have hheld := h.spared hlater
  refine ⟨⟨none, hheld.kept⟩, ?_⟩
  rw [hheld.apart _ hvalid]
  cases hblob : blobs.lookup (hexDigest store.blake3 content.bytes) with
  | some blob =>
    refine Service.runs_done fun last hlast => hdone last _ (hheld.spared hlast) fun known hknown => ?_
    simp [apply, happly known hknown, hblob, settled]
  | none =>
    simp only [Option.isSome_none, Bool.false_eq_true, ↓reduceIte]
    by_cases hbig : content.bytes.length > maxNewBytes
    · rw [if_pos hbig]
      refine Service.runs_fail fun last hlast => hdone last _ (hheld.spared hlast) fun known hknown => ?_
      simp [apply, happly known hknown, hblob, hbig, settled]
    · rw [if_neg hbig, Program.bind_assoc]
      refine runs_blob rfl hblob (fun before hbefore htemporary => ?_) hheld
      rw [attempt_bind]
      refine Service.runs_call fun later hlater _ => .inl ⟨decide_eq_true rfl, fun names => ?_⟩
      have hlast := hbefore.spared hlater
      rw [← hlater.temporary] at htemporary
      have hcached : store.apply names later.2 (.cacheAddressedBounded id content maxNewBytes) =
          (.ok (.cached true), { later.2 with
            blobs := (hexDigest store.blake3 content.bytes, content.bytes) :: later.2.blobs }) := by
        simp [apply, happly _ hlast.same, hblob, hbig, settled]
      obtain ⟨hkept, hapart⟩ := @Shelved.blobbed _ _ pid _ _ hlast
        (hexDigest store.blake3 content.bytes) content.bytes { later.2 with
          blobs := (hexDigest store.blake3 content.bytes, content.bytes) :: later.2.blobs } rfl
      simp only [FileSystem.granted, htemporary]
      refine ⟨_, _, hcached, hcached, rfl, hkept, ?_⟩
      rw [← hlast.same] at hapart
      exact hapart

theorem runs_rename (id filename : String) (hname : validateFilename filename = .ok name)
    (h : Shelved store hcodec blobs point) :
    (store.service hcodec pid).Runs (.renameFile id filename) false
      (store.renameFile pid id filename >>= fun metadata => .done (.renamed metadata)) point := by
  unfold renameFile
  rw [hname]
  simp only [Program.ofExcept, Program.done_bind]
  cases hid : validateId store.debug id with
  | error error =>
    refine Service.runs_fail fun later hlater => ⟨?_, Service.rest_spared ⟨h.kept, ?_⟩ hlater⟩
    · change store.apply [] later.2 (.renameFile id filename) = (.error error, later.2)
      simp [apply, ObjectStore.renameFile, hname, hid, settled]
    · rw [show (store.ledger hcodec).aside point.2 = blobs from h.same]
      exact h.apart
  | ok digest =>
    have hvalid := (validateId_ok.mp hid).2
    have hrole : (store.service hcodec pid).role (.renameFile id filename) =
        .writer digest fun existing => !existing.any fun metadata => metadata.kind = "file" := by
      simp only [service, role, hid]
    have hread : ∀ metadata, ((store.fromSlice (store.toVecPretty metadata)).mapError
        LiveError.protocol) = .ok metadata := by
      intro metadata
      rw [hcodec]
      rfl
    have hmissing : ∀ names known, known.records.lookup digest = none →
        store.apply names known (.renameFile id filename) =
          (.error (.notFound s!"metadata for {id} not found"), known) := by
      intro names known hfind
      unfold apply ObjectStore.renameFile
      simp only [hname, hid, ok_bind, hfind]
      rfl
    have hother : ∀ names known metadata, known.records.lookup digest = some metadata →
        metadata.kind ≠ "file" → store.apply names known (.renameFile id filename) =
          (.error (.notFound s!"file {id} not found"), known) := by
      intro names known metadata hfind hkind
      unfold apply ObjectStore.renameFile
      simp only [hname, hid, ok_bind, hfind, if_pos hkind]
      rfl
    have hrenamed : ∀ names known metadata, known.records.lookup digest = some metadata →
        metadata.kind = "file" → store.apply names known (.renameFile id filename) =
          (.ok (.renamed { metadata with kind := "file", filename := some name }),
            known.putRecord digest { metadata with kind := "file", filename := some name }) := by
      intro names known metadata hfind hkind
      rw [← hkind]
      unfold apply ObjectStore.renameFile
      simp only [hname, hid, ok_bind, hfind, if_neg (not_not.mpr hkind)]
      rfl
    rw [Program.done_bind, attempt_bind, Program.call_bind]
    refine Service.runs_read hrole hvalid h.kept h.same h.apart ?_ fun existing later hquits hheld => ?_
    · intro known names hknown hquits
      refine ⟨rfl, ?_⟩
      rw [Ledger.find, show (store.ledger hcodec).records known = known.records from rfl] at hquits ⊢
      cases hfind : known.records.lookup digest with
      | none =>
        exact ⟨_, hmissing names known hfind, hmissing [] known hfind, rfl⟩
      | some metadata =>
        rw [hfind] at hquits
        have hkind : metadata.kind ≠ "file" := by simpa using hquits
        refine ⟨_, hother names known metadata hfind hkind, hother [] known metadata hfind hkind, ?_⟩
        simp only [Ledger.reading, onReply_ok, Program.done_bind]
        rw [show (store.ledger hcodec).toVecPretty metadata = store.toVecPretty metadata from rfl,
          hread]
        simp only [Program.ofExcept, Program.done_bind, if_pos hkind]
        rfl
    · cases existing with
      | none => cases hquits
      | some metadata =>
        have hkind : metadata.kind = "file" := by simpa using hquits
        simp only [Ledger.reading, onReply_ok, Program.done_bind]
        rw [show (store.ledger hcodec).toVecPretty metadata = store.toVecPretty metadata from rfl,
          hread]
        simp only [Program.done_bind, hkind, ne_eq, not_true_eq_false, ↓reduceIte, Program.bind_assoc]
        refine Service.runs_replace (by rw [hrole]; rfl) hvalid (.inl ?_) ?_ hheld
        · rw [Service.counts, hrole]
          rfl
        · intro known names hknown hfind _
          exact ⟨_, hrenamed names known metadata hfind hkind,
            hrenamed [] known metadata hfind hkind, rfl, hknown⟩

theorem locked {method : Method} (hlocks : store.locks method = true)
    (h : Shelved store hcodec blobs point) :
    Locked (store.service hcodec pid).object (store.service hcodec pid).discipline method false
      (store.body pid method) point := by
  cases method with
  | put now kind mediaType filename content => exact (runs_put now kind mediaType filename content h).locked
  | renameFile id filename =>
    unfold locks at hlocks
    obtain ⟨name, hname⟩ := Option.isSome_iff_exists.mp hlocks
    exact (runs_rename id filename (toOption_eq_some.mp hname) h).locked
  | cacheAddressedBounded id content maxNewBytes =>
    refine (runs_cache id content maxNewBytes ?_ h).locked
    dsimp only [locks] at hlocks
    cases hid : validateId store.debug id with
    | error error =>
      rw [hid] at hlocks
      cases hlocks
    | ok digest =>
      rw [hid] at hlocks
      rw [of_decide_eq_true hlocks]
  | metadata id => cases hlocks
  | list kind => cases hlocks
  | removeMetadata id => cases hlocks

/-- A call that fails before it looks at anything. -/
theorem free_error {method : Method} {error : LiveError} {program : DirProgram LiveError Answer}
    (hbody : program = .fail error)
    (happly : ∀ known, store.allows method known (.error error) known) :
    Free (store.service hcodec pid).object (store.service hcodec pid).discipline method program := by
  rw [hbody]
  exact happly

theorem free {method : Method} (hlocks : store.locks method = false) :
    Free (store.service hcodec pid).object (store.service hcodec pid).discipline method
      (store.body pid method) := by
  cases method with
  | put now kind mediaType filename content => cases hlocks
  | renameFile id filename =>
    cases hname : validateFilename filename with
    | ok name =>
      rw [locks, hname] at hlocks
      cases hlocks
    | error error =>
      refine @free_error _ _ _ _ error _ ?_ fun known => ?_
      · simp only [body, renameFile, hname]
        rfl
      · simp [allows, apply, ObjectStore.renameFile, hname, settled]
  | cacheAddressedBounded id content maxNewBytes =>
    cases hid : validateId store.debug id with
    | error error =>
      refine @free_error _ _ _ _ error _ ?_ fun known => ?_
      · simp only [body, cacheAddressedBounded, hid]
        rfl
      · simp [allows, apply, ObjectStore.cacheAddressedBounded, hid, settled]
    | ok digest =>
      have hne : hexDigest store.blake3 content.bytes ≠ digest := by
        rw [locks, hid] at hlocks
        exact of_decide_eq_false hlocks
      refine @free_error _ _ _ _ (.invalidHolo s!"content blob {id} does not match its bytes") _ ?_
        fun known => ?_
      · simp only [body, cacheAddressedBounded, hid, Program.ofExcept, Program.done_bind, ne_eq, hne,
          not_false_eq_true, ↓reduceIte]
        rfl
      · simp [allows, apply, ObjectStore.cacheAddressedBounded, hid, hne, settled]
  | metadata id =>
    cases hid : validateId store.debug id with
    | error error =>
      refine @free_error _ _ _ _ error _ ?_ fun known => ?_
      · simp only [body, metadata, hid]
        rfl
      · simp [allows, apply, ObjectStore.metadata, hid, Except.map]
    | ok digest =>
      have hrole : (store.service hcodec pid).role (.metadata id) = .reader digest := by
        simp only [service, role, hid]
      have hbody : store.body pid (.metadata id) =
          (Program.call (.read ((store.ledger hcodec).path digest)) fun reply =>
            onReply (fun error => if error.notFound then .notFound s!"metadata for {id} not found"
                else ioError (store.metadataPath digest).display error) reply >>= fun bytes =>
              .ofExcept ((store.fromSlice bytes).mapError .protocol) >>= fun metadata =>
                .done (Answer.described metadata)).translate .left := by
        simp only [body, metadata, hid, Program.ofExcept, Program.done_bind, attempt_bind,
          Program.call_bind, Program.bind_assoc]
        rfl
      rw [hbody]
      refine Service.free_read hrole (validateId_ok.mp hid).2 fun known names =>
        ⟨_, rfl, rfl, ?_⟩
      have hdescribed : (ObjectStore.metadata store.debug known id).map Answer.described =
          match known.records.lookup digest with
          | some metadata => .ok (.described metadata)
          | none => .error (.notFound s!"metadata for {id} not found") := by
        simp only [ObjectStore.metadata, hid, ok_bind]
        cases known.records.lookup digest with
        | none => rfl
        | some metadata => rfl
      rw [hdescribed, Ledger.find, show (store.ledger hcodec).records known = known.records from rfl]
      cases known.records.lookup digest with
      | none => rfl
      | some metadata =>
        simp only [Ledger.reading, onReply_ok, Program.done_bind]
        rw [show store.fromSlice ((store.ledger hcodec).toVecPretty metadata) = .ok metadata from
          hcodec metadata]
        rfl
  | list kind =>
    have hbody : store.body pid (.list kind) =
        .call (.right (.readDir (store.ledger hcodec).directory)) fun reply =>
          .ofExcept (reply.mapError (ioError ("/".intercalate (store.root ++ ["metadata"])))) >>=
            fun entries => readRecords (store.ledger hcodec).directory (store.ledger hcodec).fromSlice
                (wanted kind) entries >>= fun output =>
              .done (Answer.listed (output.insertionSort ObjectStore.newestFirst)) := by
      simp only [body, list, Program.call_bind, Program.bind_assoc, Program.pure_eq, Program.done_bind]
      rfl
    rw [hbody]
    exact @Service.free_list _ _ _ _ _ (store.ledger hcodec) (store.service hcodec pid) (.list kind)
      (wanted kind) (fun output => .listed (output.insertionSort ObjectStore.newestFirst)) _ rfl
      (fun known names => rfl) fun known output hperm => ⟨rfl, output, hperm, rfl⟩
  | removeMetadata id =>
    cases hid : validateId store.debug id with
    | error error =>
      refine @free_error _ _ _ _ error _ ?_ fun known => ?_
      · simp only [body, removeMetadata, hid]
        rfl
      · simp [allows, apply, ObjectStore.removeMetadata, hid, settled, Except.map]
    | ok digest =>
      have hrole : (store.service hcodec pid).role (.removeMetadata id) = .remover digest := by
        simp only [service, role, hid]
      have hbody : store.body pid (.removeMetadata id) =
          (pathExists ((store.ledger hcodec).path digest) >>= fun there =>
            (if there then attempt (.removeFile ((store.ledger hcodec).path digest))
                (ioError (store.metadataPath digest).display) else pure ()) >>= fun _ =>
              .done Answer.removed).translate .left := by
        simp only [body, removeMetadata, hid, Program.ofExcept, Program.done_bind, Program.bind_assoc]
        rfl
      rw [hbody]
      refine Service.free_remove hrole (validateId_ok.mp hid).2 fun known names => ?_
      have happly : ∀ names, store.apply names known (.removeMetadata id) =
          (.ok .removed, (store.ledger hcodec).drop known digest) := by
        intro names
        simp only [apply, ObjectStore.removeMetadata, hid, ok_bind]
        rfl
      exact ⟨happly names, happly []⟩

/-- Each method does what it is to do as long as its steps are permitted. -/
theorem disciplined : Disciplined (store.service hcodec pid).object
    (store.service hcodec pid).discipline where
  refl := fun _ _ _ => Ledger.Spared.refl _ _
  trans := fun _ _ _ _ _ h h' => h.trans h'
  locked := fun _ _ _ hlocks _ hrest => locked hlocks ⟨hrest.1, rfl, hrest.2⟩
  free := fun _ hlocks => free hlocks

end Runs

end DiskStore
end HologramLive.Store
