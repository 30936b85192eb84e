import HologramLive.Store.Concurrent
import HologramLive.Store.Integrity

/-! Where the store's calls, side by side, come to what they come to one after another. -/

namespace HologramLive.Store
open Lib Lib.Atomic Lib.Files Lib.Interleaving Lib.Lookup Lib.Result

namespace DiskStore
variable {store : DiskStore} {digest : String} {known after first last : ObjectStore}

/-- What a call leaves of the record under a digest. -/
def recorded (store : DiskStore) (digest : String) (before : Option ObjectMetadata)
    (entry : Entry LiveError Method Answer) : Option ObjectMetadata :=
  match entry.method, entry.answer with
  | .put _ _ _ _ content, .ok (.stored metadata) =>
    if digest = hexDigest store.blake3 content.bytes then some metadata else before
  | .renameFile id _, .ok (.renamed metadata) => if id = "blake3:" ++ digest then some metadata else before
  | .removeMetadata id, .ok .removed => if id = "blake3:" ++ digest then none else before
  | _, _ => before

/-- A call that stores contents with a digest. -/
def Stores (store : DiskStore) (digest : String) : Method → Prop
  | .put _ _ _ _ content => hexDigest store.blake3 content.bytes = digest
  | _ => False

theorem settled_ok {answer : α → Answer} {result : Except LiveError (α × ObjectStore)}
    {reported : Except LiveError Answer} (h : settled known answer result = (reported, after)) :
    (∃ value, result = .ok (value, after) ∧ reported = .ok (answer value)) ∨
      (∃ error, result = .error error ∧ reported = .error error) ∧ after = known := by
  cases result with
  | ok found =>
    obtain ⟨value, store⟩ := found
    cases h
    exact .inl ⟨value, rfl, rfl⟩
  | error error =>
    cases h
    exact .inr ⟨⟨error, rfl, rfl⟩, rfl⟩

/-- A rename that succeeds finds a record and puts another in its place. -/
theorem renameFile_ok {debug : String → String} {id filename : String} {renamed : ObjectMetadata}
    (h : known.renameFile debug id filename = .ok (renamed, after)) :
    ∃ digest existing, id = "blake3:" ++ digest ∧ known.records.lookup digest = some existing ∧
      after = known.putRecord digest renamed := by
  obtain ⟨name, -, h⟩ := bind_ok.mp h
  obtain ⟨digest, hid, h⟩ := bind_ok.mp h
  cases hfind : known.records.lookup digest with
  | none =>
    rw [hfind] at h
    cases h
  | some existing =>
    rw [hfind] at h
    obtain ⟨-, h⟩ := guard_ok.mp h
    cases h
    exact ⟨digest, existing, (validateId_ok.mp hid).1, hfind, rfl⟩

theorem id_eq {found : String} : "blake3:" ++ found = "blake3:" ++ digest ↔ digest = found :=
  ⟨fun heq => ((String.append_right_inj "blake3:").mp heq).symm, fun heq => heq ▸ rfl⟩

theorem recorded_step {entry : Entry LiveError Method Answer}
    (h : store.allows entry.method known entry.answer after) (digest : String) :
    after.records.lookup digest = store.recorded digest (known.records.lookup digest) entry ∧
      (known.records.lookup digest = none → ¬store.Stores digest entry.method →
        after.records.lookup digest = none) := by
  obtain ⟨place, method, answer⟩ := entry
  cases method with
  | put now kind mediaType filename content =>
    obtain ⟨rfl, rfl⟩ := Prod.mk.inj h
    have hlookup := @ObjectStore.lookup_put store.blake3 known now kind mediaType filename
      content.bytes digest
    refine ⟨hlookup, fun hnone hother => hlookup.trans ?_⟩
    rw [if_neg fun heq => hother heq.symm, hnone]
  | renameFile id filename =>
    rcases settled_ok h with ⟨renamed, hok, rfl⟩ | ⟨⟨error, -, rfl⟩, rfl⟩
    · obtain ⟨found, existing, rfl, hfind, rfl⟩ := renameFile_ok hok
      have hlookup := @ObjectStore.lookup_putRecord known found digest renamed
      simp only [recorded, id_eq]
      refine ⟨hlookup, fun hnone _ => ?_⟩
      rw [hlookup, if_neg, hnone]
      rintro rfl
      rw [hfind] at hnone
      cases hnone
    · exact ⟨rfl, fun hnone _ => hnone⟩
  | cacheAddressedBounded id content maxNewBytes =>
    rcases settled_ok h with ⟨created, hok, rfl⟩ | ⟨⟨error, -, rfl⟩, rfl⟩
    · obtain ⟨-, rfl | ⟨-, rfl⟩⟩ := ObjectStore.cacheAddressedBounded_ok _ _ hok
      · exact ⟨rfl, fun hnone _ => hnone⟩
      · exact ⟨rfl, fun hnone _ => hnone⟩
    · exact ⟨rfl, fun hnone _ => hnone⟩
  | metadata id =>
    obtain ⟨rfl, rfl⟩ := Prod.mk.inj h
    refine ⟨?_, fun hnone _ => hnone⟩
    cases known.metadata store.debug id <;> rfl
  | list kind =>
    obtain ⟨rfl, output, -, rfl⟩ := h
    exact ⟨rfl, fun hnone _ => hnone⟩
  | removeMetadata id =>
    rcases settled_ok h with ⟨⟨⟩, hok, rfl⟩ | ⟨⟨error, -, rfl⟩, rfl⟩
    · have hremoved : known.removeMetadata store.debug id = .ok after := by
        cases hresult : known.removeMetadata store.debug id with
        | error error =>
          rw [hresult] at hok
          cases hok
        | ok remaining =>
          rw [hresult] at hok
          cases hok
          rfl
      obtain ⟨found, rfl, rfl⟩ := ObjectStore.removeMetadata_ok hremoved
      simp only [recorded, id_eq, lookup_filter_ne]
      refine ⟨trivial, fun hnone _ => ?_⟩
      rw [hnone, ite_self]
    · exact ⟨rfl, fun hnone _ => hnone⟩

/-- Over a run of calls one after another, each record is as the last call left it that
stored, renamed or removed it. -/
theorem recorded_sequential {hcodec : ∀ metadata, store.fromSlice (store.toVecPretty metadata) = .ok metadata}
    {pid : Nat} {order : List (Entry LiveError Method Answer)}
    (h : Sequential (store.service hcodec pid).object order first last) (digest : String) :
    last.records.lookup digest =
        order.foldl (store.recorded digest) (first.records.lookup digest) ∧
      (first.records.lookup digest = none → (∀ entry ∈ order, ¬store.Stores digest entry.method) →
        last.records.lookup digest = none) := by
  induction order generalizing first with
  | nil =>
    obtain rfl := h
    exact ⟨rfl, fun hnone _ => hnone⟩
  | cons entry rest ih =>
    obtain ⟨next, hallows, hrest⟩ := h
    obtain ⟨hstep, habsent⟩ := recorded_step hallows digest
    obtain ⟨hlast, hgone⟩ := ih hrest
    refine ⟨?_, fun hnone hothers => hgone (habsent hnone ?_) fun other hother => ?_⟩
    · rw [hlast, hstep]
      rfl
    · exact hothers entry List.mem_cons_self
    · exact hothers other (List.mem_cons_of_mem _ hother)

/-- A record that is removed stays away until its contents are stored again. -/
theorem removed_sequential {hcodec : ∀ metadata, store.fromSlice (store.toVecPretty metadata) = .ok metadata}
    {pid : Nat} {before after : List (Entry LiveError Method Answer)}
    {entry : Entry LiveError Method Answer}
    (h : Sequential (store.service hcodec pid).object (before ++ entry :: after) first last)
    (hmethod : entry.method = .removeMetadata ("blake3:" ++ digest))
    (hanswer : entry.answer = .ok .removed)
    (hothers : ∀ later ∈ after, ¬store.Stores digest later.method) :
    last.records.lookup digest = none := by
  obtain ⟨middle, -, next, hallows, hafter⟩ := h.append
  refine (recorded_sequential hafter digest).2 ?_ hothers
  rw [(recorded_step hallows digest).1]
  simp [recorded, hmethod, hanswer]

/-- As long as every step finds what its call counts on, calls of one store side by side
answer as one after another, in an order that keeps to real time, and leave the files that
they leave one after another: each record as the last call left it that stored, renamed or
removed it. -/
theorem store_linearizes (store : DiskStore)
    (hcodec : ∀ metadata, store.fromSlice (store.toVecPretty metadata) = .ok metadata) (pid : Nat)
    {files : FileSystem} {first : ObjectStore}
    (hfirst : (store.service hcodec pid).discipline.rest files first)
    {system : System DirCall LiveError Method Answer FileSystem ObjectStore}
    (hreach : Reaches (Atomic.step (store.service hcodec pid).object)
      (Permitted (store.service hcodec pid).discipline) { state := files, done := first } system) :
    ∃ order last, Linearized (store.service hcodec pid).object first last system order ∧
      ((∀ task ∈ system.tasks, ∃ result, task.stage = .ended result) →
        store.Holds system.state last) ∧
      (∀ digest, last.records.lookup digest =
        order.foldl (store.recorded digest) (first.records.lookup digest)) ∧
      ∀ digest before (entry : Entry LiveError Method Answer) after,
        order = before ++ entry :: after → entry.method = .removeMetadata ("blake3:" ++ digest) →
        entry.answer = .ok .removed → (∀ later ∈ after, ¬store.Stores digest later.method) →
        last.records.lookup digest = none := by
  obtain ⟨hlinearized, hrest⟩ := linearized (@disciplined store hcodec pid) ⟨none, hfirst.1⟩ hfirst hreach
  refine ⟨system.log, system.done, hlinearized, fun hended => ?_,
    fun digest => (recorded_sequential hlinearized.sequential digest).1, ?_⟩
  · obtain ⟨hkept, hblobs⟩ := hrest hended
    exact ⟨hblobs, fun digest hvalid => hkept.file digest hvalid nofun⟩
  · intro digest before entry after horder hmethod hanswer hothers
    have hsequential := hlinearized.sequential
    rw [horder] at hsequential
    exact removed_sequential hsequential hmethod hanswer hothers

/-- One put on a store without anything in it, step by step. -/
def firstPut : List (Action Method (List String)) :=
  .start (.put 5 "file" "text/plain" (some "empty.txt") ⟨[], by decide⟩) ::
    List.replicate 12 (.move 0 [])

/-- The store's tasks are puts. -/
def onlyPuts (system : System DirCall LiveError Method Answer FileSystem ObjectStore)
    (_ : Action Method (List String)) : Bool :=
  system.tasks.all fun task => match task.method with
    | .put .. => true
    | _ => false

/-! The sample store with its one file. -/

def emptyDigest : String := hex emptyHash.toList

def emptyFiles : FileSystem :=
  ((FileSystem.write (fun _ => none) (sampleStore.blobPath emptyDigest) []).write
    (sampleStore.metadataPath emptyDigest) emptyFileRecord)

def emptyObjects : ObjectStore :=
  { blobs := [(emptyDigest, [])], records := [(emptyDigest, emptyFile)] }

def sampleService : Service (sampleStore.ledger sampleStore_reads) Method Answer :=
  sampleStore.service sampleStore_reads 7

def rerun : List (Action Method (List String)) :=
  [.start (.put 9 "file" "text/plain" (some "empty.txt") ⟨[], by decide⟩),
    .start (.removeMetadata ("blake3:" ++ emptyDigest)),
    .move 0 [], .move 0 [], .move 0 [],
    .move 1 [], .move 1 [], .move 1 [],
    .move 0 [], .move 0 [], .move 0 [], .move 0 [], .move 0 []]

def outcome (task : Task DirCall LiveError Method Answer ObjectStore) : Option (Option Answer) :=
  match task.stage with
  | .ended result => some result.toOption
  | _ => none

theorem outcome_some {task : Task DirCall LiveError Method Answer ObjectStore} {answer : Answer}
    (h : outcome task = some (some answer)) : task.stage = .ended (.ok answer) := by
  unfold outcome at h
  split at h
  · rename_i hstage
    rw [hstage, toOption_eq_some.mp (Option.some.inj h)]
  · cases h

theorem rerun_outcome :
    (run (Atomic.step sampleService.object) rerun { state := emptyFiles, done := emptyObjects }).map
        (fun system => (system.tasks.map fun task => (task.method, outcome task),
          system.state (sampleStore.metadataPath emptyDigest))) =
      some ([(.put 9 "file" "text/plain" (some "empty.txt") ⟨[], by decide⟩, some (some (.stored emptyFile))),
        (.removeMetadata ("blake3:" ++ emptyDigest), some (some .removed))], some emptyFileRecord) := by
  decide +kernel

theorem single_blob (digest other : String) (bytes : Contents) :
    ((FileSystem.write (fun _ => none) (store.blobPath digest) []).write (store.metadataPath digest)
      bytes) (store.blobPath other) = [(digest, [])].lookup other := by
  rw [FileSystem.write_other (blob_ne_metadata _ _)]
  by_cases hsame : other = digest
  · rw [hsame, FileSystem.write_same, List.lookup_cons_self]
  · rw [FileSystem.write_other (blobPath_injective.ne hsame), lookup_cons_ne hsame]
    rfl

/-- A store of one blob with its record. -/
theorem single_rest (hcodec : ∀ metadata, store.fromSlice (store.toVecPretty metadata) = .ok metadata)
    (pid : Nat) (hvalid : ValidDigest digest) {metadata : ObjectMetadata} {bytes : Contents}
    (hrecord : store.toVecPretty metadata = bytes) :
    (store.service hcodec pid).discipline.rest
      ((FileSystem.write (fun _ => none) (store.blobPath digest) []).write (store.metadataPath digest)
        bytes) { blobs := [(digest, [])], records := [(digest, metadata)] } := by
  have hnothing : (store.ledger hcodec).Kept none (fun _ => none) { blobs := [(digest, [])] } :=
    ⟨.nil, nofun, fun _ _ _ => rfl, nofun, nofun⟩
  have hblob : (store.ledger hcodec).Kept none
      (FileSystem.write (fun _ => none) (store.blobPath digest) []) { blobs := [(digest, [])] } := by
    refine hnothing.congr fun name _ => FileSystem.write_other ?_ _
    intro heq
    have := congrArg (fun path => path.directory.length) heq
    simp [ledger, blobPath] at this
  refine ⟨?_, fun other _ => single_blob digest other bytes⟩
  rw [← hrecord]
  exact hblob.stored (.inl rfl) hvalid rfl

theorem emptyFiles_rest : sampleService.discipline.rest emptyFiles emptyObjects :=
  single_rest sampleStore_reads 7 (hexDigest_valid sampleStore.blake3 []) (by simp [sampleStore])

theorem store_linearizes_sample : ∃ system,
    checked (Atomic.step sampleService.object) onlyPuts firstPut
        { state := fun _ => none, done := {} } = some system ∧
      ∃ order last, Linearized sampleService.object {} last system order ∧
        ((∀ task ∈ system.tasks, ∃ result, task.stage = .ended result) →
          sampleStore.Holds system.state last) ∧
        (∀ digest, last.records.lookup digest = order.foldl (sampleStore.recorded digest) none) ∧
        ∀ digest before (entry : Entry LiveError Method Answer) after,
          order = before ++ entry :: after → entry.method = .removeMetadata ("blake3:" ++ digest) →
          entry.answer = .ok .removed → (∀ later ∈ after, ¬sampleStore.Stores digest later.method) →
          last.records.lookup digest = none := by
  have hran : ((checked (Atomic.step sampleService.object) onlyPuts firstPut
      { state := fun _ => none, done := {} }).isSome : Bool) = true := by decide
  obtain ⟨system, hsystem⟩ := Option.isSome_iff_exists.mp hran
  have hempty : sampleService.discipline.rest (fun _ => none) {} :=
    ⟨⟨.nil, nofun, fun _ _ _ => rfl, nofun, nofun⟩, fun _ _ => rfl⟩
  refine ⟨system, hsystem, store_linearizes sampleStore sampleStore_reads 7 hempty
    (Reaches.start.checked (fun before action hcheck => ?_) hsystem)⟩
  cases action with
  | start method => trivial
  | move place names =>
    intro task htask
    have hput := List.all_eq_true.mp hcheck task (List.mem_of_getElem? htask)
    cases hmethod : task.method with
    | put now kind mediaType filename content =>
      split
      · exact trivial
      · trivial
    | _ => simp [hmethod] at hput

/-- A removal between the look and the last step of a second put answers that the record is
gone, and the put brings it back. -/
theorem removed_record_returns : sampleService.discipline.rest emptyFiles emptyObjects ∧
    ∃ system, run (Atomic.step sampleService.object) rerun
        { state := emptyFiles, done := emptyObjects } = some system ∧
      ¬∃ order last, Linearized sampleService.object emptyObjects last system order ∧
        ((∀ task ∈ system.tasks, ∃ result, task.stage = .ended result) →
          sampleStore.Holds system.state last) := by
  refine ⟨emptyFiles_rest, ?_⟩
  obtain ⟨system, hrun, houtcome⟩ := Option.map_eq_some_iff.mp rerun_outcome
  refine ⟨system, hrun, ?_⟩
  rintro ⟨order, last, hlinearized, hfiles⟩
  obtain ⟨htasks, hrecord⟩ := Prod.mk.inj houtcome
  obtain ⟨left, others, hsplit, hleft, hothers⟩ := List.map_eq_cons_iff.mp htasks
  obtain ⟨right, none, rfl, hright, hnone⟩ := List.map_eq_cons_iff.mp hothers
  obtain rfl := List.map_eq_nil_iff.mp hnone
  obtain ⟨hput, hstored⟩ := Prod.mk.inj hleft
  obtain ⟨hremove, hremoved⟩ := Prod.mk.inj hright
  have hholds := hfiles (by
    rw [hsplit]
    intro task hmem
    rcases List.mem_cons.mp hmem with rfl | hmem
    · exact ⟨_, outcome_some hstored⟩
    · obtain rfl := List.mem_singleton.mp hmem
      exact ⟨_, outcome_some hremoved⟩)
  rcases hlinearized.pair hsplit (outcome_some hstored) (outcome_some hremoved) with rfl | rfl
  · -- the removal last: the record is not there
    have hgone := @removed_sequential _ _ _ _ _ _ [_] [] _ hlinearized.sequential hremove rfl
      fun _ hmem => nomatch hmem
    have hfile := hholds.records emptyDigest (by decide)
    rw [hrecord, hgone] at hfile
    cases hfile
  · -- the put last: its record is as new as its clock
    obtain ⟨middle, hfirst, after, hsecond, -⟩ := hlinearized.sequential
    have hgone := (recorded_step hfirst emptyDigest).1
    simp only [recorded, hremove, ↓reduceIte] at hgone
    rw [hput] at hsecond
    obtain ⟨hanswer, -⟩ := Prod.mk.inj hsecond
    have hmetadata := Answer.stored.inj (Except.ok.inj hanswer)
    have hcreated := congrArg ObjectMetadata.createdAtMillis hmetadata
    dsimp only at hcreated
    rw [show hexDigest sampleStore.blake3 [] = emptyDigest from rfl, hgone] at hcreated
    exact absurd hcreated (by decide)

end DiskStore
end HologramLive.Store
