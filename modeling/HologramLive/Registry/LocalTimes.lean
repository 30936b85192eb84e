import HologramLive.Lib.Sequence
import HologramLive.Registry.Provider

/-! The creation times the object store has on record, and what one provider's calls make
of them. -/

namespace HologramLive.Registry.Local
open Lib Lib.Files Lib.Sequence Store

section Files
variable {allows : ∀ {β : Type}, FileCall β → Lib.Files.Verdict → FileSystem → Prop}
  {files : FileSystem}

theorem meets_attempt {post : Except ε γ → FileSystem → Prop}
    {operation : FileCall (Except IoError β)} {mapErr : IoError → ε} {rest : β → FileProgram ε γ}
    (hgranted : Program.Meets Lib.Files.serve allows post
      (onReply mapErr (files.granted operation).1 >>= rest) (files.granted operation).2)
    (hrefused : ∀ error written, allows operation (.refused error written) files →
      ∃ report, (files.refused error written operation).1 = .error report ∧
        post (.error (mapErr report)) (files.refused error written operation).2) :
    Program.Meets Lib.Files.serve allows post (attempt operation mapErr >>= rest) files := by
  intro verdict hallowed
  cases verdict with
  | granted => exact hgranted
  | refused error written =>
    obtain ⟨report, hreport, hpost⟩ := hrefused error written hallowed
    change Program.Meets Lib.Files.serve allows post
      (onReply mapErr (files.refused error written operation).1 >>= rest) _
    rw [hreport]
    exact hpost

theorem meets_pathExists {post : Except ε γ → FileSystem → Prop} {path : Path}
    {rest : Bool → FileProgram ε γ}
    (h : ∀ verdict, Program.Meets Lib.Files.serve allows post (rest (found verdict files path)) files) :
    Program.Meets Lib.Files.serve allows post (pathExists path >>= rest) files := by
  rw [pathExists_bind]
  intro verdict _
  obtain ⟨hfound, hfiles⟩ := serve_metadata verdict files path
  simp only [hfound, hfiles]
  exact h verdict

variable {pid : Nat} {path : Path} {new : Contents} {lost : Prop}

/-- A write that is refused leaves the old file where it is, unless that is lost with the
move of the new one. -/
def Replaced (pid : Nat) (path : Path) (new : Contents) (lost : Prop) (files : FileSystem)
    (result : Except LiveError Unit) (state : FileSystem) : Prop :=
  Updating pid path new files state ∧
    match result with
    | .ok () => state path = some new
    | .error _ => state path = files path ∨ lost

theorem rename_meets {state : FileSystem}
    (hmove : ∀ error written state, allows (.rename (temporaryFor pid path) path)
      (.refused error written) state → state path = none → lost)
    (h : Updating pid path new files state)
    (htemporary : state (temporaryFor pid path) = some new)
    (hold : state path = files path ∨ state path = none) :
    (attempt (.rename (temporaryFor pid path) path) (ioError path.display)).Meets Lib.Files.serve
      allows (Replaced pid path new lost files) state := by
  intro verdict hallowed
  cases verdict with
  | granted =>
    simp only [serve_granted, FileSystem.granted, htemporary]
    exact ⟨h.moved, FileSystem.write_same ..⟩
  | refused error written =>
    refine ⟨h, ?_⟩
    rcases hold with hkept | hremoved
    · exact .inl hkept
    · exact .inr (hmove error written state hallowed hremoved)

theorem atomicWrite_meets
    (hmove : ∀ error written state, allows (.rename (temporaryFor pid path) path)
      (.refused error written) state → state path = none → lost) :
    (atomicWrite pid path new).Meets Lib.Files.serve allows (Replaced pid path new lost files)
      files := by
  apply meets_attempt
  case hrefused => exact fun error _ _ => ⟨error, rfl, .start, .inl rfl⟩
  apply meets_attempt
  case hrefused =>
    intro error written _
    refine ⟨error, rfl, ?_⟩
    cases written with
    | none => exact ⟨.start, .inl rfl⟩
    | some count =>
      exact ⟨Updating.start.scratched _,
        .inl (FileSystem.write_other (temporaryFor_ne pid path).symm _)⟩
  have hwritten : Updating pid path new files (files.write (temporaryFor pid path) new) :=
    Updating.start.scratched _
  have htemporary : files.write (temporaryFor pid path) new (temporaryFor pid path) = some new :=
    FileSystem.write_same ..
  have hkept : files.write (temporaryFor pid path) new path = files path :=
    FileSystem.write_other (temporaryFor_ne pid path).symm _
  refine @meets_pathExists _ (files.write (temporaryFor pid path) new) _ _ _ _ _ ?_
  intro verdict
  cases hfound : found verdict (files.write (temporaryFor pid path) new) path with
  | false => exact rename_meets hmove hwritten htemporary (.inl hkept)
  | true =>
    apply meets_attempt
    case hrefused => exact fun error _ _ => ⟨error, rfl, hwritten, .inl hkept⟩
    have hthere : ∃ old, files.write (temporaryFor pid path) new path = some old := by
      cases verdict with
      | granted => exact Option.isSome_iff_exists.mp hfound
      | refused error written => cases hfound
    obtain ⟨old, hold⟩ := hthere
    simp only [FileSystem.granted, hold]
    refine rename_meets hmove hwritten.removed ?_ (.inr (FileSystem.remove_same ..))
    rw [FileSystem.remove_other (temporaryFor_ne pid path), htemporary]

end Files

variable (store : DiskStore)

/-- The time on record under a digest. -/
def timeOf (files : FileSystem) (digest : String) : Option Nat :=
  (files (store.metadataPath digest)).bind fun bytes =>
    (store.fromSlice bytes).toOption.map ObjectMetadata.createdAtMillis

def recordOf (files : FileSystem) (id : String) : Option Nat :=
  (validateId store.debug id).toOption.bind (timeOf store files)

def inMetadata (name : String) : Path := { directory := store.root ++ ["metadata"], name }

/-- Every record is in the file of the object it describes. -/
def Filed (files : FileSystem) : Prop :=
  ∀ name bytes metadata, fileExtension name = some "json" →
    files (inMetadata store name) = some bytes → store.fromSlice bytes = .ok metadata →
      ∃ digest, ValidDigest digest ∧ name = digest ++ ".json" ∧ metadata.id = "blake3:" ++ digest

/-- A put that cannot read the record goes by the time on it all the same, and the move of
a new record is refused only while the old one is there. -/
def Recalled (call : LocalCall) (base : FileSystem) :
    ∀ {β : Type}, FileCall β → Lib.Files.Verdict → FileSystem → Prop
  | _, .read path, .refused _ _, _ =>
    match call.request with
    | .putObject _ _ _ bytes => ∀ time, path = store.metadataPath (hexDigest store.blake3 bytes) →
      timeOf store base (hexDigest store.blake3 bytes) = some time → call.now = time
    | _ => True
  | _, .rename _ target, .refused _ _, files => ∀ digest time, target = store.metadataPath digest →
      timeOf store base digest = some time → (files target).isSome
  | _, _, _, _ => True

def RecalledLocally (call : LocalCall) (base : FileSystem) :
    ∀ {β : Type}, DirCall β → LocalVerdict → FileSystem → Prop
  | _, .left operation, verdict, files => Recalled store call base operation verdict.file files
  | _, .right _, _, _ => True

/-- The records are as they were. -/
def SameRecords (before after : FileSystem) : Prop :=
  ∀ name, fileExtension name = some "json" →
    after (inMetadata store name) = before (inMetadata store name)

section Records
variable {store} {base before state : FileSystem} {pid : Nat} {digest : String}

theorem SameRecords.refl (files : FileSystem) : SameRecords store files files := fun _ _ => rfl

theorem SameRecords.filed (h : SameRecords store before state) (hfiled : Filed store before) :
    Filed store state := by
  intro name bytes metadata hname hfile
  rw [h name hname] at hfile
  exact hfiled name bytes metadata hname hfile

theorem SameRecords.timeOf_eq (h : SameRecords store before state) (hvalid : ValidDigest digest) :
    timeOf store state digest = timeOf store before digest := by
  have hfile : state (store.metadataPath digest) = before (store.metadataPath digest) :=
    h _ (extension_record hvalid)
  rw [timeOf, timeOf, hfile]

theorem recordOf_ok {id : String} (h : validateId store.debug id = .ok digest) (files : FileSystem) :
    recordOf store files id = timeOf store files digest := by
  rw [recordOf, h]
  rfl

theorem recordOf_some {id : String} {time : Nat} (h : recordOf store base id = some time) :
    ∃ digest, validateId store.debug id = .ok digest ∧ ValidDigest digest ∧
      timeOf store base digest = some time := by
  obtain ⟨digest, hdigest, htime⟩ := Option.bind_eq_some_iff.mp h
  have hok := Result.toOption_eq_some.mp hdigest
  exact ⟨digest, hok, (validateId_ok.mp hok).2, htime⟩

theorem SameRecords.recordOf_eq (h : SameRecords store before state) (id : String) :
    recordOf store state id = recordOf store before id := by
  cases hid : validateId store.debug id with
  | error error => simp [recordOf, hid, Except.toOption]
  | ok digest =>
    rw [recordOf_ok hid, recordOf_ok hid]
    exact h.timeOf_eq (validateId_ok.mp hid).2

/-- What is written to a file of another kind leaves the records alone. -/
theorem SameRecords.updated {path : Path} {new : Contents} (h : SameRecords store base before)
    (hupdate : Updating pid path new before state)
    (hpath : ∀ name, inMetadata store name ≠ path) : SameRecords store base state := by
  intro name hname
  rw [hupdate.others _ (hpath name) ?_, h name hname]
  intro htemporary
  have := temporaryFor_not_json pid path
  rw [← htemporary] at this
  exact this hname

variable {metadata : ObjectMetadata} {new : Contents}

theorem Filed.updated (h : Filed store before)
    (hupdate : Updating pid (store.metadataPath digest) new before state)
    (hvalid : ValidDigest digest) (hnew : store.fromSlice new = .ok metadata)
    (hid : metadata.id = "blake3:" ++ digest) : Filed store state := by
  intro name bytes shown hname hfile hshown
  by_cases hpath : inMetadata store name = store.metadataPath digest
  · rw [hpath] at hfile
    rcases hupdate.target with hsame | hnone | hwritten
    · rw [hsame, ← hpath] at hfile
      exact h name bytes shown hname hfile hshown
    · rw [hnone] at hfile
      cases hfile
    · rw [hwritten] at hfile
      obtain rfl := Option.some.inj hfile
      obtain rfl : metadata = shown := Except.ok.inj (hnew.symm.trans hshown)
      exact ⟨digest, hvalid, congrArg Path.name hpath, hid⟩
  · rw [hupdate.others _ hpath ?_] at hfile
    · exact h name bytes shown hname hfile hshown
    · intro htemporary
      have := temporaryFor_not_json pid (store.metadataPath digest)
      rw [← htemporary] at this
      exact this hname

theorem timeOf_updated (hupdate : Updating pid (store.metadataPath digest) new before state)
    (hnew : store.fromSlice new = .ok metadata)
    (htime : ∀ time, timeOf store before digest = some time → metadata.createdAtMillis = time)
    (hthere : state (store.metadataPath digest) = none → timeOf store before digest = none)
    {id : String} {time : Nat} (hrecord : recordOf store before id = some time) :
    recordOf store state id = some time := by
  obtain ⟨other, hid, hother, hbefore⟩ := recordOf_some hrecord
  rw [recordOf_ok hid]
  by_cases hpath : store.metadataPath other = store.metadataPath digest
  · obtain rfl := DiskStore.metadataPath_injective hpath
    rcases hupdate.target with hsame | hnone | hwritten
    · rw [timeOf, hsame]
      exact hbefore
    · rw [hthere hnone] at hbefore
      cases hbefore
    · rw [timeOf, hwritten, Option.bind_some, hnew]
      exact congrArg some (htime time hbefore)
  · rw [timeOf, DiskStore.metadata_unmoved hupdate hother hpath]
    exact hbefore

end Records

section Calls
variable {store} {call : LocalCall} {base before files : FileSystem} {pid : Nat}

/-- An object as it is shown. -/
def shown (metadata : ObjectMetadata) : List (String × Nat) :=
  [(metadata.id, metadata.createdAtMillis)]

theorem SameRecords.keeps {shows : α → List (String × Nat)} {result : Except LiveError α}
    (h : SameRecords store base files) (hfiled : Filed store base)
    (hshows : ∀ value, result = .ok value → ∀ entry ∈ shows value,
      recordOf store base entry.1 = some entry.2) :
    Keeps shows (recordOf store) (Filed store) base result files :=
  ⟨h.filed hfiled, fun id _ hold => (h.recordOf_eq id).trans hold,
    fun value hvalue entry hentry => (h.recordOf_eq _).trans (hshows value hvalue entry hentry)⟩

theorem SameRecords.fails {shows : α → List (String × Nat)} (h : SameRecords store base files)
    (hfiled : Filed store base) (error : LiveError) :
    Keeps shows (recordOf store) (Filed store) base (.error error) files :=
  h.keeps hfiled fun _ hvalue => by cases hvalue

/-- Writing a record that names its object and keeps to the time on record. -/
theorem writeRecord_meets (hcodec : ∀ metadata, store.fromSlice (store.toVecPretty metadata) = .ok metadata)
    (hfiled : Filed store base) (h : SameRecords store base before) {digest : String}
    (hvalid : ValidDigest digest) {metadata : ObjectMetadata} (hid : metadata.id = "blake3:" ++ digest)
    (htime : ∀ time, timeOf store base digest = some time → metadata.createdAtMillis = time) :
    (atomicWrite pid (store.metadataPath digest) (store.toVecPretty metadata) >>= fun _ =>
      .done metadata).Meets Lib.Files.serve (Recalled store call base)
      (Keeps shown (recordOf store) (Filed store) base) before := by
  have hkeeps : ∀ {state : FileSystem},
      Updating pid (store.metadataPath digest) (store.toVecPretty metadata) before state →
      (state (store.metadataPath digest) = none → timeOf store before digest = none) →
      Filed store state ∧ ∀ id time, recordOf store base id = some time →
        recordOf store state id = some time := by
    intro state hupdate hthere
    refine ⟨(h.filed hfiled).updated hupdate hvalid (hcodec metadata) hid, fun id time hold => ?_⟩
    refine timeOf_updated hupdate (hcodec metadata) ?_ hthere ((h.recordOf_eq id).trans hold)
    rw [h.timeOf_eq hvalid]
    exact htime
  refine Program.Meets.bind _ (@atomicWrite_meets _ before pid (store.metadataPath digest)
    (store.toVecPretty metadata) (timeOf store base digest = none) ?_) ?_ ?_
  · intro error written state hrecalled hgone
    cases hrecord : timeOf store base digest with
    | none => rfl
    | some time =>
      have hthere := hrecalled digest time rfl hrecord
      rw [hgone] at hthere
      cases hthere
  · rintro _ state ⟨hupdate, hplaced⟩
    dsimp only at hplaced
    obtain ⟨hafter, hold⟩ := hkeeps hupdate fun hgone => by
      rw [hplaced] at hgone
      cases hgone
    refine ⟨hafter, hold, fun value hvalue entry hentry => ?_⟩
    obtain rfl := Except.ok.inj hvalue
    obtain rfl := List.mem_singleton.mp hentry
    rw [recordOf_ok (validateId_ok.mpr ⟨hid, hvalid⟩), timeOf, hplaced, Option.bind_some, hcodec]
    rfl
  · rintro error state ⟨hupdate, hplaced⟩
    obtain ⟨hafter, hold⟩ := hkeeps hupdate fun hgone => by
      rw [h.timeOf_eq hvalid]
      rcases hplaced with hkept | hlost
      · rw [← h.timeOf_eq hvalid, timeOf, ← hkept, hgone]
        rfl
      · exact hlost
    exact ⟨hafter, hold, fun _ hvalue => by cases hvalue⟩

/-- A put of these bytes reads the time on record, or goes by it all the same. -/
theorem readMetadata_meets {kind mediaType : String} {filename : Option String} {bytes : Bytes}
    (hcall : call.request = .putObject kind mediaType filename bytes)
    (h : SameRecords store base files) :
    (store.readMetadata (hexDigest store.blake3 bytes)).Meets Lib.Files.serve
      (Recalled store call base)
      (fun result state => state = files ∧ ∃ existing, result = .ok existing ∧
        ∀ time, timeOf store base (hexDigest store.blake3 bytes) = some time →
          (existing.map ObjectMetadata.createdAtMillis).getD call.now = time) files := by
  have hvalid := hexDigest_valid store.blake3 bytes
  intro verdict hrecalled
  cases verdict with
  | refused error written =>
    refine ⟨rfl, _, rfl, fun time htime => ?_⟩
    unfold Recalled at hrecalled
    dsimp only at hrecalled
    rw [hcall] at hrecalled
    exact hrecalled time rfl htime
  | granted =>
    simp only [serve_granted, FileSystem.granted]
    cases hfile : files (store.metadataPath (hexDigest store.blake3 bytes)) with
    | none =>
      refine ⟨rfl, _, rfl, fun time htime => ?_⟩
      rw [← h.timeOf_eq hvalid, timeOf, hfile] at htime
      cases htime
    | some record =>
      refine ⟨rfl, _, rfl, fun time htime => ?_⟩
      rw [← h.timeOf_eq hvalid, timeOf, hfile, Option.bind_some] at htime
      dsimp only
      rw [htime]
      rfl

theorem ensureBlob_meets (h : SameRecords store base files) (digest : String) (bytes : Bytes) :
    (DiskStore.ensureBlob pid (store.blobPath digest) bytes).Meets Lib.Files.serve
      (Recalled store call base) (fun _ => SameRecords store base) files := by
  apply meets_pathExists
  intro verdict
  split
  · have hmove : ∀ error written state, Recalled store call base
        (.rename (temporaryFor pid (store.blobPath digest)) (store.blobPath digest))
        (.refused error written) state → state (store.blobPath digest) = none → True :=
      fun _ _ _ _ _ => trivial
    refine (atomicWrite_meets hmove).mono fun result state hreplaced => ?_
    refine h.updated hreplaced.1 fun name hname => ?_
    have := congrArg (fun path => path.directory.length) hname
    simp [inMetadata, DiskStore.blobPath] at this
  · exact h

theorem put_meets (hcodec : ∀ metadata, store.fromSlice (store.toVecPretty metadata) = .ok metadata)
    (hfiled : Filed store base) {kind mediaType : String} {filename : Option String} {bytes : Bytes}
    (hcall : call.request = .putObject kind mediaType filename bytes) :
    (store.put pid call.now kind mediaType filename bytes).Meets Lib.Files.serve
      (Recalled store call base) (Keeps shown (recordOf store) (Filed store) base) base := by
  refine Program.Meets.bind _ (ensureBlob_meets (SameRecords.refl base) _ bytes) ?_ ?_
  · intro _ files hfiles
    refine Program.Meets.bind _ (readMetadata_meets hcall hfiles) ?_ ?_
    · rintro existing state ⟨rfl, _, ⟨⟩, htime⟩
      refine writeRecord_meets hcodec hfiled hfiles (hexDigest_valid ..) rfl fun time hold => ?_
      rw [← htime time hold]
      cases existing <;> rfl
    · rintro error state ⟨_, _, ⟨⟩, _⟩
  · intro error files hfiles
    exact hfiles.fails hfiled error

/-- What is read of a record's file is on record. -/
theorem Filed.read (h : Filed store base) {name : String} {record : Contents}
    {metadata : ObjectMetadata} (hname : fileExtension name = some "json")
    (hfile : base (inMetadata store name) = some record)
    (hdecode : store.fromSlice record = .ok metadata) :
    recordOf store base metadata.id = some metadata.createdAtMillis := by
  obtain ⟨digest, hvalid, rfl, hid⟩ := h name record metadata hname hfile hdecode
  have hpath : base (store.metadataPath digest) = some record := hfile
  rw [recordOf_ok (validateId_ok.mpr ⟨hid, hvalid⟩), timeOf, hpath, Option.bind_some, hdecode]
  rfl

/-- Reading the record of an id, as a rename and a lookup do. -/
theorem record_meets {rest : Contents → FileProgram LiveError α}
    {post : Except LiveError α → FileSystem → Prop} {mapErr : IoError → LiveError} {digest : String}
    (hfail : ∀ error, post (.error error) base)
    (h : ∀ record, base (store.metadataPath digest) = some record →
      (rest record).Meets Lib.Files.serve (Recalled store call base) post base) :
    (attempt (.read (store.metadataPath digest)) mapErr >>= rest).Meets Lib.Files.serve
      (Recalled store call base) post base := by
  apply meets_attempt
  · simp only [FileSystem.granted]
    cases hfile : base (store.metadataPath digest) with
    | none => exact hfail _
    | some record => exact h record hfile
  · exact fun error _ _ => ⟨error, rfl, hfail _⟩

theorem renameFile_meets
    (hcodec : ∀ metadata, store.fromSlice (store.toVecPretty metadata) = .ok metadata)
    (hfiled : Filed store base) (id filename : String) :
    (store.renameFile pid id filename).Meets Lib.Files.serve (Recalled store call base)
      (Keeps shown (recordOf store) (Filed store) base) base := by
  have hfails : ∀ error, Keeps shown (recordOf store) (Filed store) base (.error error) base :=
    (SameRecords.refl base).fails hfiled
  refine Program.Meets.ofExcept (fun error _ => hfails error) fun name _ => ?_
  refine Program.Meets.ofExcept (fun error _ => hfails error) fun digest hdigest => ?_
  obtain ⟨_, hvalid⟩ := validateId_ok.mp hdigest
  refine record_meets hfails fun record hfile => ?_
  refine Program.Meets.ofExcept (fun error _ => hfails error) fun metadata hmetadata => ?_
  have hdecode := Result.mapError_ok.mp hmetadata
  have hname := extension_record hvalid
  obtain ⟨other, _, hother, hid⟩ := hfiled _ record metadata hname hfile hdecode
  obtain rfl : digest = other := by simpa using hother
  split
  · exact hfails _
  · refine writeRecord_meets hcodec hfiled (SameRecords.refl base) hvalid hid fun time htime => ?_
    have hpath : base (store.metadataPath digest) = some record := hfile
    rw [timeOf, hpath, Option.bind_some, hdecode] at htime
    exact Option.some.inj htime

theorem metadata_meets {id : String} {post : Except LiveError ObjectMetadata → FileSystem → Prop}
    (hfiled : Filed store base) (hfail : ∀ error, post (.error error) base)
    (h : ∀ metadata, recordOf store base metadata.id = some metadata.createdAtMillis →
      post (.ok metadata) base) :
    (store.metadata id).Meets Lib.Files.serve (Recalled store call base) post base := by
  refine Program.Meets.ofExcept (fun error _ => hfail error) fun digest hdigest => ?_
  refine record_meets hfail fun record hfile => ?_
  cases hdecode : store.fromSlice record with
  | error error => exact hfail _
  | ok metadata =>
    have hname := extension_record (validateId_ok.mp hdigest).2
    exact h metadata (hfiled.read hname hfile hdecode)

theorem getObject_meets (hfiled : Filed store base) (id : String) :
    (getObject store id).Meets Lib.Files.serve (Recalled store call base)
      (Keeps (fun content => shown content.metadata) (recordOf store) (Filed store) base) base := by
  have hfails : ∀ error, Keeps (fun content : KappaSteps.ObjectContent => shown content.metadata)
      (recordOf store) (Filed store) base (.error error) base :=
    (SameRecords.refl base).fails hfiled
  have hbytes : (getBytes store id).Meets Lib.Files.serve (Recalled store call base)
      (fun _ state => state = base) base := by
    refine Program.Meets.ofExcept (fun _ _ => rfl) fun digest _ verdict _ => ?_
    cases verdict with
    | refused error written => rfl
    | granted =>
      simp only [serve_granted, FileSystem.granted]
      cases base (store.blobPath digest) <;> exact rfl
  refine Program.Meets.bind _ hbytes ?_ ?_
  · rintro bytes state rfl
    refine Program.Meets.ofExcept (fun error _ => hfails error) fun _ _ => ?_
    have hrecord := @metadata_meets store call state id
      (fun result after => after = state ∧ ∀ metadata, result = .ok metadata →
        recordOf store state metadata.id = some metadata.createdAtMillis) hfiled
      (fun _ => ⟨rfl, fun _ hvalue => by cases hvalue⟩)
      (fun metadata hmetadata => ⟨rfl, fun _ hvalue => Except.ok.inj hvalue ▸ hmetadata⟩)
    refine Program.Meets.bind _ hrecord ?_ ?_
    · rintro metadata after ⟨rfl, hmetadata⟩
      refine (SameRecords.refl after).keeps hfiled fun value hvalue entry hentry => ?_
      obtain rfl := Except.ok.inj hvalue
      obtain rfl := List.mem_singleton.mp hentry
      exact hmetadata metadata rfl
    · rintro error after ⟨rfl, _⟩
      exact hfails error
  · rintro error state rfl
    exact hfails error

/-- What the directory's records are read as is on record. -/
theorem readRecords_meets (hfiled : Filed store base) (wanted : ObjectMetadata → Bool)
    (entries : List (Except IoError String)) :
    (readRecords (store.root ++ ["metadata"]) store.fromSlice wanted entries).Meets serve
      (RecalledLocally store call base)
      (fun result state => state = base ∧ ∀ output, result = .ok output → ∀ metadata ∈ output,
        recordOf store base metadata.id = some metadata.createdAtMillis) base := by
  induction entries with
  | nil =>
    refine ⟨rfl, fun output houtput metadata hmem => ?_⟩
    obtain rfl := Except.ok.inj houtput
    cases hmem
  | cons entry rest ih =>
    have hfails : ∀ error : LiveError, base = base ∧
        ∀ output, (Except.error error : Except LiveError (List ObjectMetadata)) = .ok output →
          ∀ metadata ∈ output, recordOf store base metadata.id = some metadata.createdAtMillis :=
      fun _ => ⟨rfl, fun _ houtput => by cases houtput⟩
    refine Program.Meets.ofExcept (fun error _ => hfails error) fun name _ => ?_
    split
    · exact ih
    · rename_i hname
      have hjson : fileExtension name = some "json" := not_not.mp hname
      have hread : ((attempt (.read { directory := store.root ++ ["metadata"], name })
          (ioError (Path.display { directory := store.root ++ ["metadata"], name })) :
          FileProgram LiveError Contents).translate .left).Meets serve
          (RecalledLocally store call base) (fun result state => state = base ∧
            ∀ record, result = .ok record → base (inMetadata store name) = some record) base := by
        intro verdict _
        rcases verdict with ⟨file, listing⟩
        cases file with
        | refused error written => exact ⟨rfl, fun _ hrecord => by cases hrecord⟩
        | granted =>
          simp only [serve, serve_granted, FileSystem.granted, inMetadata]
          cases base { directory := store.root ++ ["metadata"], name } with
          | none => exact ⟨rfl, fun _ hrecord => by cases hrecord⟩
          | some record => exact ⟨rfl, fun _ hrecord => congrArg some (Except.ok.inj hrecord)⟩
      refine Program.Meets.bind _ hread ?_ ?_
      · rintro record state ⟨rfl, hfile⟩
        refine Program.Meets.ofExcept (fun error _ => hfails error) fun metadata hmetadata => ?_
        have hdecode := Result.mapError_ok.mp hmetadata
        refine Program.Meets.bind _ ih ?_ ?_
        · rintro output state ⟨rfl, houtput⟩
          refine ⟨rfl, fun shown hshown listed hmem => ?_⟩
          obtain rfl := Except.ok.inj hshown
          split at hmem
          · rcases List.mem_cons.mp hmem with rfl | hrest
            · exact hfiled.read hjson (hfile record rfl) hdecode
            · exact houtput output rfl listed hrest
          · exact houtput output rfl listed hmem
        · rintro error state ⟨rfl, _⟩
          exact hfails error
      · rintro error state ⟨rfl, _⟩
        exact hfails error

theorem list_meets (hfiled : Filed store base) (kind : Option String) :
    (store.list kind).Meets serve (RecalledLocally store call base)
      (fun result state => state = base ∧ ∀ objects, result = .ok objects → ∀ metadata ∈ objects,
        recordOf store base metadata.id = some metadata.createdAtMillis) base := by
  intro verdict _
  simp only [serve]
  refine Program.Meets.ofExcept (fun _ _ => ⟨rfl, fun _ hvalue => by cases hvalue⟩) fun entries _ => ?_
  refine Program.Meets.bind _ (readRecords_meets hfiled (DiskStore.wanted kind) entries) ?_ ?_
  · rintro output state ⟨rfl, houtput⟩
    refine ⟨rfl, fun objects hobjects metadata hmem => ?_⟩
    obtain rfl := Except.ok.inj hobjects
    exact houtput output rfl metadata ((List.mem_insertionSort _).mp hmem)
  · rintro error state ⟨rfl, _⟩
    exact ⟨rfl, fun _ hvalue => by cases hvalue⟩

/-- The scan shows records it was given. -/
theorem scan_mem {query : ObjectQuery} {records objects : List ObjectMetadata}
    {metadata : ObjectMetadata} (h : metadata ∈ (scan query records objects).1) :
    metadata ∈ objects ∨ metadata ∈ records := by
  induction records generalizing objects with
  | nil => exact .inl h
  | cons record rest ih =>
    have hrest : ∀ {objects : List ObjectMetadata}, metadata ∈ (scan query rest objects).1 →
        metadata ∈ objects ∨ metadata ∈ record :: rest := fun hmem =>
      (ih hmem).imp_right (List.mem_cons_of_mem _)
    rw [scan] at h
    split at h
    · exact hrest h
    · split at h
      · exact hrest h
      · split at h
        · exact .inl h
        · rcases hrest h with hbefore | hmem
          · rcases List.mem_append.mp hbefore with hbefore | hnew
            · exact .inl hbefore
            · exact .inr (List.mem_singleton.mp hnew ▸ List.mem_cons_self)
          · exact .inr hmem

theorem search_meets (hfiled : Filed store base) (query : ObjectQuery) :
    (search store query).Meets serve (RecalledLocally store call base)
      (fun result state => state = base ∧ ∀ page, result = .ok page → ∀ metadata ∈ page.objects,
        recordOf store base metadata.id = some metadata.createdAtMillis) base := by
  refine Program.Meets.bind _ (list_meets hfiled none) ?_ ?_
  · rintro objects state ⟨rfl, hlisted⟩
    refine ⟨rfl, fun page hpage metadata hmem => ?_⟩
    obtain rfl := Except.ok.inj hpage
    rcases scan_mem hmem with hnone | hmem
    · cases hnone
    · exact hlisted objects rfl metadata ((List.mem_insertionSort _).mp hmem)
  · rintro error state ⟨rfl, _⟩
    exact ⟨rfl, fun _ hvalue => by cases hvalue⟩

/-- The times on record stay, those of the objects shown among them. -/
abbrev KeepsTimes (store : DiskStore) (base : FileSystem) :
    Except LiveError Answer → FileSystem → Prop :=
  Keeps Answer.times (recordOf store) (Filed store) base

/-- A program on files as part of a call, with what it shows in the call's answer. -/
theorem shown_meets {program : FileProgram LiveError α} {shows : α → List (String × Nat)}
    {answers : α → Answer} (hshows : ∀ value, (answers value).times = shows value)
    (h : program.Meets Lib.Files.serve (Recalled store call base)
      (Keeps shows (recordOf store) (Filed store) base) base) :
    (program.translate .left >>= fun value => .done (answers value)).Meets serve
      (RecalledLocally store call base) (KeepsTimes store base) base := by
  have hlocal : (program.translate .left).Meets serve (RecalledLocally store call base)
      (Keeps shows (recordOf store) (Filed store) base) base := by
    have hserve : ∀ {β : Type} (operation : FileCall β) (verdict : LocalVerdict)
        (files : FileSystem), serve (.left operation) verdict files =
          Lib.Files.serve operation verdict.file files := fun _ _ _ => rfl
    exact h.translate hserve fun _ _ _ hrecalled => hrecalled
  refine Program.Meets.bind _ hlocal ?_ ?_
  · rintro value state ⟨hsound, hold, hrecorded⟩
    refine ⟨hsound, hold, fun answer hanswer entry hentry => ?_⟩
    obtain rfl := Except.ok.inj hanswer
    rw [hshows] at hentry
    exact hrecorded value rfl entry hentry
  · rintro error state ⟨hsound, hold, _⟩
    exact ⟨hsound, hold, fun _ hanswer => by cases hanswer⟩

/-- One call of the provider keeps the times on record, and shows no others. -/
theorem answer_meets (hcodec : ∀ metadata, store.fromSlice (store.toVecPretty metadata) = .ok metadata)
    (hfiled : Filed store base) (pid : Nat) (call : LocalCall) :
    (answer store pid call).Meets serve (RecalledLocally store call base) (KeepsTimes store base)
      base := by
  have hobjects : ∀ {answer : Answer}, (∀ metadata ∈ answer.objects,
      recordOf store base metadata.id = some metadata.createdAtMillis) →
      KeepsTimes store base (.ok answer) base := by
    intro answer hrecorded
    refine (SameRecords.refl base).keeps hfiled fun value hvalue entry hentry => ?_
    obtain rfl := Except.ok.inj hvalue
    obtain ⟨metadata, hmem, rfl⟩ := List.mem_map.mp hentry
    exact hrecorded metadata hmem
  have hfails : ∀ error, KeepsTimes store base (.error error) base :=
    (SameRecords.refl base).fails hfiled
  obtain ⟨now, request⟩ := call
  cases request with
  | putObject kind mediaType filename bytes =>
    exact shown_meets (fun _ => rfl) (put_meets hcodec hfiled rfl)
  | renameFile id filename =>
    exact shown_meets (fun _ => rfl) (renameFile_meets hcodec hfiled id filename)
  | getObject id => exact shown_meets (fun _ => rfl) (getObject_meets hfiled id)
  | listObjects kind =>
    refine Program.Meets.bind _ (list_meets hfiled kind) ?_ ?_
    · rintro objects state ⟨rfl, hlisted⟩
      exact hobjects (hlisted objects rfl)
    · rintro error state ⟨rfl, _⟩
      exact hfails error
  | search query =>
    refine Program.Meets.bind _ (search_meets hfiled query) ?_ ?_
    · rintro page state ⟨rfl, hpage⟩
      exact hobjects (hpage page rfl)
    · rintro error state ⟨rfl, _⟩
      exact hfails error

end Calls

end HologramLive.Registry.Local
