import HologramLive.Component.StoreWrite
import HologramLive.Lib.Permits

/-! The quota of an application is what its writes have left of it. -/

namespace HologramLive.Component
open Lib Lib.Files Lib.Interleaving Store

/-! ### One call of the store -/

/-- What becomes of a call where a blob that is there can be examined. -/
def examined (path : Path) (files : FileSystem) (verdict : Verdict) {β : Type} :
    FileCall β → Verdict
  | .metadata other => if other = path ∧ (files path).isSome then .granted else verdict
  | _ => verdict

/-- The files, and what a write has newly created among them. -/
def tracked (path : Path) (stood : Bool) {β : Type} (operation : FileCall β) (verdict : Verdict)
    (state : FileSystem × Option Contents) : β × (FileSystem × Option Contents) :=
  let served := serve operation (examined path state.1 verdict operation) state.1
  (served.1, served.2, appeared stood path state.1 served.2 state.2)

variable {host : StoreWriteHost} {pid : Nat} {kappa : String} {bytes : Contents}

/-- What was created is what was to be written, under its content address. -/
def OwnBlob (host : StoreWriteHost) (kappa : String) (bytes : Contents) (made : Option Contents) :
    Prop :=
  ∀ contents, made = some contents →
    contents = bytes ∧ kappa = address host.objectStore.blake3 bytes

/-- What the store's answer says of what was created. -/
def Answers (bytes : Contents) (limit : Nat) (made : Option Contents) :
    Except LiveError Bool → Prop
  | .ok true => made = some bytes ∧ bytes.length ≤ limit
  | _ => made = none

/-- A call of the store that is still to come to its answer. -/
def Stores (host : StoreWriteHost) (kappa : String) (bytes : Contents) (limit : Nat) (stood : Bool)
    (program : FileProgram LiveError Bool) (state : FileSystem × Option Contents) : Prop :=
  program.Ensures (tracked (host.blobOf kappa) stood) (fun _ => True)
    (fun state => OwnBlob host kappa bytes state.2)
    (fun result state => Answers bytes limit state.2 result) state

theorem OwnBlob.nothing : OwnBlob host kappa bytes none := nofun

theorem stores_failed {limit : Nat} {stood : Bool} {files : FileSystem} (error : LiveError) :
    Stores host kappa bytes limit stood (.fail error) (files, none) :=
  ⟨.nothing, rfl⟩

/-- A call that does not touch the blob's path creates nothing. -/
theorem appeared_same {stood : Bool} {path : Path} {before after : FileSystem}
    {made : Option Contents} (h : after path = before path) :
    appeared stood path before after made = made := by
  unfold appeared
  split
  · rename_i habsent
    rw [h, habsent.2, Option.none_or]
  · rfl

theorem tracked_metadata {path : Path} {stood : Bool} {verdict : Verdict} {files : FileSystem}
    {made : Option Contents} :
    (tracked path stood (.metadata path) verdict (files, made)).1.isOk = (files path).isSome ∧
      (tracked path stood (.metadata path) verdict (files, made)).2 = (files, made) := by
  obtain ⟨hfound, hfiles⟩ := serve_metadata (examined path files verdict (.metadata path)) files path
  simp only [tracked, hfound, hfiles, appeared_same, and_true]
  cases hpath : files path with
  | none => cases verdict <;> simp [examined, found, hpath]
  | some contents => simp [examined, found, hpath]

/-- A blob that is there is found. -/
theorem stores_pathExists {limit : Nat} {stood : Bool} {rest : Bool → FileProgram LiveError Bool}
    {files : FileSystem}
    (h : Stores host kappa bytes limit stood (rest (files (host.blobOf kappa)).isSome) (files, none)) :
    Stores host kappa bytes limit stood (pathExists (host.blobOf kappa) >>= rest) (files, none) := by
  rw [Stores, pathExists_bind]
  refine ⟨.nothing, fun verdict _ => ?_⟩
  obtain ⟨hfound, hsame⟩ := @tracked_metadata (host.blobOf kappa) stood verdict files none
  simp only [hfound, hsame]
  exact h

/-- A call that leaves the store when it is refused, and keeps away from the blob's path. -/
theorem stores_attempt {limit : Nat} {stood : Bool} {β : Type}
    {operation : FileCall (Except IoError β)} {mapErr : IoError → LiveError}
    {rest : β → FileProgram LiveError Bool} {files : FileSystem}
    (hexamined : ∀ verdict, examined (host.blobOf kappa) files verdict operation = verdict)
    (hgranted : ∃ value, (files.granted operation).1 = .ok value ∧
      (files.granted operation).2 (host.blobOf kappa) = files (host.blobOf kappa) ∧
      Stores host kappa bytes limit stood (rest value) ((files.granted operation).2, none))
    (hrefused : ∀ error written, (∃ report, (files.refused error written operation).1 = .error report) ∧
      (files.refused error written operation).2 (host.blobOf kappa) = files (host.blobOf kappa)) :
    Stores host kappa bytes limit stood (attempt operation mapErr >>= rest) (files, none) := by
  refine ⟨.nothing, fun verdict _ => ?_⟩
  simp only [tracked, hexamined]
  cases verdict with
  | granted =>
    obtain ⟨value, hvalue, hsame, hrest⟩ := hgranted
    simp only [serve_granted, hvalue, appeared_same hsame]
    exact hrest
  | refused error written =>
    obtain ⟨⟨report, hreport⟩, hsame⟩ := hrefused error written
    simp only [serve_refused, hreport, appeared_same hsame]
    exact stores_failed _

theorem examined_absent {path : Path} {files : FileSystem} (h : files path = none)
    (verdict : Verdict) {β : Type} (operation : FileCall β) :
    examined path files verdict operation = verdict := by
  cases operation with
  | metadata other =>
    simp [examined, h]
  | _ => rfl

/-- Writing where no blob stands makes the blob at the very last call. -/
theorem stores_atomicWrite {limit : Nat} (hlimit : bytes.length ≤ limit)
    (hkappa : kappa = address host.objectStore.blake3 bytes)
    {files : FileSystem} (habsent : files (host.blobOf kappa) = none) :
    Stores host kappa bytes limit false
      (atomicWrite pid (host.blobOf kappa) bytes >>= fun _ => .done true) (files, none) := by
  have hwritten : ∀ contents, (files.write (temporaryFor pid (host.blobOf kappa)) contents)
      (host.blobOf kappa) = files (host.blobOf kappa) := fun contents =>
    FileSystem.write_other (temporaryFor_ne pid (host.blobOf kappa)).symm contents
  unfold atomicWrite
  simp only [Program.bind_assoc]
  apply stores_attempt
  case hexamined => exact fun verdict => rfl
  case hrefused => exact fun error written => ⟨⟨error, rfl⟩, rfl⟩
  refine ⟨(), rfl, rfl, ?_⟩
  apply stores_attempt
  case hexamined => exact fun verdict => rfl
  case hrefused =>
    intro error written
    refine ⟨⟨error, rfl⟩, ?_⟩
    cases written with
    | none => rfl
    | some count =>
      simp only [FileSystem.refused]
      exact hwritten _
  refine ⟨(), rfl, ?_, ?_⟩
  · simp only [FileSystem.granted]
    exact hwritten _
  simp only [FileSystem.granted]
  have hstill := (hwritten bytes).trans habsent
  have hthere : (files.write (temporaryFor pid (host.blobOf kappa)) bytes)
      (temporaryFor pid (host.blobOf kappa)) = some bytes := FileSystem.write_same ..
  generalize files.write (temporaryFor pid (host.blobOf kappa)) bytes = written at hstill hthere
  apply stores_pathExists
  rw [hstill]
  simp only [Option.isSome_none, Bool.false_eq_true, ↓reduceIte]
  refine ⟨.nothing, fun verdict _ => ?_⟩
  simp only [tracked, examined]
  cases verdict with
  | refused error unwritten =>
    simp only [serve_refused, FileSystem.refused, appeared_same]
    exact stores_failed _
  | granted =>
    simp only [serve_granted, FileSystem.granted, hthere]
    have hmade : appeared false (host.blobOf kappa) written
        ((written.remove (temporaryFor pid (host.blobOf kappa))).write (host.blobOf kappa) bytes)
        none = some bytes := by
      rw [appeared, if_pos ⟨rfl, hstill⟩, FileSystem.write_same]
      rfl
    rw [hmade]
    refine ⟨?_, rfl, hlimit⟩
    intro contents hcontents
    exact ⟨(Option.some.inj hcontents).symm, hkappa⟩

theorem stores_cache (limit : Nat) (files : FileSystem) :
    Stores host kappa bytes limit (files (host.blobOf kappa)).isSome
      (host.objectStore.cacheAddressedBounded pid kappa bytes limit) (files, none) := by
  unfold DiskStore.cacheAddressedBounded
  cases hid : validateId host.objectStore.debug kappa with
  | error error => exact stores_failed error
  | ok digest =>
    obtain ⟨hkappa, -⟩ := validateId_ok.mp hid
    simp only [Program.ofExcept, Program.done_bind]
    split
    · exact stores_failed _
    · rename_i hdigest
      rw [ne_eq, not_not] at hdigest
      have hpath : host.objectStore.blobPath digest = host.blobOf kappa := by
        rw [StoreWriteHost.blobOf, hkappa, String.toList_append]
        exact congrArg host.objectStore.blobPath String.ofList_toList.symm
      rw [hpath]
      apply stores_pathExists
      cases hblob : files (host.blobOf kappa) with
      | some blob =>
        simp only [Option.isSome_some, ↓reduceIte]
        exact ⟨.nothing, rfl⟩
      | none =>
        simp only [Option.isSome_none, Bool.false_eq_true, ↓reduceIte]
        split
        · exact stores_failed _
        · rename_i hfits
          exact stores_atomicWrite (Nat.le_of_not_lt hfits) (hkappa.trans (by rw [address, hdigest])) hblob

/-! ### One step of a task -/

/-- A write that has left the store for good. -/
structure Settled (host : StoreWriteHost) (kappa : String) (bytes : Contents)
    (made : Option Contents) (outcome : Except String Unit) : Prop where
  inRoots : made ≠ none → kappa ∈ host.roots
  ownBlob : OwnBlob host kappa bytes made
  rejected : ∀ error, outcome = .error error → made = none

/-- What is known of a write at its place. -/
def Write.Sound (host : StoreWriteHost) (place : Nat) (shared : Shared) (own : Write) : Prop :=
  match own.stage with
  | .called => own.made = none
  | .queued => own.made = none ∧ own.kappa ∈ host.roots
  | .entering program => shared.quotaHolder = some place ∧ own.kappa ∈ host.roots ∧
      own.made = none ∧ ∀ files : FileSystem, Stores host own.kappa own.bytes shared.quotaRemaining
        (files (host.blobOf own.kappa)).isSome program (files, none)
  | .storing stood program => shared.quotaHolder = some place ∧ own.kappa ∈ host.roots ∧
      shared.storeHolder = some place ∧ Stores host own.kappa own.bytes shared.quotaRemaining stood
        program (shared.files, own.made)
  | .stored result => shared.quotaHolder = some place ∧ own.kappa ∈ host.roots ∧
      OwnBlob host own.kappa own.bytes own.made ∧
      Answers own.bytes shared.quotaRemaining own.made result
  | .leaving outcome => shared.quotaHolder = some place ∧ Settled host own.kappa own.bytes own.made outcome
  | .ended outcome => Settled host own.kappa own.bytes own.made outcome

def Task.Sound (host : StoreWriteHost) (place : Nat) (shared : Shared) : Task → Prop
  | .write own => own.Sound host place shared
  | .other (.storing _) => shared.storeHolder = some place
  | .other _ => True

/-- A step keeps the locks of the other tasks, and what these locks guard. -/
def Spares (place : Nat) (before after : Shared) : Prop :=
  ∀ other, other ≠ place →
    (before.quotaHolder = some other →
      after.quotaHolder = some other ∧ after.quotaRemaining = before.quotaRemaining) ∧
    (before.storeHolder = some other →
      after.storeHolder = some other ∧ after.files = before.files)

section Move
variable {place : Nat} {shared after : Shared} {own next : Write} {verdict : Verdict}

theorem Spares.refl : Spares place shared shared := by
  intro other hne
  exact ⟨fun h => ⟨h, rfl⟩, fun h => ⟨h, rfl⟩⟩

/-- Whoever has the store's lock may change the files, and give it up. -/
theorem Spares.ofStore (hholder : shared.storeHolder = some place ∨ shared.storeHolder = none)
    (files : FileSystem) (holder : Option Nat) :
    Spares place shared { shared with files, storeHolder := holder } := by
  intro other hne
  refine ⟨fun h => ⟨h, rfl⟩, fun h => ?_⟩
  rw [h] at hholder
  rcases hholder with hheld | hfree
  · exact absurd (Option.some.inj hheld) hne
  · cases hfree

theorem Spares.ofQuota (hholder : shared.quotaHolder = some place ∨ shared.quotaHolder = none)
    (remaining : Nat) (holder : Option Nat) :
    Spares place shared { shared with quotaRemaining := remaining, quotaHolder := holder } := by
  intro other hne
  refine ⟨fun h => ?_, fun h => ⟨h, rfl⟩⟩
  rw [h] at hholder
  rcases hholder with hheld | hfree
  · exact absurd (Option.some.inj hheld) hne
  · cases hfree

theorem Task.Sound.spared {other : Nat} {task : Task} (h : task.Sound host other shared)
    (hspares : Spares place shared after) (hne : other ≠ place) : task.Sound host other after := by
  obtain ⟨hquota, hstore⟩ := hspares other hne
  cases task with
  | other stage =>
    cases stage with
    | storing program => exact (hstore h).1
    | entering program => trivial
    | ended => trivial
  | write own =>
    obtain ⟨kappa, bytes, stage, made⟩ := own
    cases stage with
    | called => exact h
    | queued => exact h
    | entering program =>
      obtain ⟨hheld, hrest⟩ := h
      obtain ⟨hkept, hremaining⟩ := hquota hheld
      refine ⟨hkept, ?_⟩
      rw [hremaining]
      exact hrest
    | storing stood program =>
      obtain ⟨hheld, hroots, hlocked, hstores⟩ := h
      obtain ⟨hkept, hremaining⟩ := hquota hheld
      obtain ⟨hlock, hfiles⟩ := hstore hlocked
      refine ⟨hkept, hroots, hlock, ?_⟩
      rw [hremaining, hfiles]
      exact hstores
    | stored result =>
      obtain ⟨hheld, hrest⟩ := h
      obtain ⟨hkept, hremaining⟩ := hquota hheld
      refine ⟨hkept, ?_⟩
      rw [hremaining]
      exact hrest
    | leaving outcome => exact ⟨(hquota h.1).1, h.2⟩
    | ended outcome => exact h

/-- The verdict lets a blob that is there be examined. -/
def Write.Examines (host : StoreWriteHost) (shared : Shared) (verdict : Verdict) (own : Write) :
    Prop :=
  ∀ stood next, own.stage = .storing stood (.call (.metadata (host.blobOf own.kappa)) next) →
    (shared.files (host.blobOf own.kappa)).isSome → verdict = .granted

theorem Write.Examines.same {stood : Bool} {β : Type} {operation : FileCall β}
    {rest : β → FileProgram LiveError Bool} (h : own.Examines host shared verdict)
    (hstage : own.stage = .storing stood (.call operation rest)) :
    examined (host.blobOf own.kappa) shared.files verdict operation = verdict := by
  cases operation with
  | metadata path =>
    simp only [examined]
    split
    · rename_i hthere
      obtain ⟨rfl, hpresent⟩ := hthere
      exact (h stood rest hstage hpresent).symm
    · rfl
  | _ => rfl

/-- A step of a write, and what it does to the account. -/
structure Write.Moved (host : StoreWriteHost) (place : Nat) (shared after : Shared)
    (own next : Write) : Prop where
  sound : next.Sound host place after
  spares : Spares place shared after
  balance : size next.made + after.quotaRemaining + size (Task.write own).unsettled =
    size own.made + shared.quotaRemaining + size (Task.write next).unsettled

theorem Write.moved (h : own.Sound host place shared) (hexamines : own.Examines host shared verdict)
    (hmove : own.move host pid place verdict shared = some (next, after)) :
    Write.Moved host place shared after own next := by
  obtain ⟨kappa, bytes, stage, made⟩ := own
  cases stage with
  | called =>
    simp only [Write.move] at hmove
    split at hmove
    · rename_i hroots
      obtain ⟨rfl, rfl⟩ := Prod.mk.inj (Option.some.inj hmove)
      exact ⟨⟨h, hroots⟩, .refl, rfl⟩
    · obtain ⟨rfl, rfl⟩ := Prod.mk.inj (Option.some.inj hmove)
      obtain rfl : made = none := h
      exact ⟨⟨fun hne => absurd rfl hne, .nothing, fun _ _ => rfl⟩, .refl, rfl⟩
  | queued =>
    simp only [Write.move] at hmove
    split at hmove
    · rename_i hfree
      obtain ⟨rfl, rfl⟩ := Prod.mk.inj (Option.some.inj hmove)
      refine ⟨⟨rfl, h.2, h.1, fun files => ?_⟩, .ofQuota (.inr hfree) _ _, rfl⟩
      exact stores_cache shared.quotaRemaining files
    · cases hmove
  | entering program =>
    obtain ⟨hheld, hroots, hnothing, hstores⟩ := h
    obtain rfl : made = none := hnothing
    simp only [Write.move] at hmove
    split at hmove
    · rename_i result houtcome
      obtain ⟨rfl, rfl⟩ := Prod.mk.inj (Option.some.inj hmove)
      exact ⟨⟨hheld, hroots, .nothing, (hstores shared.files).ended houtcome⟩, .refl, rfl⟩
    · split at hmove
      · rename_i hfree
        obtain ⟨rfl, rfl⟩ := Prod.mk.inj (Option.some.inj hmove)
        exact ⟨⟨hheld, hroots, rfl, hstores shared.files⟩, .ofStore (.inr hfree) _ _, rfl⟩
      · cases hmove
  | storing stood program =>
    obtain ⟨hheld, hroots, hlocked, hstores⟩ := h
    simp only [Write.move] at hmove
    split at hmove
    · rename_i result houtcome
      obtain ⟨rfl, rfl⟩ := Prod.mk.inj (Option.some.inj hmove)
      exact ⟨⟨hheld, hroots, hstores.now, hstores.ended houtcome⟩, .ofStore (.inl hlocked) _ _, rfl⟩
    · rename_i hgoing
      obtain ⟨rfl, rfl⟩ := Prod.mk.inj (Option.some.inj hmove)
      refine ⟨⟨hheld, hroots, hlocked, ?_⟩, .ofStore (.inl hlocked) _ _, ?_⟩
      · cases program with
        | done value => cases hgoing
        | fail error => cases hgoing
        | call operation rest =>
          have hsame := hexamines.same rfl
          have hafter := hstores.2 verdict trivial
          simp only [tracked, hsame] at hafter
          exact hafter
      · simp only [Task.unsettled]
        omega
  | stored result =>
    obtain ⟨hheld, hroots, hblob, hanswers⟩ := h
    have hrejected : made = none → ∀ outcome, Settled host kappa bytes made outcome := by
      rintro rfl outcome
      exact ⟨fun hne => absurd rfl hne, .nothing, fun _ _ => rfl⟩
    simp only [Write.move] at hmove
    split at hmove
    · obtain ⟨rfl, rfl⟩ := Prod.mk.inj (Option.some.inj hmove)
      obtain ⟨rfl, hfits⟩ : made = some bytes ∧ bytes.length ≤ shared.quotaRemaining := hanswers
      refine ⟨⟨hheld, fun _ => hroots, hblob, nofun⟩, .ofQuota (.inl hheld) _ _, ?_⟩
      simp only [Task.unsettled, size, Option.map_some, Option.map_none, Option.getD_some,
        Option.getD_none]
      omega
    · obtain ⟨rfl, rfl⟩ := Prod.mk.inj (Option.some.inj hmove)
      obtain rfl : made = none := hanswers
      exact ⟨⟨hheld, hrejected rfl _⟩, .refl, rfl⟩
    · obtain ⟨rfl, rfl⟩ := Prod.mk.inj (Option.some.inj hmove)
      obtain rfl : made = none := hanswers
      exact ⟨⟨hheld, hrejected rfl _⟩, .refl, rfl⟩
  | leaving outcome =>
    obtain ⟨rfl, rfl⟩ := Prod.mk.inj (Option.some.inj hmove)
    exact ⟨h.2, .ofQuota (.inl h.1) _ _, rfl⟩
  | ended outcome => cases hmove

/-- A step of another user, which leaves the quota alone. -/
theorem OtherStage.moved {stage next : OtherStage}
    (h : (Task.other stage).Sound host place shared)
    (hmove : stage.move place verdict shared = some (next, after)) :
    (Task.other next).Sound host place after ∧ Spares place shared after ∧
      after.quotaRemaining = shared.quotaRemaining := by
  cases stage with
  | entering program =>
    simp only [OtherStage.move] at hmove
    split at hmove
    · obtain ⟨rfl, rfl⟩ := Prod.mk.inj (Option.some.inj hmove)
      exact ⟨trivial, .refl, rfl⟩
    · split at hmove
      · rename_i hfree
        obtain ⟨rfl, rfl⟩ := Prod.mk.inj (Option.some.inj hmove)
        exact ⟨rfl, .ofStore (.inr hfree) _ _, rfl⟩
      · cases hmove
  | storing program =>
    have hlocked : shared.storeHolder = some place := h
    simp only [OtherStage.move] at hmove
    split at hmove
    · obtain ⟨rfl, rfl⟩ := Prod.mk.inj (Option.some.inj hmove)
      exact ⟨trivial, .ofStore (.inl hlocked) _ _, rfl⟩
    · obtain ⟨rfl, rfl⟩ := Prod.mk.inj (Option.some.inj hmove)
      exact ⟨hlocked, .ofStore (.inl hlocked) _ _, rfl⟩
  | ended => cases hmove

/-- A step of any task, and what it does to the account. -/
theorem Task.moved {task next : Task} (h : task.Sound host place shared)
    (hexamines : ∀ own, task = .write own → own.Examines host shared verdict)
    (hmove : task.move host pid place verdict shared = some (next, after)) :
    next.Sound host place after ∧ Spares place shared after ∧
      size next.made + after.quotaRemaining + size task.unsettled =
        size task.made + shared.quotaRemaining + size next.unsettled := by
  cases task with
  | write own =>
    obtain ⟨moved, hmoved, heq⟩ := Option.map_eq_some_iff.mp hmove
    obtain ⟨rfl, rfl⟩ := Prod.mk.inj heq
    obtain ⟨hsound, hspares, hbalance⟩ := Write.moved h (hexamines own rfl) hmoved
    exact ⟨hsound, hspares, hbalance⟩
  | other stage =>
    obtain ⟨moved, hmoved, heq⟩ := Option.map_eq_some_iff.mp hmove
    obtain ⟨rfl, rfl⟩ := Prod.mk.inj heq
    obtain ⟨hsound, hspares, hsame⟩ := OtherStage.moved h hmoved
    refine ⟨hsound, hspares, ?_⟩
    rw [hsame]
    rfl

end Move

/-! ### Whole runs -/

/-- What every step keeps. -/
structure Accounted (host : StoreWriteHost) (quota : Nat) (system : System) : Prop where
  sound : ∀ (place : Nat) (task : Task), system.tasks[place]? = some task →
    task.Sound host place system.shared
  balance : system.created + system.shared.quotaRemaining = quota + system.unsettled

/-- A blob that is there can be examined by the write that asks whether it is. -/
def Action.Examines (host : StoreWriteHost) (system : System) : Action → Prop
  | .move place verdict => ∀ own, system.tasks[place]? = some (.write own) →
      own.Examines host system.shared verdict
  | _ => True

section Run
variable {quota : Nat} {system next : System}

theorem Accounted.new (files : FileSystem) : Accounted host quota (.new files quota) where
  sound := nofun
  balance := by simp [System.created, System.unsettled, System.new]

theorem Accounted.push (h : Accounted host quota system) {task : Task}
    (hsound : task.Sound host system.tasks.length system.shared)
    (hmade : size task.made = 0) (hunsettled : size task.unsettled = 0) :
    Accounted host quota { system with tasks := system.tasks ++ [task] } where
  sound := by
    intro place other hplace
    rcases Nat.lt_or_ge place system.tasks.length with hlt | hge
    · rw [List.getElem?_append_left hlt] at hplace
      exact h.sound place other hplace
    · have hlast := (List.getElem?_eq_some_iff.mp hplace).1
      rw [List.length_append, List.length_singleton] at hlast
      obtain rfl : place = system.tasks.length := by omega
      rw [List.getElem?_concat_length] at hplace
      obtain rfl := Option.some.inj hplace
      exact hsound
  balance := by
    have hbalance := h.balance
    simp only [System.created, System.unsettled, List.map_append, List.map_cons, List.map_nil,
      List.sum_append, List.sum_cons, List.sum_nil, hmade, hunsettled] at hbalance ⊢
    exact hbalance

theorem Accounted.step {action : Action} (h : Accounted host quota system)
    (hexamines : action.Examines host system)
    (hstep : step host pid system action = some next) : Accounted host quota next := by
  cases action with
  | write kappa bytes =>
    obtain rfl := Option.some.inj hstep
    exact h.push rfl rfl rfl
  | other operation =>
    obtain rfl := Option.some.inj hstep
    exact h.push trivial rfl rfl
  | move place verdict =>
    obtain ⟨task, hplace, hmove⟩ := Option.bind_eq_some_iff.mp hstep
    obtain ⟨⟨moved, after⟩, hmoved, rfl⟩ := Option.map_eq_some_iff.mp hmove
    obtain ⟨hsound, hspares, hbalance⟩ := Task.moved (h.sound place task hplace)
      (fun own hown => hexamines own (hown ▸ hplace)) hmoved
    constructor
    case sound =>
      intro other found hfound
      by_cases hsame : other = place
      · subst hsame
        rw [List.getElem?_set_self (List.getElem?_eq_some_iff.mp hplace).1] at hfound
        obtain rfl := Option.some.inj hfound
        exact hsound
      · rw [List.getElem?_set_ne (Ne.symm hsame)] at hfound
        exact (h.sound other found hfound).spared hspares hsame
    case balance =>
      have hmade := Permits.sum_set (fun task => size task.made) moved hplace
      have hunsettled := Permits.sum_set (fun task => size task.unsettled) moved hplace
      have hbefore := h.balance
      simp only [System.created, System.unsettled] at hbefore ⊢
      omega

/-- Only a write that has created its blob takes anything off the quota, and that blob's size. -/
def Spends (host : StoreWriteHost) (pid : Nat) (system : System) : Prop :=
  ∀ (action : Action) (next : System), step host pid system action = some next →
    next.shared.quotaRemaining = system.shared.quotaRemaining ∨
      ∃ (place : Nat) (own : Write), system.tasks[place]? = some (.write own) ∧
        own.stage = .stored (.ok true) ∧ own.made = some own.bytes ∧
        next.shared.quotaRemaining + own.bytes.length = system.shared.quotaRemaining

/-- What is asked of the quota. While a write has its lock, the blob that it has created and not
paid for yet comes on top. -/
structure Conserved (host : StoreWriteHost) (pid quota : Nat) (system : System) : Prop where
  free : system.shared.quotaHolder = none →
    system.created + system.shared.quotaRemaining = quota
  balance : system.created + system.shared.quotaRemaining = quota + system.unsettled
  fits : ∀ own, Task.write own ∈ system.tasks → own.stage = .stored (.ok true) →
    own.bytes.length ≤ system.shared.quotaRemaining
  admitted : ∀ own, Task.write own ∈ system.tasks → ∀ contents, own.made = some contents →
    own.kappa ∈ host.roots ∧ contents = own.bytes ∧
      own.kappa = address host.objectStore.blake3 own.bytes
  rejected : ∀ own, Task.write own ∈ system.tasks → ∀ error, own.stage = .ended (.error error) →
    own.made = none
  spends : Spends host pid system

theorem Write.Sound.admitted {place : Nat} {shared : Shared} {own : Write}
    (h : own.Sound host place shared) {contents : Contents} (hmade : own.made = some contents) :
    own.kappa ∈ host.roots ∧ OwnBlob host own.kappa own.bytes own.made := by
  obtain ⟨kappa, bytes, stage, made⟩ := own
  have hsome : made ≠ none := by
    rintro rfl
    cases hmade
  cases stage with
  | called => exact absurd h hsome
  | queued => exact absurd h.1 hsome
  | entering program => exact absurd h.2.2.1 hsome
  | storing stood program => exact ⟨h.2.1, h.2.2.2.now⟩
  | stored result => exact ⟨h.2.1, h.2.2.1⟩
  | leaving outcome => exact ⟨h.2.inRoots hsome, h.2.ownBlob⟩
  | ended outcome => exact ⟨h.inRoots hsome, h.ownBlob⟩

/-- A write that has something unsettled has the quota's lock. -/
theorem Task.Sound.unsettled {place : Nat} {shared : Shared} {task : Task}
    (h : task.Sound host place shared) (hfree : shared.quotaHolder = none) :
    size task.unsettled = 0 := by
  cases task with
  | other stage => rfl
  | write own =>
    obtain ⟨kappa, bytes, stage, made⟩ := own
    cases stage with
    | storing stood program =>
      rw [h.1] at hfree
      cases hfree
    | stored result =>
      rw [h.1] at hfree
      cases hfree
    | _ => rfl

theorem Write.spends {place : Nat} {shared after : Shared} {own moved : Write} {verdict : Verdict}
    (h : own.Sound host place shared)
    (hmove : own.move host pid place verdict shared = some (moved, after)) :
    after.quotaRemaining = shared.quotaRemaining ∨ own.stage = .stored (.ok true) ∧
      own.made = some own.bytes ∧
      after.quotaRemaining + own.bytes.length = shared.quotaRemaining := by
  obtain ⟨kappa, bytes, stage, made⟩ := own
  have hquiet : ∀ {written : Write} {shared' : Shared}, some (written, shared') = some (moved, after) →
      shared'.quotaRemaining = shared.quotaRemaining →
        after.quotaRemaining = shared.quotaRemaining := by
    intro written shared' heq hsame
    obtain ⟨-, rfl⟩ := Prod.mk.inj (Option.some.inj heq)
    exact hsame
  cases stage with
  | called =>
    simp only [Write.move] at hmove
    split at hmove <;> exact .inl (hquiet hmove rfl)
  | queued =>
    simp only [Write.move] at hmove
    split at hmove
    · exact .inl (hquiet hmove rfl)
    · cases hmove
  | entering program =>
    simp only [Write.move] at hmove
    split at hmove
    · exact .inl (hquiet hmove rfl)
    · split at hmove
      · exact .inl (hquiet hmove rfl)
      · cases hmove
  | storing stood program =>
    simp only [Write.move] at hmove
    split at hmove <;> exact .inl (hquiet hmove rfl)
  | stored result =>
    simp only [Write.move] at hmove
    split at hmove
    · obtain ⟨-, rfl⟩ := Prod.mk.inj (Option.some.inj hmove)
      obtain ⟨-, -, -, hmade, hfits⟩ := h
      exact .inr ⟨rfl, hmade, Nat.sub_add_cancel hfits⟩
    · exact .inl (hquiet hmove rfl)
    · exact .inl (hquiet hmove rfl)
  | leaving outcome => exact .inl (hquiet hmove rfl)
  | ended outcome => cases hmove

theorem Accounted.spends (h : Accounted host quota system) : Spends host pid system := by
  intro action next hstep
  cases action with
  | write kappa bytes =>
    obtain rfl := Option.some.inj hstep
    exact .inl rfl
  | other operation =>
    obtain rfl := Option.some.inj hstep
    exact .inl rfl
  | move place verdict =>
    obtain ⟨task, hplace, hmove⟩ := Option.bind_eq_some_iff.mp hstep
    obtain ⟨⟨moved, after⟩, hmoved, rfl⟩ := Option.map_eq_some_iff.mp hmove
    have hsound := h.sound place task hplace
    cases task with
    | other stage =>
      obtain ⟨result, hresult, heq⟩ := Option.map_eq_some_iff.mp hmoved
      obtain ⟨rfl, rfl⟩ := Prod.mk.inj heq
      exact .inl (OtherStage.moved hsound hresult).2.2
    | write own =>
      obtain ⟨result, hresult, heq⟩ := Option.map_eq_some_iff.mp hmoved
      obtain ⟨rfl, rfl⟩ := Prod.mk.inj heq
      rcases Write.spends hsound hresult with hsame | hspent
      · exact .inl hsame
      · exact .inr ⟨place, own, hplace, hspent⟩

/-- The quota is conserved in every run in which no write fails to examine a blob that is there. -/
theorem quota_conserved (host : StoreWriteHost) (pid quota : Nat) (files : FileSystem)
    {system : System} (h : Reaches (step host pid) (fun system action => action.Examines host system)
      (.new files quota) system) : Conserved host pid quota system := by
  have haccounted : Accounted host quota system :=
    h.invariant (.new files) fun _ _ _ hbefore hexamines hstep => hbefore.step hexamines hstep
  have hsound : ∀ own, Task.write own ∈ system.tasks → ∃ place, own.Sound host place system.shared := by
    intro own hmem
    obtain ⟨place, hplace⟩ := List.mem_iff_getElem?.mp hmem
    exact ⟨place, haccounted.sound place (.write own) hplace⟩
  constructor
  case balance => exact haccounted.balance
  case spends => exact haccounted.spends
  case free =>
    intro hfree
    have hnone : system.unsettled = 0 := by
      refine List.sum_eq_zero_iff_forall_eq_nat.mpr fun size hsize => ?_
      obtain ⟨task, htask, rfl⟩ := List.mem_map.mp hsize
      obtain ⟨place, hplace⟩ := List.mem_iff_getElem?.mp htask
      exact (haccounted.sound place task hplace).unsettled hfree
    rw [haccounted.balance, hnone, Nat.add_zero]
  case fits =>
    intro own hmem hstage
    obtain ⟨place, hown⟩ := hsound own hmem
    rw [Write.Sound, hstage] at hown
    exact hown.2.2.2.2
  case admitted =>
    intro own hmem contents hmade
    obtain ⟨place, hown⟩ := hsound own hmem
    obtain ⟨hroots, hblob⟩ := hown.admitted hmade
    exact ⟨hroots, hblob contents hmade⟩
  case rejected =>
    intro own hmem error hstage
    obtain ⟨place, hown⟩ := hsound own hmem
    rw [Write.Sound, hstage] at hown
    exact hown.rejected error rfl

end Run

section Sample

def abcHash : Vector UInt8 32 :=
  #v[0x64, 0x37, 0xb3, 0xac, 0x38, 0x46, 0x51, 0x33, 0xff, 0xb6, 0x3b, 0x75, 0x27, 0x3a, 0x8d, 0xb5,
    0x48, 0xc5, 0x58, 0x46, 0x5d, 0x79, 0xdb, 0x03, 0xfd, 0x35, 0x9c, 0x6c, 0xd5, 0xbd, 0x9d, 0x85]

def abc : Contents := [0x61, 0x62, 0x63]

def abcAddress : String := "blake3:6437b3ac38465133ffb63b75273a8db548c558465d79db03fd359c6cd5bd9d85"

/-- A host for the one address, at a store that holds the hash of its bytes. -/
def abcHost : StoreWriteHost where
  objectStore :=
    { root := ["objects"]
      blake3 := fun bytes => if bytes = abc then abcHash else Vector.replicate 32 0
      debug := String.quote
      toVecPretty := fun _ => []
      fromSlice := fun _ => .error "EOF while parsing a value" }
  roots := [abcAddress]

/-- One write of the bytes, as its file-system calls are given these verdicts. -/
def writeAbc (verdicts : List Verdict) : List Action :=
  .write abcAddress abc :: (List.replicate 3 (Action.move 0 .granted) ++
    verdicts.map (Action.move 0) ++ List.replicate 3 (Action.move 0 .granted))

def account (system : System) : Option Nat × Nat × Nat :=
  (system.shared.quotaHolder, system.created, system.shared.quotaRemaining)

def emptyFiles : FileSystem := fun _ => none

/-- The files with the blob among them. -/
def abcFiles : FileSystem := emptyFiles.write (abcHost.blobOf abcAddress) abc

/-- The existence check of the blob fails, and the blob is then replaced by itself. -/
def unexamined : List Action :=
  writeAbc (.refused ⟨false, "Input/output error (os error 5)"⟩ none :: List.replicate 5 .granted)

/-- A write of a blob that was there before is paid for. -/
theorem quota_unexamined : ¬ ∀ system, Reaches (step abcHost 7) (fun _ _ => True) (.new abcFiles 5) system →
    Conserved abcHost 7 5 system := by
  intro hclaim
  have haccount : (run (step abcHost 7) unexamined (.new abcFiles 5)).map account =
      some (none, 0, 2) := by decide +kernel
  obtain ⟨system, hrun, haccounts⟩ := Option.map_eq_some_iff.mp haccount
  have hconserved := hclaim system (Reaches.start.run hrun)
  obtain ⟨hholder, hrest⟩ := Prod.mk.inj haccounts
  obtain ⟨hcreated, hremaining⟩ := Prod.mk.inj hrest
  have hquota := hconserved.free hholder
  rw [hcreated, hremaining] at hquota
  exact absurd hquota (by decide)

def grants (_ : System) : Action → Bool
  | .move _ verdict => verdict = .granted
  | _ => true

theorem quota_conserved_abc : ∃ system, account system = (none, 3, 2) ∧
    Conserved abcHost 7 5 system := by
  have haccount : (checked (step abcHost 7) grants (writeAbc (List.replicate 5 .granted))
      (.new emptyFiles 5)).map account = some (none, 3, 2) := by decide
  obtain ⟨system, hrun, haccounts⟩ := Option.map_eq_some_iff.mp haccount
  refine ⟨system, haccounts, quota_conserved abcHost 7 5 emptyFiles (Reaches.start.checked ?_ hrun)⟩
  intro state action hgrants
  cases action with
  | move place verdict => exact fun own _ stood next _ _ => of_decide_eq_true hgrants
  | _ => trivial

end Sample

end HologramLive.Component
