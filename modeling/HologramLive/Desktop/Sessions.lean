import HologramLive.Desktop.Assets
import HologramLive.Lib.Interleaving

/-! The applications the desktop has open, and the indices it finds them by. -/

namespace HologramLive.Desktop
open Lib Lib.Result Lib.Table Lib.Interleaving

/-- A started application. `handle` tells one start from another. -/
structure HoloApplicationSession where
  handle : Nat
  archiveKappa : String
  applicationKappa : String
  applicationKappas : List String

structure DesktopSessionEntry where
  archiveKappa : String
  applicationKappa : String
  applicationKappas : List String
  windowLabels : List String
  session : HoloApplicationSession

structure DesktopSessionReport where
  sessionId : String
  archiveKappa : String
  applicationKappa : String
  state : String
  windowCount : Nat

structure DesktopSessionState where
  nextId : UInt64 := 0
  entries : List (String × DesktopSessionEntry) := []
  archives : List (String × String) := []
  applications : List (String × String) := []
  windows : List (String × String) := []

/-- `status` names the state a session is in at the moment. -/
def DesktopSessionEntry.report (status : Nat → String) (entry : DesktopSessionEntry)
    (sessionId : String) : DesktopSessionReport :=
  ⟨sessionId, entry.archiveKappa, entry.applicationKappa, status entry.session.handle,
    entry.windowLabels.length⟩

namespace DesktopSessionState
variable (status : Nat → String) (state : DesktopSessionState)

/-- The answer of a start that finds its archive or one of its applications open. -/
def alreadyOpen (archiveKappa : String) (applicationKappas : List String) :
    Option (Except String DesktopSessionReport) :=
  match state.archives.lookup archiveKappa with
  | some sessionId =>
    match state.entries.lookup sessionId with
    | some entry => some (.ok (entry.report status sessionId))
    | none => some (.error "desktop application session registry is inconsistent")
  | none =>
    applicationKappas.findSome? fun applicationKappa =>
      (state.applications.lookup applicationKappa).map fun sessionId =>
        .error s!"application {applicationKappa} is already open as {sessionId}"

/-- Numbers wrap around, and leave out zero. -/
def bumped : UInt64 := if state.nextId + 1 = 0 then 1 else state.nextId + 1

def sessionId (number : UInt64) : String := s!"desktop-session-{number}"

def insertEntry (sessionId : String) (entry : DesktopSessionEntry) : DesktopSessionState :=
  { state with
    entries := insert state.entries sessionId entry
    archives := insertAll state.archives [entry.archiveKappa] sessionId
    applications := insertAll state.applications entry.applicationKappas sessionId
    windows := insertAll state.windows entry.windowLabels sessionId }

def registerStarted (assets : ViewAssetState) (archiveKappa : String)
    (session : HoloApplicationSession) :
    Except String (DesktopSessionReport × DesktopSessionState) :=
  match session.applicationKappas.find? fun candidate =>
      (state.applications.lookup candidate).isSome with
  | some candidate => .error s!"application {candidate} is already open"
  | none =>
    let entry : DesktopSessionEntry :=
      { archiveKappa
        applicationKappa := session.applicationKappa
        applicationKappas := session.applicationKappas
        windowLabels := assets.labelsForApplications session.applicationKappas
        session }
    .ok (entry.report status (sessionId state.bumped),
      insertEntry { state with nextId := state.bumped } (sessionId state.bumped) entry)

/-- What a stop takes out before it waits for the session to stop. -/
def takeEntry (debug : String → String) (sessionId : String) :
    Except String (DesktopSessionEntry × DesktopSessionState) :=
  match state.entries.lookup sessionId with
  | none => .error s!"application session {debug sessionId} is not open"
  | some entry =>
    .ok (entry,
      { state with
        entries := erase state.entries sessionId
        archives := eraseAll state.archives [entry.archiveKappa]
        applications := eraseAll state.applications entry.applicationKappas
        windows := eraseAll state.windows entry.windowLabels })

/-- The session a window's close is to stop, for `stopSession` to go on with. -/
def windowSession (label : String) : Option String := state.windows.lookup label

/-- The sessions `stopSession` is to be called with in turn, when all are to stop. -/
def openSessions : List String := state.entries.map Prod.fst

def sessions : List DesktopSessionReport :=
  (state.entries.map fun entry => entry.2.report status entry.1).insertionSort fun left right =>
    left.sessionId ≤ right.sessionId

end DesktopSessionState

/-- The runtime, with the start that holds the lock across its waits and the stops that
wait for a session to stop, the lock released. The last two fields remember which
sessions were ever started, and which were ever stopped. -/
structure DesktopHoloRuntime where
  state : DesktopSessionState := {}
  starting : Option String := none
  stopping : List (String × DesktopSessionEntry) := []
  started : List Nat := []
  stopped : List Nat := []

/-- `inspected` is what the archive says its applications are, `outcome` what starting
or stopping the session came to. A window's close and the stop of all sessions come
down to the stop of a session under some id. -/
inductive SessionAction where
  | startBegin (archiveKappa : String) (inspected : Except String (List String))
  | startEnd (outcome : Except String HoloApplicationSession) (assets : ViewAssetState)
  | stopBegin (sessionId : String)
  | stopEnd (place : Nat) (outcome : Except String Unit)

namespace DesktopHoloRuntime

def step (debug : String → String) (status : Nat → String) (runtime : DesktopHoloRuntime) :
    SessionAction → Option DesktopHoloRuntime
  | .startBegin archiveKappa inspected =>
    if runtime.starting.isSome then none
    else
      match inspected with
      | .error _ => some runtime
      | .ok applicationKappas =>
        match runtime.state.alreadyOpen status archiveKappa applicationKappas with
        | some _ => some runtime
        | none => some { runtime with starting := some archiveKappa }
  | .startEnd outcome assets =>
    match runtime.starting with
    | none => none
    | some archiveKappa =>
      match outcome with
      | .error _ => some { runtime with starting := none }
      | .ok session =>
        -- a session that is refused here is stopped, and was never registered
        if session.archiveKappa ≠ archiveKappa then some { runtime with starting := none }
        else
          match runtime.state.registerStarted status assets archiveKappa session with
          | .error _ => some { runtime with starting := none }
          | .ok (_, state) =>
            some
              { runtime with state, starting := none, started := session.handle :: runtime.started }
  | .stopBegin sessionId =>
    if runtime.starting.isSome then none
    else
      match runtime.state.takeEntry debug sessionId with
      | .error _ => some runtime
      | .ok (entry, state) =>
        some { runtime with state, stopping := runtime.stopping ++ [(sessionId, entry)] }
  | .stopEnd place outcome =>
    match runtime.stopping[place]? with
    | none => none
    | some (sessionId, entry) =>
      match outcome with
      | .ok () =>
        some
          { runtime with
            stopping := runtime.stopping.eraseIdx place
            stopped := entry.session.handle :: runtime.stopped }
      | .error _ =>
        if runtime.starting.isSome then none
        else
          some
            { runtime with
              state := runtime.state.insertEntry sessionId entry
              stopping := runtime.stopping.eraseIdx place }

end DesktopHoloRuntime

/-- The indices have exactly the keys of the open entries. -/
structure Consistent (state : DesktopSessionState) : Prop where
  archives : Indexes (fun entry => [entry.archiveKappa]) state.entries state.archives
  applications : Indexes DesktopSessionEntry.applicationKappas state.entries state.applications
  windows : Indexes DesktopSessionEntry.windowLabels state.entries state.windows

/-- Every session that was started and not stopped is open, or is being stopped. -/
def Accounted (runtime : DesktopHoloRuntime) : Prop :=
  ∀ handle ∈ runtime.started, handle ∉ runtime.stopped →
    (∃ sessionId entry, runtime.state.entries.lookup sessionId = some entry ∧
      entry.session.handle = handle) ∨
    ∃ pair ∈ runtime.stopping, pair.2.session.handle = handle

theorem mem_labelsForApplications {assets : ViewAssetState} :
    label ∈ assets.labelsForApplications applicationKappas ↔
      ∃ attachment, (label, attachment) ∈ assets.attachments ∧
        attachment.id.applicationKappa ∈ applicationKappas := by
  simp [ViewAssetState.labelsForApplications, List.mem_insertionSort]

/-- No application belongs to two open sessions. -/
theorem Consistent.apart {state : DesktopSessionState} (h : Consistent state)
    (hleft : state.entries.lookup left = some entry)
    (hright : state.entries.lookup right = some other)
    (hkappa : kappa ∈ entry.applicationKappas) (hkappa' : kappa ∈ other.applicationKappas) :
    left = right :=
  h.applications.unique hleft hright hkappa hkappa'

/-- An entry under an id of its own, none of whose keys is taken. -/
theorem Consistent.insertEntry {state : DesktopSessionState} (h : Consistent state)
    {entry : DesktopSessionEntry} (hid : state.entries.lookup sessionId = none)
    (harchive : state.archives.lookup entry.archiveKappa = none)
    (happlications : ∀ kappa ∈ entry.applicationKappas, state.applications.lookup kappa = none)
    (hwindows : ∀ label ∈ entry.windowLabels, state.windows.lookup label = none) :
    Consistent (state.insertEntry sessionId entry) where
  archives := h.archives.insert hid (by simpa using harchive)
  applications := h.applications.insert hid happlications
  windows := h.windows.insert hid hwindows

namespace DesktopHoloRuntime

/-- Window labels are made from digests over the application they are of, so none is
used for two. `applicationOf` says which it is. -/
def Minted (applicationOf : String → String) (assets : ViewAssetState) : Prop :=
  ∀ label attachment, (label, attachment) ∈ assets.attachments →
    attachment.id.applicationKappa = applicationOf label

/-- A stop that fails finds nothing open under its session's id, archive or applications,
and a new session's id is not in use. -/
def Undisturbed (applicationOf : String → String) (runtime : DesktopHoloRuntime) :
    SessionAction → Prop
  | .startEnd (.ok _) assets => Minted applicationOf assets ∧
      runtime.state.entries.lookup (DesktopSessionState.sessionId runtime.state.bumped) = none
  | .stopEnd place (.error _) => ∀ sessionId entry,
      runtime.stopping[place]? = some (sessionId, entry) →
      runtime.state.entries.lookup sessionId = none ∧
      ∀ other still, runtime.state.entries.lookup other = some still →
        still.archiveKappa ≠ entry.archiveKappa ∧
          ∀ kappa ∈ entry.applicationKappas, kappa ∉ still.applicationKappas
  | _ => True

/-- The windows an entry lists are of its applications. -/
def Windowed (applicationOf : String → String) (entry : DesktopSessionEntry) : Prop :=
  ∀ label ∈ entry.windowLabels, applicationOf label ∈ entry.applicationKappas

structure Sound (applicationOf : String → String) (runtime : DesktopHoloRuntime) : Prop where
  consistent : Consistent runtime.state
  accounted : Accounted runtime
  /-- What the start that holds the lock has seen to be free still is. -/
  starting : ∀ archiveKappa, runtime.starting = some archiveKappa →
    runtime.state.archives.lookup archiveKappa = none
  windowed : ∀ sessionId entry, runtime.state.entries.lookup sessionId = some entry →
    Windowed applicationOf entry
  waiting : ∀ pair ∈ runtime.stopping, Windowed applicationOf pair.2

section Sound
variable {applicationOf : String → String} {debug : String → String} {status : Nat → String}
  {runtime next : DesktopHoloRuntime}

/-- Windows are free where the applications they are of are. -/
theorem Sound.windows_free (h : Sound applicationOf runtime) {entry : DesktopSessionEntry}
    (hwindowed : Windowed applicationOf entry)
    (hfree : ∀ kappa ∈ entry.applicationKappas,
      runtime.state.applications.lookup kappa = none) :
    ∀ label ∈ entry.windowLabels, runtime.state.windows.lookup label = none := by
  intro label hlabel
  refine h.consistent.windows.lookup_eq_none ?_
  intro sessionId still hstill hmem
  have htaken := (h.consistent.applications _ _).mpr
    ⟨still, hstill, h.windowed sessionId still hstill label hmem⟩
  rw [hfree _ (hwindowed label hlabel)] at htaken
  cases htaken

/-- An entry put under a free id loses no other. -/
theorem lookup_insertEntry {state : DesktopSessionState} {entry still : DesktopSessionEntry}
    (hid : state.entries.lookup sessionId = none)
    (hstill : state.entries.lookup other = some still) :
    (state.insertEntry sessionId entry).entries.lookup other = some still := by
  refine (lookup_insert ..).trans ((if_neg ?_).trans hstill)
  rintro rfl
  rw [hid] at hstill
  cases hstill

theorem lookup_insertEntry_self {state : DesktopSessionState} {entry : DesktopSessionEntry} :
    (state.insertEntry sessionId entry).entries.lookup sessionId = some entry :=
  (lookup_insert ..).trans (if_pos rfl)

theorem windowed_insertEntry {state : DesktopSessionState} {entry : DesktopSessionEntry}
    (hentries : ∀ sessionId entry, state.entries.lookup sessionId = some entry →
      Windowed applicationOf entry) (hentry : Windowed applicationOf entry) :
    ∀ other still, (state.insertEntry sessionId entry).entries.lookup other = some still →
      Windowed applicationOf still := by
  intro other still hstill
  rw [DesktopSessionState.insertEntry, lookup_insert] at hstill
  split at hstill
  · exact Option.some.inj hstill ▸ hentry
  · exact hentries other still hstill

theorem Sound.registers (h : Sound applicationOf runtime)
    (hstarting : runtime.starting = some archiveKappa) (hminted : Minted applicationOf assets)
    (hid : runtime.state.entries.lookup
      (DesktopSessionState.sessionId runtime.state.bumped) = none)
    (hregister : runtime.state.registerStarted status assets archiveKappa session =
      .ok (report, registered)) :
    Sound applicationOf
      { runtime with
        state := registered, starting := none, started := session.handle :: runtime.started } := by
  rw [DesktopSessionState.registerStarted] at hregister
  split at hregister
  · cases hregister
  · rename_i hfree
    obtain ⟨_, rfl⟩ := Prod.mk.inj (Except.ok.inj hregister)
    have happlications : ∀ kappa ∈ session.applicationKappas,
        runtime.state.applications.lookup kappa = none := by
      intro kappa hkappa
      simpa only [Option.not_isSome_iff_eq_none] using List.find?_eq_none.mp hfree kappa hkappa
    have hwindowed : Windowed applicationOf
        ⟨archiveKappa, session.applicationKappa, session.applicationKappas,
          assets.labelsForApplications session.applicationKappas, session⟩ := by
      intro label hlabel
      obtain ⟨attachment, hmem, hkappa⟩ := mem_labelsForApplications.mp hlabel
      rwa [hminted label attachment hmem] at hkappa
    refine ⟨?_, ?_, nofun, ?_, h.waiting⟩
    · have hnumbered : Consistent { runtime.state with nextId := runtime.state.bumped } :=
        ⟨h.consistent.archives, h.consistent.applications, h.consistent.windows⟩
      exact hnumbered.insertEntry hid (h.starting archiveKappa hstarting) happlications
        (h.windows_free hwindowed happlications)
    · intro handle hhandle hrunning
      rcases List.mem_cons.mp hhandle with rfl | hhandle
      · exact .inl ⟨_, _, lookup_insertEntry_self, rfl⟩
      · rcases h.accounted handle hhandle hrunning with ⟨other, still, hstill, hsame⟩ | hwaiting
        · exact .inl ⟨other, still, lookup_insertEntry hid hstill, hsame⟩
        · exact .inr hwaiting
    · exact windowed_insertEntry h.windowed hwindowed

theorem Sound.takes (h : Sound applicationOf runtime) (hfree : runtime.starting = none)
    (htake : runtime.state.takeEntry debug sessionId = .ok (entry, rest)) :
    Sound applicationOf
      { runtime with state := rest, stopping := runtime.stopping ++ [(sessionId, entry)] } := by
  rw [DesktopSessionState.takeEntry] at htake
  cases hentry : runtime.state.entries.lookup sessionId with
  | none =>
    rw [hentry] at htake
    cases htake
  | some found =>
    rw [hentry] at htake
    cases htake
    refine ⟨⟨h.consistent.archives.erase hentry, h.consistent.applications.erase hentry,
      h.consistent.windows.erase hentry⟩, ?_, ?_, ?_, ?_⟩
    · intro handle hhandle hrunning
      rcases h.accounted handle hhandle hrunning with ⟨other, still, hstill, hsame⟩ | hwaiting
      · by_cases hother : other = sessionId
        · -- the session just taken out
          subst hother
          obtain rfl := Option.some.inj (hentry.symm.trans hstill)
          exact .inr ⟨_, List.mem_append_right _ (List.mem_singleton_self _), hsame⟩
        · exact .inl ⟨other, still, (lookup_erase ..).trans ((if_neg hother).trans hstill), hsame⟩
      · obtain ⟨pair, hpair, hsame⟩ := hwaiting
        exact .inr ⟨pair, List.mem_append_left _ hpair, hsame⟩
    · intro archiveKappa hstarting
      rw [hfree] at hstarting
      cases hstarting
    · intro other still hstill
      rw [lookup_erase] at hstill
      split at hstill
      · cases hstill
      · exact h.windowed other still hstill
    · intro pair hpair
      rcases List.mem_append.mp hpair with hpair | hpair
      · exact h.waiting pair hpair
      · obtain rfl := List.mem_singleton.mp hpair
        exact h.windowed sessionId _ hentry

/-- What another stop waits for is still waited for when one has ended. -/
theorem mem_eraseIdx {stopping : List (String × DesktopSessionEntry)}
    (hplace : stopping[place]? = some ended) (hpair : pair ∈ stopping) :
    pair = ended ∨ pair ∈ stopping.eraseIdx place := by
  obtain ⟨other, hother⟩ := List.mem_iff_getElem?.mp hpair
  by_cases hsame : other = place
  · subst hsame
    exact .inl (Option.some.inj (hother.symm.trans hplace))
  · exact .inr (List.mem_eraseIdx_iff_getElem?.mpr ⟨other, hsame, hother⟩)

theorem Sound.stops (h : Sound applicationOf runtime)
    (hplace : runtime.stopping[place]? = some (sessionId, entry)) :
    Sound applicationOf
      { runtime with
        stopping := runtime.stopping.eraseIdx place
        stopped := entry.session.handle :: runtime.stopped } := by
  refine ⟨h.consistent, ?_, h.starting, h.windowed, ?_⟩
  · intro handle hhandle hrunning
    obtain ⟨hother, hrunning⟩ := not_or.mp (List.mem_cons.not.mp hrunning)
    rcases h.accounted handle hhandle hrunning with hopen | ⟨pair, hpair, hsame⟩
    · exact .inl hopen
    · rcases mem_eraseIdx hplace hpair with rfl | hstill
      · exact absurd hsame.symm hother
      · exact .inr ⟨pair, hstill, hsame⟩
  · intro pair hpair
    exact h.waiting pair (List.mem_of_mem_eraseIdx hpair)

theorem Sound.returns (h : Sound applicationOf runtime) (hfree : runtime.starting = none)
    (hplace : runtime.stopping[place]? = some (sessionId, entry))
    (hid : runtime.state.entries.lookup sessionId = none)
    (hapart : ∀ other still, runtime.state.entries.lookup other = some still →
      still.archiveKappa ≠ entry.archiveKappa ∧
        ∀ kappa ∈ entry.applicationKappas, kappa ∉ still.applicationKappas) :
    Sound applicationOf
      { runtime with
        state := runtime.state.insertEntry sessionId entry
        stopping := runtime.stopping.eraseIdx place } := by
  have hwindowed := h.waiting _ (List.mem_of_getElem? hplace)
  have happlications : ∀ kappa ∈ entry.applicationKappas,
      runtime.state.applications.lookup kappa = none := by
    intro kappa hkappa
    exact h.consistent.applications.lookup_eq_none fun other still hstill =>
      (hapart other still hstill).2 kappa hkappa
  have harchive : runtime.state.archives.lookup entry.archiveKappa = none := by
    refine h.consistent.archives.lookup_eq_none fun other still hstill hmem => ?_
    exact (hapart other still hstill).1 (List.mem_singleton.mp hmem).symm
  refine ⟨h.consistent.insertEntry hid harchive happlications
    (h.windows_free hwindowed happlications), ?_, ?_, windowed_insertEntry h.windowed hwindowed, ?_⟩
  · intro handle hhandle hrunning
    rcases h.accounted handle hhandle hrunning with ⟨other, still, hstill, hsame⟩ |
      ⟨pair, hpair, hsame⟩
    · exact .inl ⟨other, still, lookup_insertEntry hid hstill, hsame⟩
    · rcases mem_eraseIdx hplace hpair with rfl | hstill
      · exact .inl ⟨sessionId, entry, lookup_insertEntry_self, hsame⟩
      · exact .inr ⟨pair, hstill, hsame⟩
  · intro archiveKappa hstarting
    rw [hfree] at hstarting
    cases hstarting
  · intro pair hpair
    exact h.waiting pair (List.mem_of_mem_eraseIdx hpair)

/-- A start that registers nothing. -/
theorem Sound.gives_up (h : Sound applicationOf runtime) :
    Sound applicationOf { runtime with starting := none } :=
  ⟨h.consistent, h.accounted, nofun, h.windowed, h.waiting⟩

theorem Sound.step (h : Sound applicationOf runtime)
    (hallowed : runtime.Undisturbed applicationOf action)
    (hstep : runtime.step debug status action = some next) : Sound applicationOf next := by
  cases action with
  | startBegin archiveKappa inspected =>
    dsimp only [DesktopHoloRuntime.step] at hstep
    split at hstep
    · cases hstep
    · cases inspected with
      | error error =>
        obtain rfl := Option.some.inj hstep
        exact h
      | ok applicationKappas =>
        dsimp only at hstep
        cases hopen : runtime.state.alreadyOpen status archiveKappa applicationKappas with
        | some answer =>
          rw [hopen] at hstep
          obtain rfl := Option.some.inj hstep
          exact h
        | none =>
          rw [hopen] at hstep
          obtain rfl := Option.some.inj hstep
          refine ⟨h.consistent, h.accounted, ?_, h.windowed, h.waiting⟩
          rintro _ ⟨⟩
          rw [DesktopSessionState.alreadyOpen] at hopen
          cases harchive : runtime.state.archives.lookup archiveKappa with
          | none => rfl
          | some sessionId =>
            rw [harchive] at hopen
            dsimp only at hopen
            split at hopen <;> cases hopen
  | startEnd outcome assets =>
    dsimp only [DesktopHoloRuntime.step] at hstep
    split at hstep
    · cases hstep
    · rename_i archiveKappa hstarting
      cases outcome with
      | error error =>
        obtain rfl := Option.some.inj hstep
        exact h.gives_up
      | ok session =>
        obtain ⟨hminted, hid⟩ := hallowed
        dsimp only at hstep
        split at hstep
        · obtain rfl := Option.some.inj hstep
          exact h.gives_up
        · cases hregister : runtime.state.registerStarted status assets archiveKappa session with
          | error error =>
            rw [hregister] at hstep
            obtain rfl := Option.some.inj hstep
            exact h.gives_up
          | ok registered =>
            rw [hregister] at hstep
            obtain rfl := Option.some.inj hstep
            exact h.registers hstarting hminted hid hregister
  | stopBegin sessionId =>
    dsimp only [DesktopHoloRuntime.step] at hstep
    split at hstep
    · cases hstep
    · rename_i hfree
      cases htake : runtime.state.takeEntry debug sessionId with
      | error error =>
        rw [htake] at hstep
        obtain rfl := Option.some.inj hstep
        exact h
      | ok taken =>
        rw [htake] at hstep
        obtain rfl := Option.some.inj hstep
        exact h.takes (Option.not_isSome_iff_eq_none.mp hfree) htake
  | stopEnd place outcome =>
    dsimp only [DesktopHoloRuntime.step] at hstep
    split at hstep
    · cases hstep
    · rename_i sessionId entry hplace
      cases outcome with
      | ok _ =>
        obtain rfl := Option.some.inj hstep
        exact h.stops hplace
      | error error =>
        dsimp only at hstep
        split at hstep
        · cases hstep
        · rename_i hfree
          obtain rfl := Option.some.inj hstep
          obtain ⟨hid, hapart⟩ := hallowed sessionId entry hplace
          exact h.returns (Option.not_isSome_iff_eq_none.mp hfree) hplace hid hapart

theorem Sound.start : Sound applicationOf {} :=
  ⟨⟨.nil, .nil, .nil⟩, nofun, nofun, nofun, nofun⟩

section Sample

end Sample
end Sound
end DesktopHoloRuntime
end HologramLive.Desktop
