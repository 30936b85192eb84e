import HologramLive.Watch.Registry

namespace HologramLive.Watch
open Lib Lib.Interleaving

namespace Call

/-- The records a call is about to write. -/
def writes : Call → Option (List WatchedHoloProject)
  | .persisting (.listed records) _ => some records
  | _ => none

/-- A call that lists the registry before it is over. -/
def owes : Call → Bool
  | .persisting .waiting _ | .persisting .locked _ | .compiling _ | .failing _ _ => true
  | _ => false

/-- A call that takes back a registration whose persist was refused. -/
def rolling : Call → Bool
  | .rollingBack .. => true
  | _ => false

/-- A call that neither has nor wants the persistence lock. -/
structure Aside (call : Call) : Prop where
  lock : call.holdsLock = false
  leaving : call.leaving = none

theorem writes_lock {call : Call} (h : call.writes = some records) : call.holdsLock = true := by
  cases call with
  | persisting stage after =>
    cases stage with
    | listed records => rfl
    | _ => cases h
  | _ => cases h

theorem writes_unlocked {call : Call} (h : call.holdsLock = false) : call.writes = none := by
  cases hwrites : call.writes with
  | none => rfl
  | some records =>
    rw [writes_lock hwrites] at h
    cases h

/-- A removal is under way at every stage of its persist. -/
theorem staged_leaving {id : String} {stage stage' : Stage} {after : After}
    (h : (persisting stage after).leaving = some id) :
    (persisting stage' after).leaving = some id := by
  cases after <;> exact h

theorem owes_inProgress {call : Call} (h : call.owes = true) : call.inProgress = true := by
  cases call <;> first | rfl | cases h

theorem writes_inProgress {call : Call} (h : call.writes = some records) :
    call.inProgress = true := by
  cases call <;> first | rfl | cases h

theorem answer_aside (result : Except String WatchedHoloProject) (origin : Origin) :
    (answer result origin).Aside ∧ (answer result origin).owes = false ∧
      (answer result origin).rolling = false := by
  cases origin with
  | add => exact ⟨⟨rfl, rfl⟩, rfl, rfl⟩
  | restore rest failures => cases rest <;> exact ⟨⟨rfl, rfl⟩, rfl, rfl⟩

theorem settle_aside (result : Except String Unit) (after : After) :
    (settle result after).Aside ∧ (settle result after).owes = false ∧
      (result = .ok () → (settle result after).rolling = false) := by
  cases after with
  | start record origin => cases result <;> exact ⟨⟨rfl, rfl⟩, rfl, by simp [settle, rolling]⟩
  | fail error origin =>
    obtain ⟨haside, howes, hrolling⟩ := answer_aside (.error error) origin
    exact ⟨haside, howes, fun _ => hrolling⟩
  | removed id => exact ⟨⟨rfl, rfl⟩, rfl, fun _ => rfl⟩
  | built => exact ⟨⟨rfl, rfl⟩, rfl, fun _ => rfl⟩

end Call

/-- The records in memory are each under the id it has itself. -/
def Keyed (watches : List (String × WatchedHoloProject)) : Prop :=
  ∀ entry ∈ watches, entry.2.id = entry.1

theorem Keyed.erase (h : Keyed watches) (id : String) : Keyed (Table.erase watches id) :=
  fun entry hentry => h entry (List.mem_of_mem_filter hentry)

theorem Keyed.insert (h : Keyed watches) (record : WatchedHoloProject) :
    Keyed (Table.insert watches record.id record) := by
  intro entry hentry
  rcases List.mem_cons.mp hentry with rfl | hold
  · rfl
  · exact h.erase record.id entry hold

theorem Keyed.update (h : Keyed watches) (id : String)
    (update : WatchedHoloProject → WatchedHoloProject) (hid : ∀ record, (update record).id = record.id) :
    Keyed (watches.map fun entry => if entry.1 = id then (entry.1, update entry.2) else entry) := by
  intro entry hentry
  obtain ⟨old, hold, rfl⟩ := List.mem_map.mp hentry
  split
  · exact (hid _).trans (h old hold)
  · exact h old hold

/-- What a turn can do to the registry and the file. -/
inductive Turned (lockFree : Bool) (shared : Shared) :
    Outcome → Call → Call → Shared → Prop where
  | quiet (before : call.Aside) (after : next.Aside) (owes : next.owes = call.owes)
    (calm : call.rolling = false) (calm' : next.rolling = false) :
    Turned lockFree shared outcome call next shared
  /-- A change of the records in memory that its call is going to persist. -/
  | changed (before : call.Aside) (after : next.holdsLock = false) (owes : next.owes = true)
    (calm : call.rolling = false) (calm' : next.rolling = false)
    (keyed : Keyed shared.watches → Keyed watches) :
    Turned lockFree shared outcome call next { shared with watches }
  | rolledBack (id : String) (after : next.Aside) (owes : next.owes = false) (calm : next.rolling = false) :
    Turned lockFree shared outcome (.rollingBack id error origin) next
      { shared with watches := Table.erase shared.watches id }
  | locked (free : lockFree = true) :
    Turned lockFree shared outcome (.persisting .waiting after) (.persisting .locked after) shared
  | listed : Turned lockFree shared .granted (.persisting .locked after)
      (.persisting (.listed shared.list) after) shared
  | refused (lock : (Call.persisting stage after).holdsLock = true) (reason error : String) :
    Turned lockFree shared (.refused reason) (.persisting stage after)
      (Call.settle (.error error) after) shared.refuse
  | replaced : Turned lockFree shared .granted (.persisting (.listed records) after)
      (Call.settle (.ok ()) after) (shared.replace records after)

/-- A turn that only gives its call's answer. -/
theorem Turned.answered {call : Call} (before : call.Aside) (owes : call.owes = false)
    (calm : call.rolling = false) (result : Except String WatchedHoloProject) (origin : Origin) :
    Turned lockFree shared outcome call (Call.answer result origin) shared := by
  obtain ⟨haside, howes, hrolling⟩ := Call.answer_aside result origin
  exact .quiet before haside (howes.trans owes.symm) calm hrolling

theorem turn_cases {call next : Call}
    (h : call.turn watchId lockFree outcome shared = some (next, shared')) :
    Turned lockFree shared outcome call next shared' := by
  cases call <;> simp only [Call.turn, reduceCtorEq] at h
  case loading =>
    repeat' split at h
    all_goals cases h
    all_goals exact .quiet ⟨rfl, rfl⟩ ⟨rfl, rfl⟩ rfl rfl rfl
  case opening directory previous origin =>
    repeat' split at h
    all_goals cases h
    all_goals
      first
        | exact .answered ⟨rfl, rfl⟩ rfl rfl _ _
        | exact .quiet ⟨rfl, rfl⟩ ⟨rfl, rfl⟩ rfl rfl rfl
  case inserting record origin =>
    repeat' split at h
    all_goals cases h
    · exact .answered ⟨rfl, rfl⟩ rfl rfl _ _
    · exact .changed ⟨rfl, rfl⟩ rfl rfl rfl rfl fun hkeyed => hkeyed.insert record
  case persisting stage after =>
    cases stage with
    | waiting =>
      dsimp only at h
      split at h
      · rename_i hfree
        cases h
        exact .locked hfree
      · cases h
    | locked =>
      dsimp only at h
      split at h
      · cases h
        exact .refused rfl _ _
      · cases h
        exact .listed
      · cases h
    | listed records =>
      dsimp only at h
      split at h
      · cases h
        exact .refused rfl _ _
      · cases h
        exact .replaced
      · cases h
  case rollingBack id error origin =>
    cases h
    obtain ⟨haside, howes, hrolling⟩ := Call.answer_aside (.error error) origin
    exact .rolledBack id haside howes hrolling
  case starting record origin =>
    repeat' split at h
    all_goals cases h
    · exact .quiet ⟨rfl, rfl⟩ ⟨rfl, rfl⟩ rfl rfl rfl
    · exact .answered ⟨rfl, rfl⟩ rfl rfl _ _
  case dropping id error origin =>
    cases h
    exact .changed ⟨rfl, rfl⟩ rfl rfl rfl rfl fun hkeyed => hkeyed.erase id
  case removing id =>
    split at h <;> cases h
    · exact .quiet ⟨rfl, rfl⟩ ⟨rfl, rfl⟩ rfl rfl rfl
    · exact .changed ⟨rfl, rfl⟩ rfl rfl rfl rfl fun hkeyed => hkeyed.erase id
  case building id =>
    split at h <;> cases h
    · exact .quiet ⟨rfl, rfl⟩ ⟨rfl, rfl⟩ rfl rfl rfl
    · exact .changed ⟨rfl, rfl⟩ rfl rfl rfl rfl fun hkeyed => hkeyed.update id .compiling fun _ => rfl
  case compiling id =>
    repeat' split at h
    all_goals cases h
    · exact .quiet ⟨rfl, rfl⟩ ⟨rfl, rfl⟩ rfl rfl rfl
    · exact .changed ⟨rfl, rfl⟩ rfl rfl rfl rfl fun hkeyed => hkeyed.update id (.ready _ _ _) fun _ => rfl
  case failing id error =>
    cases h
    exact .changed ⟨rfl, rfl⟩ rfl rfl rfl rfl fun hkeyed => hkeyed.update id (.failed error) fun _ => rfl

theorem Shared.mem_list {shared : Shared} {id : String} (h : Keyed shared.watches)
    (hid : id ∈ shared.watches.map Prod.fst) : id ∈ shared.list.map (·.id) := by
  obtain ⟨entry, hentry, rfl⟩ := List.mem_map.mp hid
  refine List.mem_map.mpr ⟨entry.2, ?_, h entry hentry⟩
  exact List.mem_map.mpr ⟨entry, Table.mem_listing.mpr hentry, rfl⟩

namespace Process

/-- Some call will list the registry before it is over. -/
def Owed (process : Process) : Prop := ∃ call ∈ process.calls, call.owes = true

/-- What a persist needs to find when it lists the registry: every project that was
persisted and is not being removed, and none whose own persist was refused. -/
structure Complete (process : Process) : Prop where
  there : ∀ id ∈ process.shared.persisted,
    id ∈ process.shared.watches.map Prod.fst ∨ process.leaving id
  calm : ∀ call ∈ process.calls, call.rolling = false

/-- A `remove` that does not go through leaves its project in the file, unless another
`remove` of it is under way. -/
def Spares (process : Process) (place : Nat) (id : String) : Prop :=
  id ∈ process.shared.persisted → id ∈ process.shared.file.ids ∨
    ∃ call ∈ process.calls.eraseIdx place, call.leaving = some id

def Orderly (process : Process) : Action → Prop
  | .advance place outcome =>
    match process.calls[place]?, outcome with
    | some (.persisting .locked _), .granted => process.Complete
    | some (.persisting .locked (.removed id)), .refused _
    | some (.persisting (.listed _) (.removed id)), .refused _ => process.Spares place id
    | _, _ => True
  | .exit => ∀ id ∈ process.shared.persisted, process.leaving id → id ∈ process.shared.file.ids
  | _ => True

/-- The file has every project it should have, and any list about to replace it too. What
was written last is what is in memory, or some call is going to write again. -/
structure Sound (process : Process) : Prop where
  keyed : Keyed process.shared.watches
  exclusive : Exclusive (fun (call : Call) (_ : Unit) => call.holdsLock) process.calls
  kept : ∀ id ∈ process.shared.persisted, id ∈ process.shared.file.ids ∨ process.leaving id
  written : ∀ call ∈ process.calls, ∀ records, call.writes = some records →
    (∀ id ∈ process.shared.persisted, id ∈ records.map (·.id) ∨ process.leaving id) ∧
      (records = process.shared.list ∨ process.Owed)
  current : process.shared.lastPersist = some true →
    process.shared.file = .records process.shared.list ∨ process.Owed ∨
      ∃ call ∈ process.calls, ∃ records, call.writes = some records
  rolling : ∀ call ∈ process.calls, call.rolling = true →
    process.shared.lastPersist = some false ∧ ∀ other ∈ process.calls, other.writes = none

theorem fresh_sound (file : Saved) : (fresh file).Sound where
  keyed := by simp [fresh, Keyed]
  exclusive := .nil
  kept id hid := .inl hid
  written := by simp [fresh]
  current := by simp [fresh]
  rolling := by simp [fresh]

section Step
variable {process : Process} {call next : Call} {place : Nat}

theorem leaving_kept {id : String} (hplace : process.calls[place]? = some call)
    (hkept : call.leaving = some id → next.leaving = some id) (shared : Shared)
    (h : process.leaving id) : leaving ⟨shared, process.calls.set place next⟩ id := by
  obtain ⟨other, hother, hleaving⟩ := h
  obtain ⟨turn, hturn⟩ := List.mem_iff_getElem?.mp hother
  by_cases hsame : turn = place
  · subst hsame
    obtain rfl := Option.some.inj (hplace.symm.trans hturn)
    have hlt := (List.getElem?_eq_some_iff.mp hplace).1
    exact ⟨next, List.mem_of_getElem? (List.getElem?_set_self hlt), hkept hleaving⟩
  · exact ⟨other, mem_set_of_ne hturn hsame next, hleaving⟩

theorem owed_kept (hplace : process.calls[place]? = some call)
    (hkept : call.owes = true → next.owes = true) (shared : Shared)
    (h : process.Owed) : Owed ⟨shared, process.calls.set place next⟩ := by
  obtain ⟨other, hother, howes⟩ := h
  obtain ⟨turn, hturn⟩ := List.mem_iff_getElem?.mp hother
  by_cases hsame : turn = place
  · subst hsame
    obtain rfl := Option.some.inj (hplace.symm.trans hturn)
    have hlt := (List.getElem?_eq_some_iff.mp hplace).1
    exact ⟨next, List.mem_of_getElem? (List.getElem?_set_self hlt), hkept howes⟩
  · exact ⟨other, mem_set_of_ne hturn hsame next, howes⟩

theorem owed_self (hplace : process.calls[place]? = some call) (howes : next.owes = true)
    (shared : Shared) : Owed ⟨shared, process.calls.set place next⟩ :=
  ⟨next, List.mem_of_getElem? (List.getElem?_set_self (List.getElem?_eq_some_iff.mp hplace).1), howes⟩

theorem exclusive_kept (h : process.Sound) (hplace : process.calls[place]? = some call)
    (hgain : next.holdsLock = true → call.holdsLock = true ∨ process.lockFree = true) :
    Exclusive (fun (call : Call) (_ : Unit) => call.holdsLock) (process.calls.set place next) :=
  h.exclusive.set hplace fun _ hheld => hgain hheld

/-- While a call has the lock no other is about to write. -/
theorem writes_other (h : process.Sound) (hplace : process.calls[place]? = some call)
    (hlock : call.holdsLock = true) (hother : process.calls[turn]? = some other)
    (hne : turn ≠ place) : other.writes = none := by
  cases hwrites : other.writes with
  | none => rfl
  | some records =>
    have hlock' := Call.writes_lock hwrites
    exact absurd (h.exclusive turn place other call () hother hplace hlock' hlock) hne

/-- Nor is any once the call has given the lock up. -/
theorem writes_none (h : process.Sound) (hplace : process.calls[place]? = some call)
    (hlock : call.holdsLock = true) (hnext : next.writes = none) :
    ∀ other ∈ process.calls.set place next, other.writes = none := by
  intro other hother
  rcases mem_set_cases hother with rfl | ⟨turn, hne, hold⟩
  · exact hnext
  · exact writes_other h hplace hlock hold hne

/-- A turn that touches neither the file nor what was persisted. What it changes in memory
it persists, unless nothing rests on what was written last. -/
theorem Sound.inMemory (h : process.Sound) (hplace : process.calls[place]? = some call)
    (hlock : next.holdsLock = true → call.holdsLock = true ∨ process.lockFree = true)
    (hbefore : call.writes = none) (hafter : next.writes = none) (hcalm : next.rolling = false)
    (hleaving : ∀ id, call.leaving = some id → next.leaving = some id)
    {watches : List (String × WatchedHoloProject)} (hkeyed : Keyed watches)
    (hcurrent : watches = process.shared.watches ∧ (call.owes = true → next.owes = true) ∨
      next.owes = true ∨ process.shared.lastPersist = some false ∧
        ∀ other ∈ process.calls, other.writes = none) :
    Sound ⟨{ process.shared with watches }, process.calls.set place next⟩ where
  keyed := hkeyed
  exclusive := exclusive_kept h hplace hlock
  kept id hid := (h.kept id hid).imp_right (leaving_kept hplace (hleaving id) _)
  written other hother records hwrites := by
    rcases mem_set_cases hother with rfl | ⟨turn, hne, hold⟩
    · rw [hafter] at hwrites
      cases hwrites
    · obtain ⟨hthere, hfresh⟩ := h.written other (List.mem_of_getElem? hold) records hwrites
      refine ⟨fun id hid => (hthere id hid).imp_right (leaving_kept hplace (hleaving id) _), ?_⟩
      rcases hcurrent with ⟨rfl, howes⟩ | howes | ⟨_, hnone⟩
      · exact hfresh.imp_right (owed_kept hplace howes _)
      · exact .inr (owed_self hplace howes _)
      · rw [hnone other (List.mem_of_getElem? hold)] at hwrites
        cases hwrites
  current hlast := by
    rcases hcurrent with ⟨rfl, howes⟩ | howes | ⟨hfailed, _⟩
    · rcases h.current hlast with hfile | howed | ⟨other, hother, records, hwrites⟩
      · exact .inl hfile
      · exact .inr (.inl (owed_kept hplace howes _ howed))
      · obtain ⟨turn, hturn⟩ := List.mem_iff_getElem?.mp hother
        have hne : turn ≠ place := by
          rintro rfl
          obtain rfl := Option.some.inj (hplace.symm.trans hturn)
          rw [hbefore] at hwrites
          cases hwrites
        exact .inr (.inr ⟨other, mem_set_of_ne hturn hne next, records, hwrites⟩)
    · exact .inr (.inl (owed_self hplace howes _))
    · rw [hfailed] at hlast
      cases hlast
  rolling rolled hrolled hrolling := by
    rcases mem_set_cases hrolled with rfl | ⟨turn, _, hold⟩
    · rw [hcalm] at hrolling
      cases hrolling
    · obtain ⟨hfailed, hnone⟩ := h.rolling rolled (List.mem_of_getElem? hold) hrolling
      refine ⟨hfailed, fun other hother => ?_⟩
      rcases mem_set_cases hother with rfl | ⟨turn, _, hold⟩
      · exact hafter
      · exact hnone other (List.mem_of_getElem? hold)

/-- A persist lists a registry that is complete. -/
theorem Sound.listed (h : process.Sound)
    (hplace : process.calls[place]? = some (.persisting .locked after))
    (hcomplete : process.Complete) :
    Sound ⟨process.shared,
      process.calls.set place (.persisting (.listed process.shared.list) after)⟩ where
  keyed := h.keyed
  exclusive := exclusive_kept h hplace fun _ => .inl rfl
  kept id hid := (h.kept id hid).imp_right (leaving_kept hplace Call.staged_leaving _)
  written other hother records hwrites := by
    rcases mem_set_cases hother with rfl | ⟨turn, hne, hold⟩
    · obtain rfl := Option.some.inj hwrites
      refine ⟨fun id hid => ?_, .inl rfl⟩
      rcases hcomplete.there id hid with hthere | hleaving
      · exact .inl (Shared.mem_list h.keyed hthere)
      · exact .inr (leaving_kept hplace Call.staged_leaving _ hleaving)
    · rw [writes_other h hplace rfl hold hne] at hwrites
      cases hwrites
  current _ := by
    refine .inr (.inr ⟨.persisting (.listed process.shared.list) after, ?_, _, rfl⟩)
    exact List.mem_of_getElem? (List.getElem?_set_self (List.getElem?_eq_some_iff.mp hplace).1)
  rolling rolled hrolled hrolling := by
    rcases mem_set_cases hrolled with rfl | ⟨turn, _, hold⟩
    · cases hrolling
    · rw [hcomplete.calm rolled (List.mem_of_getElem? hold)] at hrolling
      cases hrolling

/-- With its call's removal not going through, a project is where it was. -/
theorem leaving_settled {id : String} (hplace : process.calls[place]? = some call) (shared : Shared)
    (hother : call.leaving ≠ some id) (h : process.leaving id) :
    leaving ⟨shared, process.calls.set place next⟩ id :=
  leaving_kept hplace (fun hleaving => absurd hleaving hother) shared h

theorem Sound.refused (h : process.Sound)
    (hplace : process.calls[place]? = some (.persisting stage after))
    (hlock : (Call.persisting stage after).holdsLock = true)
    (hspares : ∀ id, after = .removed id → process.Spares place id) (error : String) :
    Sound ⟨process.shared.refuse, process.calls.set place (Call.settle (.error error) after)⟩ := by
  obtain ⟨haside, howes, _⟩ := Call.settle_aside (.error error) after
  have hnone := writes_none h hplace hlock (Call.writes_unlocked haside.lock)
  exact
    { keyed := h.keyed
      exclusive := exclusive_kept h hplace fun hheld => by rw [haside.lock] at hheld; cases hheld
      kept := by
        intro id hid
        by_cases hself : (Call.persisting stage after).leaving = some id
        · have hremoved : after = .removed id := by
            cases after <;> simp_all [Call.leaving]
          rcases hspares id hremoved hid with hfile | ⟨other, hother, hleaving⟩
          · exact .inl hfile
          · obtain ⟨turn, hne, hother⟩ := List.mem_eraseIdx_iff_getElem?.mp hother
            exact .inr ⟨other, mem_set_of_ne hother hne _, hleaving⟩
        · exact (h.kept id hid).imp_right (leaving_settled hplace _ hself)
      written := by
        intro other hother records hwrites
        rw [hnone other hother] at hwrites
        cases hwrites
      current := by
        intro hlast
        cases hlast
      rolling := fun _ _ _ => ⟨rfl, hnone⟩ }

theorem Sound.replaced (h : process.Sound)
    (hplace : process.calls[place]? = some (.persisting (.listed records) after)) :
    Sound ⟨process.shared.replace records after,
      process.calls.set place (Call.settle (.ok ()) after)⟩ := by
  obtain ⟨haside, howes, hcalm⟩ := Call.settle_aside (.ok ()) after
  obtain ⟨hthere, hfresh⟩ := h.written _ (List.mem_of_getElem? hplace) records rfl
  have hnone := writes_none h hplace rfl (Call.writes_unlocked haside.lock)
  exact
    { keyed := h.keyed
      exclusive := exclusive_kept h hplace fun hheld => by rw [haside.lock] at hheld; cases hheld
      kept := by
        intro id hid
        rcases List.mem_append.mp hid with hwritten | hearlier
        · exact .inl hwritten
        · have hother : id ∈ process.shared.persisted ∧
              (Call.persisting (.listed records) after).leaving ≠ some id := by
            cases after with
            | removed gone =>
              obtain ⟨hmem, hne⟩ := List.mem_filter.mp hearlier
              exact ⟨hmem, fun hleaving => of_decide_eq_true hne (Option.some.inj hleaving).symm⟩
            | start record origin => exact ⟨hearlier, nofun⟩
            | fail error origin => exact ⟨hearlier, nofun⟩
            | built => exact ⟨hearlier, nofun⟩
          exact (hthere id hother.1).imp_right (leaving_settled hplace _ hother.2)
      written := by
        intro other hother records hwrites
        rw [hnone other hother] at hwrites
        cases hwrites
      current := by
        intro _
        rcases hfresh with rfl | howed
        · exact .inl rfl
        · exact .inr (.inl (owed_kept hplace nofun _ howed))
      rolling := by
        intro rolled hrolled hrolling
        rcases mem_set_cases hrolled with rfl | ⟨turn, _, hold⟩
        · rw [hcalm rfl] at hrolling
          cases hrolling
        · obtain ⟨_, hquiet⟩ := h.rolling rolled (List.mem_of_getElem? hold) hrolling
          have hwrites := hquiet _ (List.mem_of_getElem? hplace)
          cases hwrites }

theorem Sound.advance (h : process.Sound) (hplace : process.calls[place]? = some call)
    (horderly : process.Orderly (.advance place outcome))
    (hturn : call.turn watchId process.lockFree outcome process.shared = some (next, shared')) :
    Sound ⟨shared', process.calls.set place next⟩ := by
  have hturned := turn_cases hturn
  cases hturned with
  | quiet before after owes calm calm' =>
    exact h.inMemory hplace (by simp [after.lock]) (Call.writes_unlocked before.lock)
      (Call.writes_unlocked after.lock) calm' (by simp [before.leaving]) h.keyed
      (.inl ⟨rfl, owes.trans⟩)
  | changed before after owes calm calm' keyed =>
    exact h.inMemory hplace (by simp [after]) (Call.writes_unlocked before.lock)
      (Call.writes_unlocked after) calm' (by simp [before.leaving]) (keyed h.keyed) (.inr (.inl owes))
  | rolledBack id after owes calm =>
    -- the refused persist was the last one, and nobody lists the registry before this turn
    have hquiet := h.rolling _ (List.mem_of_getElem? hplace) rfl
    exact h.inMemory hplace (by simp [after.lock]) rfl (Call.writes_unlocked after.lock) calm nofun
      (h.keyed.erase id) (.inr (.inr hquiet))
  | locked free =>
    exact h.inMemory hplace (fun _ => .inr free) rfl rfl rfl
      (fun id hleaving => Call.staged_leaving hleaving) h.keyed (.inl ⟨rfl, fun _ => rfl⟩)
  | listed =>
    simp only [Orderly, hplace] at horderly
    exact h.listed hplace horderly
  | @refused stage after lock reason error =>
    refine h.refused hplace lock ?_ error
    rintro id rfl
    unfold Orderly at horderly
    dsimp only at horderly
    rw [hplace] at horderly
    cases stage with
    | waiting => cases lock
    | locked => exact horderly
    | listed records => exact horderly
  | replaced => exact h.replaced hplace

/-- A call that arrives. -/
theorem Sound.arrives (h : process.Sound) (haside : call.Aside) (hcalm : call.rolling = false) :
    (process.start call).Sound where
  keyed := h.keyed
  exclusive := h.exclusive.push fun _ => haside.lock
  kept id hid := (h.kept id hid).imp_right fun ⟨other, hother, hleaving⟩ =>
    ⟨other, List.mem_append_left _ hother, hleaving⟩
  written other hother records hwrites := by
    rcases List.mem_append.mp hother with hold | hnew
    · obtain ⟨hthere, hfresh⟩ := h.written other hold records hwrites
      refine ⟨fun id hid => (hthere id hid).imp_right ?_, hfresh.imp_right ?_⟩
      · exact fun ⟨other, hother, hleaving⟩ => ⟨other, List.mem_append_left _ hother, hleaving⟩
      · exact fun ⟨other, hother, howes⟩ => ⟨other, List.mem_append_left _ hother, howes⟩
    · obtain rfl := List.mem_singleton.mp hnew
      rw [Call.writes_unlocked haside.lock] at hwrites
      cases hwrites
  current hlast := by
    rcases h.current hlast with hfile | ⟨other, hother, howes⟩ | ⟨other, hother, hwrites⟩
    · exact .inl hfile
    · exact .inr (.inl ⟨other, List.mem_append_left _ hother, howes⟩)
    · exact .inr (.inr ⟨other, List.mem_append_left _ hother, hwrites⟩)
  rolling rolled hrolled hrolling := by
    rcases List.mem_append.mp hrolled with hold | hnew
    · obtain ⟨hfailed, hnone⟩ := h.rolling rolled hold hrolling
      refine ⟨hfailed, fun other hother => ?_⟩
      rcases List.mem_append.mp hother with hold | hnew
      · exact hnone other hold
      · obtain rfl := List.mem_singleton.mp hnew
        exact Call.writes_unlocked haside.lock
    · obtain rfl := List.mem_singleton.mp hnew
      rw [hcalm] at hrolling
      cases hrolling

/-- After an exit only the file is left. -/
theorem Sound.exits (h : process.Sound) (horderly : process.Orderly .exit) :
    Sound ⟨{ process.shared with watches := [], lastPersist := none }, []⟩ where
  keyed := by simp [Keyed]
  exclusive := .nil
  kept id hid := .inl ((h.kept id hid).elim (fun hfile => hfile) (horderly id hid))
  written := by simp
  current := by simp
  rolling := by simp

theorem Sound.step (h : process.Sound) (horderly : process.Orderly action)
    (hstep : process.step watchId action = some process') : process'.Sound := by
  cases action with
  | advance place outcome =>
    obtain ⟨call, hplace, hstep⟩ := Option.bind_eq_some_iff.mp hstep
    obtain ⟨⟨next, shared'⟩, hturn, rfl⟩ := Option.map_eq_some_iff.mp hstep
    exact h.advance hplace horderly hturn
  | exit =>
    obtain rfl := Option.some.inj hstep
    exact h.exits horderly
  | _ =>
    obtain rfl := Option.some.inj hstep
    exact h.arrives ⟨rfl, rfl⟩ rfl

end Step

end Process

/-- What the persistence file owes in every run of the allowed steps. -/
structure Persistent (watchId : String → String) (allowed : Process → Action → Prop) : Prop where
  /-- A project that was persisted is in the file until a `remove` of it goes through. -/
  kept : ∀ file process, Reaches (Process.step watchId) allowed (.fresh file) process →
    ∀ id ∈ process.shared.persisted, id ∈ process.shared.file.ids ∨ process.leaving id
  /-- With no call in progress the file is what was listed last. -/
  current : ∀ file process, Reaches (Process.step watchId) allowed (.fresh file) process →
    (∀ call ∈ process.calls, call.inProgress = false) →
    process.shared.lastPersist = some true → process.shared.file = .records process.shared.list

/-- The registry keeps its file where every list a persist takes is complete. -/
theorem watched_persistence (watchId : String → String) : Persistent watchId Process.Orderly where
  kept file process h := (h.invariant (Process.fresh_sound file)
    fun _ _ _ hsound horderly hstep => hsound.step horderly hstep).kept
  current file process h hover hlast := by
    have hsound := h.invariant (Process.fresh_sound file)
      fun _ _ _ hsound horderly hstep => hsound.step horderly hstep
    rcases hsound.current hlast with hfile | ⟨call, hcall, howes⟩ | ⟨call, hcall, records, hwrites⟩
    · exact hfile
    · have hprogress := Call.owes_inProgress howes
      rw [hover call hcall] at hprogress
      cases hprogress
    · have hprogress := Call.writes_inProgress hwrites
      rw [hover call hcall] at hprogress
      cases hprogress

section Sample

def sampleId (directory : String) : String :=
  if directory = "/work/chat" then "3c6e0b8a9c15224a" else "8fa14cdd754f91cc"

def saved (directory : String) : WatchedHoloProject := registered (sampleId directory) directory none

def turns (place count : Nat) : List Action := List.replicate count (.advance place .granted)

/-- `Orderly` for runs in which nothing is refused and nothing exits. -/
def sampleOrderly (process : Process) : Action → Bool
  | .advance place .granted =>
    match process.calls[place]? with
    | some (.persisting .locked _) =>
      process.shared.persisted.all (fun id =>
        id ∈ process.shared.watches.map Prod.fst ∨ process.calls.any (·.leaving = some id)) &&
      process.calls.all (!·.rolling)
    | _ => true
  | .advance _ (.refused _) | .exit => false
  | _ => true

theorem sampleOrderly_orderly (process : Process) (action : Action)
    (h : sampleOrderly process action = true) : process.Orderly action := by
  unfold Process.Orderly
  split
  · rename_i place outcome
    split
    · rename_i hplace
      simp only [sampleOrderly, hplace, Bool.and_eq_true, List.all_eq_true, decide_eq_true_eq,
        Bool.not_eq_true'] at h
      refine ⟨fun id hid => (h.1 id hid).imp_right fun hleaving => ?_, h.2⟩
      obtain ⟨call, hcall, hleaves⟩ := List.any_eq_true.mp hleaving
      exact ⟨call, hcall, of_decide_eq_true hleaves⟩
    · cases h
    · cases h
    · trivial
  · cases h
  · trivial

/-- A project is restored from a file that holds no other, and built. -/
def sampleActions : List Action :=
  [Action.restore, .advance 0 .granted, .advance 0 (.sight (.found "/work/chat" true true))] ++
    turns 0 5 ++ [Action.build "3c6e0b8a9c15224a", .advance 1 .granted,
      .advance 1 (.built "blake3:archive" "chat.holo" 7)] ++ turns 1 3

theorem watched_persistence_sample : ∃ process : Process,
    process.shared.list = [(saved "/work/chat").ready "blake3:archive" "chat.holo" 7] ∧
      process.shared.file = .records process.shared.list := by
  have hrun : (checked (Process.step sampleId) sampleOrderly sampleActions
      (.fresh (.records [saved "/work/chat"]))).map (fun process =>
        (process.shared.list, process.shared.lastPersist, process.calls.map Call.inProgress)) =
      some ([(saved "/work/chat").ready "blake3:archive" "chat.holo" 7], some true,
        [false, false]) := by decide
  obtain ⟨process, hrun, hends⟩ := Option.map_eq_some_iff.mp hrun
  simp only [Prod.mk.injEq] at hends
  obtain ⟨hlist, hlast, hcalls⟩ := hends
  have hover : ∀ call ∈ process.calls, call.inProgress = false := by
    intro call hcall
    have hmem := @List.mem_map_of_mem _ _ _ _ Call.inProgress hcall
    rw [hcalls] at hmem
    simpa using hmem
  exact ⟨process, hlist, (watched_persistence sampleId).current _ process
    (Reaches.start.checked sampleOrderly_orderly hrun) hover hlast⟩

/-- One directory is missing at a restore. The next project is persisted without it. -/
theorem restore_forgets : ¬ Persistent sampleId fun _ _ => True := by
  intro h
  have hrun : (run (Process.step sampleId) ([Action.restore, .advance 0 .granted,
      .advance 0 (.sight (.missing "No such file or directory (os error 2)")),
      .advance 0 (.sight (.found "/work/notes" true true))] ++ turns 0 5)
      (.fresh (.records [saved "/work/chat", saved "/work/notes"]))).map (fun process =>
        (process.shared.persisted, process.shared.file.ids, process.calls.map Call.leaving)) =
      some (["8fa14cdd754f91cc", "3c6e0b8a9c15224a", "8fa14cdd754f91cc"], ["8fa14cdd754f91cc"],
        [none]) := by decide
  obtain ⟨process, hrun, hends⟩ := Option.map_eq_some_iff.mp hrun
  simp only [Prod.mk.injEq] at hends
  obtain ⟨hpersisted, hfile, hcalls⟩ := hends
  rcases h.kept _ process (Reaches.start.run hrun) "3c6e0b8a9c15224a" (by simp [hpersisted])
    with hthere | ⟨call, hcall, hleaving⟩
  · rw [hfile] at hthere
    exact absurd hthere (by decide)
  · have hmem := @List.mem_map_of_mem _ _ _ _ Call.leaving hcall
    rw [hcalls, hleaving] at hmem
    simp at hmem

end Sample

end HologramLive.Watch
