import HologramLive.Lib.Lookup
import HologramLive.Runtime.Resident

namespace HologramLive.Runtime
open Plan Lifecycle Lib Lib.Interleaving

/-- The application a request is answerable for. -/
def Request.holds : Request → Nat → Bool
  | .started _ entry, application => application = entry.application
  | .discarding held _ _, application => application = held
  | .unloading held _, application => application = held
  | _, _ => false

/-- The stop a request waits for. -/
def Request.stopping : Request → Option (Nat × Nat)
  | .discarding application caller _ | .unloading application caller => some (application, caller)
  | _ => none

def Request.isAnswered : Request → Bool
  | .answered _ => true
  | _ => false

namespace StartedApplication

/-- Running, and nothing has asked it to stop. -/
structure Ready (started : StartedApplication) : Prop where
  running : started.state = .running
  idle : ∀ caller ∈ started.callers, caller.Idle

/-- One call stops it and no other touches its state. -/
structure StoppedBy (started : StartedApplication) (place : Nat) : Prop where
  stops : ∃ stopper, started.callers[place]? = some stopper ∧ stopper.Stops started.state
  idle : ∀ (other : Nat) (caller : Caller), other ≠ place → started.callers[other]? = some caller →
    caller.Idle

/-- A stop has returned, and its verdict stands. -/
structure Ended (started : StartedApplication) : Prop where
  verdict : started.state = .stopped ∨ started.state = .failed
  idle : ∀ caller ∈ started.callers, caller.Idle

/-- A change of one application that keeps its kappa and whatever it is fit for. -/
structure Evolves (started started' : StartedApplication) : Prop where
  kappa : started'.kappa = started.kappa
  ready : started.Ready → started'.Ready
  stopped : ∀ place, started.StoppedBy place → started'.StoppedBy place
  ended : started.Ended → started'.Ended

section Evolves
variable {started : StartedApplication}

theorem mem_push {callers : List Caller} {call : Caller} (h : ∀ caller ∈ callers, caller.Idle)
    (hcall : call.Idle) : ∀ caller ∈ callers ++ [call], caller.Idle := by
  intro caller hcaller
  rcases List.mem_append.mp hcaller with hcaller | hcaller
  · exact h caller hcaller
  · rwa [List.mem_singleton.mp hcaller]

/-- A new invocation changes nothing about an application. -/
theorem evolves_push (started : StartedApplication) {call : Caller} (hcall : call.Idle) :
    Evolves started { started with callers := started.callers ++ [call] } where
  kappa := rfl
  ready h := ⟨h.running, mem_push h.idle hcall⟩
  ended h := ⟨h.verdict, mem_push h.idle hcall⟩
  stopped place h := by
    obtain ⟨stopper, hplace, hstops⟩ := h.stops
    have hlt := (List.getElem?_eq_some_iff.mp hplace).1
    refine ⟨⟨stopper, by rw [List.getElem?_append_left hlt, hplace], hstops⟩,
      fun other caller hne hother => ?_⟩
    rw [List.getElem?_append] at hother
    split at hother
    · exact h.idle other caller hne hother
    · rwa [List.mem_singleton.mp (List.mem_of_getElem? hother)]

/-- A stop can be asked of a ready application, under a new number. -/
theorem Ready.stop (h : started.Ready) :
    StoppedBy { started with callers := started.callers ++ [.stop 0 none] }
      started.callers.length := by
  refine ⟨⟨.stop 0 none, by simp, h.running⟩, fun other caller hne hother => ?_⟩
  dsimp only at hother
  rw [List.getElem?_append] at hother
  split at hother
  · exact h.idle caller (List.mem_of_getElem? hother)
  · have hlt := (List.getElem?_eq_some_iff.mp hother).1
    simp only [List.length_singleton] at hlt
    omega

/-- A step of a call on an application. -/
theorem evolves_work {call call' : Caller} {free : Nat → Bool} {state : LifecycleState}
    (hcall : started.callers[caller]? = some call)
    (hstep : call.step started.application free started.state answer = some (state, call')) :
    Evolves started { started with state, callers := started.callers.set caller call' } := by
  have hidle : (∀ caller ∈ started.callers, caller.Idle) → state = started.state ∧
      ∀ caller' ∈ started.callers.set caller call', caller'.Idle := by
    intro hall
    obtain ⟨hstate, hcall'⟩ := Caller.idle_step (hall call (List.mem_of_getElem? hcall)) hstep
    refine ⟨hstate, fun other hother => ?_⟩
    rcases List.mem_or_eq_of_mem_set hother with hother | rfl
    · exact hall other hother
    · exact hcall'
  refine ⟨rfl, fun h => ?_, fun place h => ?_, fun h => ?_⟩
  · obtain ⟨hstate, hall⟩ := hidle h.idle
    exact ⟨hstate.trans h.running, hall⟩
  · obtain ⟨stopper, hplace, hstops⟩ := h.stops
    have hlt := (List.getElem?_eq_some_iff.mp hcall).1
    by_cases hsame : caller = place
    · subst hsame
      obtain rfl := Option.some.inj (hcall.symm.trans hplace)
      refine ⟨⟨call', by simp [hlt], Caller.stops_step hstops hstep⟩,
        fun other caller hne hother => h.idle other caller hne ?_⟩
      rwa [List.getElem?_set_ne (Ne.symm hne)] at hother
    · obtain ⟨hstate, hcall'⟩ := Caller.idle_step (h.idle caller call hsame hcall) hstep
      refine ⟨⟨stopper, by rw [List.getElem?_set_ne hsame, hplace], by rwa [hstate]⟩,
        fun other other' hne hother => ?_⟩
      rw [List.getElem?_set] at hother
      split at hother
      · obtain rfl := Option.some.inj hother
        exact hcall'
      · exact h.idle other other' hne hother
  · obtain ⟨hstate, hall⟩ := hidle h.idle
    exact ⟨by rw [hstate]; exact h.verdict, hall⟩

/-- The verdict of a stop that has returned. -/
theorem StoppedBy.ended (h : started.StoppedBy place)
    (hplace : started.callers[place]? = some (.returned invoked (some stopped))) :
    started.Ended := by
  obtain ⟨stopper, hstopper, hstops⟩ := h.stops
  obtain rfl := Option.some.inj (hstopper.symm.trans hplace)
  refine ⟨?_, fun caller hcaller => ?_⟩
  · match invoked, stopped with
    | none, .ok () => exact .inl hstops
    | none, .error _ => exact .inr hstops
    | some _, .ok () => cases hstops
    | some _, .error _ => cases hstops
  · obtain ⟨other, hother⟩ := List.mem_iff_getElem?.mp hcaller
    by_cases hne : other = place
    · subst hne
      obtain rfl := Option.some.inj (hother.symm.trans hplace)
      trivial
    · exact h.idle other caller hne hother

end Evolves

end StartedApplication

namespace HoloRuntime

/-- Every application is resident, in the hands of one request, or has its verdict. -/
structure Accountable (runtime : HoloRuntime) : Prop where
  exclusive : Exclusive Request.holds runtime.requests
  apart : ∀ kappa entry, runtime.resident.lookup kappa = some entry →
    free Request.holds runtime.requests entry.application = true
  resident : ∀ kappa entry, runtime.resident.lookup kappa = some entry → ∃ started,
    runtime.applications[entry.application]? = some started ∧ started.kappa = kappa ∧ started.Ready
  loading : ∀ kappa entry, Request.started kappa entry ∈ runtime.requests → ∃ started,
    runtime.applications[entry.application]? = some started ∧ started.kappa = kappa ∧ started.Ready
  stopping : ∀ request application caller, request ∈ runtime.requests →
    request.stopping = some (application, caller) → ∃ started,
      runtime.applications[application]? = some started ∧ started.StoppedBy caller
  settled : ∀ (application : Nat) (started : StartedApplication),
    runtime.applications[application]? = some started →
    (∃ entry, runtime.resident.lookup started.kappa = some entry ∧
      entry.application = application) ∨
    (∃ request ∈ runtime.requests, request.holds application = true) ∨ started.Ended

section Accountable
variable {runtime : HoloRuntime}

theorem Accountable.start : Accountable {} :=
  ⟨.nil, by simp, by simp, by simp, by simp, by simp⟩

/-- Whatever a request waits to stop it is answerable for. -/
theorem stopping_holds {request : Request} {application caller : Nat}
    (h : request.stopping = some (application, caller)) :
    request.holds application = true := by
  cases request <;> simp_all [Request.stopping, Request.holds]

theorem set_applications {applications : List StartedApplication} {place application : Nat}
    {started started' found : StartedApplication} (hplace : applications[place]? = some started)
    (hfound : applications[application]? = some found) :
    ∃ found', (applications.set place started')[application]? = some found' ∧
      (application = place ∧ found = started ∧ found' = started' ∨
        application ≠ place ∧ found' = found) := by
  have hlt := (List.getElem?_eq_some_iff.mp hplace).1
  by_cases hsame : application = place
  · subst hsame
    obtain rfl := Option.some.inj (hplace.symm.trans hfound)
    exact ⟨started', by simp [hlt], .inl ⟨rfl, rfl, rfl⟩⟩
  · exact ⟨found, by rw [List.getElem?_set_ne (Ne.symm hsame), hfound], .inr ⟨hsame, rfl⟩⟩

theorem Accountable.evolve (h : runtime.Accountable)
    (hplace : runtime.applications[place]? = some started)
    (hevolves : started.Evolves started') :
    Accountable { runtime with applications := runtime.applications.set place started' } := by
  refine ⟨h.exclusive, h.apart, fun kappa entry hentry => ?_, fun kappa entry hentry => ?_,
    fun request application caller hmem hstopping => ?_, fun application found hfound => ?_⟩
  · obtain ⟨found, hfound, hkappa, hready⟩ := h.resident kappa entry hentry
    obtain ⟨_, hfound', ⟨_, rfl, rfl⟩ | ⟨_, rfl⟩⟩ := set_applications hplace hfound
    · exact ⟨_, hfound', hevolves.kappa.trans hkappa, hevolves.ready hready⟩
    · exact ⟨_, hfound', hkappa, hready⟩
  · obtain ⟨found, hfound, hkappa, hready⟩ := h.loading kappa entry hentry
    obtain ⟨_, hfound', ⟨_, rfl, rfl⟩ | ⟨_, rfl⟩⟩ := set_applications hplace hfound
    · exact ⟨_, hfound', hevolves.kappa.trans hkappa, hevolves.ready hready⟩
    · exact ⟨_, hfound', hkappa, hready⟩
  · obtain ⟨found, hfound, hstopped⟩ := h.stopping request application caller hmem hstopping
    obtain ⟨_, hfound', ⟨_, rfl, rfl⟩ | ⟨_, rfl⟩⟩ := set_applications hplace hfound
    · exact ⟨_, hfound', hevolves.stopped caller hstopped⟩
    · exact ⟨_, hfound', hstopped⟩
  · dsimp only at hfound
    rw [List.getElem?_set] at hfound
    split at hfound
    · rename_i hsame
      subst hsame
      split at hfound
      · obtain rfl := Option.some.inj hfound
        rw [hevolves.kappa]
        exact (h.settled place started hplace).imp_right fun hrest =>
          hrest.imp_right hevolves.ended
      · cases hfound
    · exact h.settled application found hfound

/-- A request that is answerable for nothing goes on to one that is not either. -/
theorem Accountable.goOn (h : runtime.Accountable) {old new : Request}
    (hplace : runtime.requests[place]? = some old) (hold : ∀ held, old.holds held = false)
    (hnew : ∀ held, new.holds held = false) : (runtime.goOn place new).Accountable := by
  have hkept : ∀ request ∈ runtime.requests, ∀ held, request.holds held = true →
      request ∈ runtime.requests.set place new := by
    intro request hmem held hheld
    obtain ⟨other, hother⟩ := List.mem_iff_getElem?.mp hmem
    refine mem_set_of_ne hother (fun hsame => ?_) new
    subst hsame
    obtain rfl := Option.some.inj (hother.symm.trans hplace)
    rw [hold] at hheld
    cases hheld
  have hbefore : ∀ request ∈ runtime.requests.set place new, ∀ held,
      request.holds held = true → request ∈ runtime.requests := by
    intro request hmem held hheld
    rcases List.mem_or_eq_of_mem_set hmem with hmem | rfl
    · exact hmem
    · rw [hnew] at hheld
      cases hheld
  refine ⟨h.exclusive.set hplace fun held hheld => ?_, fun kappa entry hentry => ?_, h.resident,
    fun kappa entry hentry => ?_, fun request application caller hmem hstopping => ?_,
    fun application started hstarted => ?_⟩
  · rw [hnew] at hheld
    cases hheld
  · refine free_iff.mpr fun request hmem => ?_
    rcases List.mem_or_eq_of_mem_set hmem with hmem | rfl
    · exact free_iff.mp (h.apart kappa entry hentry) request hmem
    · exact hnew _
  · exact h.loading kappa entry (hbefore _ hentry entry.application (by simp [Request.holds]))
  · exact h.stopping request application caller
      (hbefore request hmem application (stopping_holds hstopping)) hstopping
  · rcases h.settled application started hstarted with hresident | ⟨request, hmem, hheld⟩ | hended
    · exact .inl hresident
    · exact .inr (.inl ⟨request, hkept request hmem application hheld, hheld⟩)
    · exact .inr (.inr hended)

/-- What a request is answerable for has been started. -/
theorem Accountable.known (h : runtime.Accountable) (hmem : request ∈ runtime.requests)
    (hheld : request.holds application = true) : application < runtime.applications.length := by
  have hfound : ∃ started, runtime.applications[application]? = some started := by
    match request with
    | .started kappa entry =>
      obtain rfl : application = entry.application := by simpa [Request.holds] using hheld
      obtain ⟨started, hstarted, _⟩ := h.loading kappa entry hmem
      exact ⟨started, hstarted⟩
    | .discarding held caller record =>
      obtain rfl : application = held := by simpa [Request.holds] using hheld
      obtain ⟨started, hstarted, _⟩ := h.stopping _ application caller hmem rfl
      exact ⟨started, hstarted⟩
    | .unloading held caller =>
      obtain rfl : application = held := by simpa [Request.holds] using hheld
      obtain ⟨started, hstarted, _⟩ := h.stopping _ application caller hmem rfl
      exact ⟨started, hstarted⟩
    | .load .. | .starting .. | .unload _ | .run .. | .running .. | .list | .answered _ =>
      cases hheld
  obtain ⟨started, hstarted⟩ := hfound
  exact (List.getElem?_eq_some_iff.mp hstarted).1

/-- A load has started an application. -/
theorem Accountable.launch (h : runtime.Accountable) {old : Request}
    (hplace : runtime.requests[place]? = some old) (hold : ∀ held, old.holds held = false)
    (hentry : entry.application = runtime.applications.length) (kappa : String)
    (application : RunningApplication) :
    Accountable
      { runtime with
        applications := runtime.applications ++ [{ kappa, application }]
        requests := runtime.requests.set place (.started kappa entry) } := by
  have hgrown : ∀ {place : Nat} {started fresh : StartedApplication},
      runtime.applications[place]? = some started →
      (runtime.applications ++ [fresh])[place]? = some started := by
    intro place started fresh hstarted
    rw [List.getElem?_append_left (List.getElem?_eq_some_iff.mp hstarted).1, hstarted]
  refine ⟨h.exclusive.set hplace fun held hheld => .inr ?_, fun kappa' entry' hentry' => ?_,
    fun kappa' entry' hentry' => ?_, fun kappa' entry' hentry' => ?_,
    fun request application' caller hmem hstopping => ?_, fun place' started hstarted => ?_⟩
  · obtain rfl : held = entry.application := by simpa [Request.holds] using hheld
    refine free_iff.mpr fun request hmem => ?_
    cases hbusy : request.holds entry.application with
    | false => rfl
    | true =>
      have hlt := h.known hmem hbusy
      omega
  · have hlt := (List.getElem?_eq_some_iff.mp (h.resident kappa' entry' hentry').choose_spec.1).1
    refine free_iff.mpr fun request hmem => ?_
    rcases List.mem_or_eq_of_mem_set hmem with hmem | rfl
    · exact free_iff.mp (h.apart kappa' entry' hentry') request hmem
    · have hne : entry'.application ≠ entry.application := by omega
      simpa [Request.holds] using hne
  · obtain ⟨started, hstarted, hfits⟩ := h.resident kappa' entry' hentry'
    exact ⟨started, hgrown hstarted, hfits⟩
  · rcases List.mem_or_eq_of_mem_set hentry' with hmem | hsame
    · obtain ⟨started, hstarted, hfits⟩ := h.loading kappa' entry' hmem
      exact ⟨started, hgrown hstarted, hfits⟩
    · cases hsame
      exact ⟨{ kappa, application }, by simp [hentry], rfl, rfl, by simp⟩
  · rcases List.mem_or_eq_of_mem_set hmem with hmem | rfl
    · obtain ⟨started, hstarted, hstopped⟩ := h.stopping request application' caller hmem hstopping
      exact ⟨started, hgrown hstarted, hstopped⟩
    · cases hstopping
  · dsimp only at hstarted
    rw [List.getElem?_append] at hstarted
    split at hstarted
    · rcases h.settled place' started hstarted with hresident | ⟨request, hmem, hheld⟩ | hended
      · exact .inl hresident
      · obtain ⟨other, hother⟩ := List.mem_iff_getElem?.mp hmem
        refine .inr (.inl ⟨request, mem_set_of_ne hother (fun hsame => ?_) _, hheld⟩)
        subst hsame
        obtain rfl := Option.some.inj (hother.symm.trans hplace)
        rw [hold] at hheld
        cases hheld
      · exact .inr (.inr hended)
    · rename_i hge
      have hlast := (List.getElem?_eq_some_iff.mp hstarted).1
      simp only [List.length_singleton] at hlast
      refine .inr (.inl ⟨_, List.mem_set (List.getElem?_eq_some_iff.mp hplace).1 _, ?_⟩)
      simp only [Request.holds, decide_eq_true_eq]
      omega

/-- A started application takes the vacant place under its kappa. -/
theorem Accountable.insert (h : runtime.Accountable)
    (hplace : runtime.requests[place]? = some (.started kappa entry))
    (hvacant : runtime.resident.lookup kappa = none) (reply : Reply) :
    Accountable
      { runtime.answer place reply with resident := (kappa, entry) :: runtime.resident } := by
  have hheld : (Request.started kappa entry).holds entry.application = true := by
    simp [Request.holds]
  obtain ⟨started, hstarted, hkappa, hready⟩ :=
    h.loading kappa entry (List.mem_of_getElem? hplace)
  have hsame : ((kappa, entry) :: runtime.resident).lookup kappa = some entry := by simp
  have hold : ∀ kappa', kappa' ≠ kappa → ((kappa, entry) :: runtime.resident).lookup kappa' =
      runtime.resident.lookup kappa' := fun _ hne => Lookup.lookup_cons_ne hne entry
  refine ⟨h.exclusive.set hplace fun held hnew => ?_, fun kappa' entry' hentry' => ?_,
    fun kappa' entry' hentry' => ?_, fun kappa' entry' hmem => ?_,
    fun request application caller hmem hstopping => ?_, fun application found hfound => ?_⟩
  · cases hnew
  · refine free_iff.mpr fun request hmem => ?_
    rcases mem_set_cases hmem with rfl | ⟨other, hne, hother⟩
    · rfl
    · by_cases hkey : kappa' = kappa
      · subst hkey
        obtain rfl := Option.some.inj (hsame.symm.trans hentry')
        exact h.exclusive.other hplace hother hheld (Ne.symm hne)
      · exact free_iff.mp (h.apart kappa' entry' ((hold kappa' hkey).symm.trans hentry')) request
          (List.mem_of_getElem? hother)
  · by_cases hkey : kappa' = kappa
    · subst hkey
      obtain rfl := Option.some.inj (hsame.symm.trans hentry')
      exact ⟨started, hstarted, hkappa, hready⟩
    · exact h.resident kappa' entry' ((hold kappa' hkey).symm.trans hentry')
  · rcases List.mem_or_eq_of_mem_set hmem with hmem | hanswered
    · exact h.loading kappa' entry' hmem
    · cases hanswered
  · rcases List.mem_or_eq_of_mem_set hmem with hmem | rfl
    · exact h.stopping request application caller hmem hstopping
    · cases hstopping
  · rcases h.settled application found hfound with
      ⟨entry', hentry', rfl⟩ | ⟨request, hmem, hbusy⟩ | hended
    · refine .inl ⟨entry', ?_, rfl⟩
      rw [← hentry']
      refine hold found.kappa fun hkey => ?_
      rw [hkey, hvacant] at hentry'
      cases hentry'
    · obtain ⟨other, hother⟩ := List.mem_iff_getElem?.mp hmem
      by_cases hne : other = place
      · subst hne
        obtain rfl := Option.some.inj (hother.symm.trans hplace)
        obtain rfl : application = entry.application := by simpa [Request.holds] using hbusy
        obtain rfl := Option.some.inj (hfound.symm.trans hstarted)
        exact .inl ⟨entry, by rw [hkappa]; exact hsame, rfl⟩
      · exact .inr (.inl ⟨request, mem_set_of_ne hother hne _, hbusy⟩)
    · exact .inr (.inr hended)

/-- A request that is to stop a ready application makes the call and waits for it. -/
theorem Accountable.stop (h : runtime.Accountable) {old new : Request}
    {resident : List (String × ResidentEntry)} {started : StartedApplication}
    (hplace : runtime.requests[place]? = some old)
    (hstarted : runtime.applications[application]? = some started) (hready : started.Ready)
    (hgain : old.holds application = true ∨ free Request.holds runtime.requests application = true)
    (hold : ∀ held, old.holds held = true → held = application)
    (hnew : ∀ held, new.holds held = true ↔ held = application)
    (hstopping : new.stopping = some (application, started.callers.length))
    (hkept : ∀ kappa entry, resident.lookup kappa = some entry ↔
      runtime.resident.lookup kappa = some entry ∧ entry.application ≠ application) :
    Accountable
      { resident
        applications := runtime.applications.set application
          { started with callers := started.callers ++ [.stop 0 none] }
        requests := runtime.requests.set place new } := by
  have hother : ∀ {place' : Nat} {found : StartedApplication}, place' ≠ application →
      runtime.applications[place']? = some found →
      (runtime.applications.set application
        { started with callers := started.callers ++ [.stop 0 none] })[place']? = some found := by
    intro place' found hne hfound
    rw [List.getElem?_set_ne (Ne.symm hne), hfound]
  have hfree : ∀ (other : Nat) (request : Request), other ≠ place →
      runtime.requests[other]? = some request → request.holds application = false := by
    intro other request hne hrequest
    rcases hgain with hbusy | hfree
    · exact h.exclusive.other hplace hrequest hbusy (Ne.symm hne)
    · exact free_iff.mp hfree request (List.mem_of_getElem? hrequest)
  have hlt := (List.getElem?_eq_some_iff.mp hstarted).1
  refine ⟨h.exclusive.set hplace fun held hheld => ?_, fun kappa entry hentry => ?_,
    fun kappa entry hentry => ?_, fun kappa entry hmem => ?_,
    fun request application' caller hmem hwaits => ?_, fun place' found hfound => ?_⟩
  · obtain rfl := (hnew held).mp hheld
    exact hgain
  · obtain ⟨hbefore, hne⟩ := (hkept kappa entry).mp hentry
    refine free_iff.mpr fun request hmem => ?_
    rcases List.mem_or_eq_of_mem_set hmem with hmem | rfl
    · exact free_iff.mp (h.apart kappa entry hbefore) request hmem
    · cases hbusy : request.holds entry.application with
      | false => rfl
      | true => exact absurd ((hnew _).mp hbusy) hne
  · obtain ⟨hbefore, hne⟩ := (hkept kappa entry).mp hentry
    obtain ⟨found, hfound, hfits⟩ := h.resident kappa entry hbefore
    exact ⟨found, hother hne hfound, hfits⟩
  · rcases mem_set_cases hmem with rfl | ⟨other, hne, hrequest⟩
    · cases hstopping
    · obtain ⟨found, hfound, hfits⟩ := h.loading kappa entry (List.mem_of_getElem? hrequest)
      have hapart : entry.application ≠ application := by
        simpa [Request.holds, eq_comm] using hfree other _ hne hrequest
      exact ⟨found, hother hapart hfound, hfits⟩
  · rcases mem_set_cases hmem with rfl | ⟨other, hne, hrequest⟩
    · obtain ⟨rfl, rfl⟩ := Prod.mk.inj (Option.some.inj (hwaits.symm.trans hstopping))
      exact ⟨_, by simp [hlt], hready.stop⟩
    · obtain ⟨found, hfound, hstopped⟩ :=
        h.stopping request application' caller (List.mem_of_getElem? hrequest) hwaits
      have hapart : application' ≠ application := by
        rintro rfl
        have hbusy := stopping_holds hwaits
        rw [hfree other request hne hrequest] at hbusy
        cases hbusy
      exact ⟨found, hother hapart hfound, hstopped⟩
  · by_cases hsame : place' = application
    · subst hsame
      exact .inr (.inl ⟨new, List.mem_set (List.getElem?_eq_some_iff.mp hplace).1 _,
        (hnew _).mpr rfl⟩)
    · have hbefore : runtime.applications[place']? = some found := by
        rwa [List.getElem?_set_ne (Ne.symm hsame)] at hfound
      rcases h.settled place' found hbefore with
        ⟨entry, hentry, rfl⟩ | ⟨request, hmem, hbusy⟩ | hended
      · exact .inl ⟨entry, (hkept _ _).mpr ⟨hentry, hsame⟩, rfl⟩
      · obtain ⟨other, hrequest⟩ := List.mem_iff_getElem?.mp hmem
        refine .inr (.inl ⟨request, mem_set_of_ne hrequest (fun hequal => ?_) _, hbusy⟩)
        subst hequal
        obtain rfl := Option.some.inj (hrequest.symm.trans hplace)
        exact hsame (hold _ hbusy)
      · exact .inr (.inr hended)

/-- A request lets go of an application whose stop has returned. -/
theorem Accountable.release (h : runtime.Accountable) {old : Request} {application caller : Nat}
    (hplace : runtime.requests[place]? = some old)
    (hstopping : old.stopping = some (application, caller))
    (hold : ∀ held, old.holds held = true → held = application)
    (hreturned : runtime.caller application caller = some (.returned invoked (some stopped)))
    (reply : Reply) : (runtime.answer place reply).Accountable := by
  obtain ⟨started, hstarted, hstopped⟩ :=
    h.stopping old application caller (List.mem_of_getElem? hplace) hstopping
  have hcall : started.callers[caller]? = some (.returned invoked (some stopped)) := by
    simpa [HoloRuntime.caller, hstarted] using hreturned
  have hended := hstopped.ended hcall
  refine ⟨h.exclusive.set hplace fun held hnew => ?_, fun kappa entry hentry => ?_, h.resident,
    fun kappa entry hmem => ?_, fun request application' caller' hmem hwaits => ?_,
    fun place' found hfound => ?_⟩
  · cases hnew
  · refine free_iff.mpr fun request hmem => ?_
    rcases List.mem_or_eq_of_mem_set hmem with hmem | rfl
    · exact free_iff.mp (h.apart kappa entry hentry) request hmem
    · rfl
  · rcases List.mem_or_eq_of_mem_set hmem with hmem | hanswered
    · exact h.loading kappa entry hmem
    · cases hanswered
  · rcases List.mem_or_eq_of_mem_set hmem with hmem | rfl
    · exact h.stopping request application' caller' hmem hwaits
    · cases hwaits
  · rcases h.settled place' found hfound with hresident | ⟨request, hmem, hbusy⟩ | hdone
    · exact .inl hresident
    · obtain ⟨other, hrequest⟩ := List.mem_iff_getElem?.mp hmem
      by_cases hne : other = place
      · subst hne
        obtain rfl := Option.some.inj (hrequest.symm.trans hplace)
        obtain rfl := hold place' hbusy
        obtain rfl := Option.some.inj (hfound.symm.trans hstarted)
        exact .inr (.inr hended)
      · exact .inr (.inl ⟨request, mem_set_of_ne hrequest hne _, hbusy⟩)
    · exact .inr (.inr hdone)

/-- A request that arrives is answerable for nothing. -/
theorem Accountable.arrive (h : runtime.Accountable) {request : Request}
    (hnothing : ∀ held, request.holds held = false) :
    Accountable { runtime with requests := runtime.requests ++ [request] } := by
  have hbefore : ∀ other ∈ runtime.requests ++ [request], ∀ held, other.holds held = true →
      other ∈ runtime.requests := by
    intro other hmem held hheld
    rcases List.mem_append.mp hmem with hmem | hmem
    · exact hmem
    · rw [List.mem_singleton.mp hmem, hnothing] at hheld
      cases hheld
  refine ⟨h.exclusive.push hnothing, fun kappa entry hentry => ?_, h.resident,
    fun kappa entry hmem => ?_, fun other application caller hmem hstopping => ?_,
    fun application started hstarted => ?_⟩
  · refine free_iff.mpr fun other hmem => ?_
    rcases List.mem_append.mp hmem with hmem | hmem
    · exact free_iff.mp (h.apart kappa entry hentry) other hmem
    · rw [List.mem_singleton.mp hmem, hnothing]
  · exact h.loading kappa entry (hbefore _ hmem entry.application (by simp [Request.holds]))
  · exact h.stopping other application caller
      (hbefore other hmem application (stopping_holds hstopping)) hstopping
  · exact (h.settled application started hstarted).imp_right fun hrest =>
      hrest.imp_left fun ⟨other, hmem, hheld⟩ => ⟨other, List.mem_append_left _ hmem, hheld⟩

theorem enter_eq_some {waiting : Nat → Request}
    (h : runtime.enter place application call waiting = some next) : ∃ started,
      runtime.applications[application]? = some started ∧
      next =
        { runtime with
          applications := runtime.applications.set application
            { started with callers := started.callers ++ [call] }
          requests := runtime.requests.set place (waiting started.callers.length) } := by
  obtain ⟨started, hstarted, rfl⟩ := Option.map_eq_some_iff.mp h
  exact ⟨started, hstarted, rfl⟩

theorem Accountable.advance (h : runtime.Accountable)
    (hadvance : runtime.advance host surroundings place = some next) : next.Accountable := by
  unfold HoloRuntime.advance at hadvance
  split at hadvance
  case h_1 kappa principal hplace =>
    split at hadvance <;> cases hadvance <;> exact h.goOn hplace (fun _ => rfl) fun _ => rfl
  case h_2 kappa principal hplace =>
    split at hadvance <;> cases hadvance
    · exact h.goOn hplace (fun _ => rfl) fun _ => rfl
    · exact h.launch hplace (fun _ => rfl) rfl kappa _
  case h_3 kappa entry hplace =>
    split at hadvance
    · obtain ⟨started, hstarted, rfl⟩ := enter_eq_some hadvance
      obtain ⟨found, hfound, _, hready⟩ := h.loading kappa entry (List.mem_of_getElem? hplace)
      obtain rfl := Option.some.inj (hfound.symm.trans hstarted)
      have hheld : (Request.started kappa entry).holds entry.application = true := by
        simp [Request.holds]
      refine h.stop hplace hstarted hready (.inl hheld) (fun held hbusy => ?_) (fun held => ?_) rfl
        fun kappa' entry' => ⟨fun hentry => ⟨hentry, fun hsame => ?_⟩, fun hentry => hentry.1⟩
      · simpa [Request.holds] using hbusy
      · simp [Request.holds]
      · have hfree := free_iff.mp (h.apart kappa' entry' hentry) _ (List.mem_of_getElem? hplace)
        rw [hsame, hheld] at hfree
        cases hfree
    · rename_i hvacant
      cases hadvance
      exact h.insert hplace hvacant _
  case h_4 application caller record hplace =>
    split at hadvance
    · rename_i hreturned
      cases hadvance
      exact h.release hplace rfl (fun held hbusy => by simpa [Request.holds] using hbusy)
        hreturned _
    · cases hadvance
  case h_5 kappa hplace =>
    split at hadvance
    · cases hadvance
      exact h.goOn hplace (fun _ => rfl) fun _ => rfl
    · rename_i entry hentry
      obtain ⟨started, hstarted, rfl⟩ := enter_eq_some hadvance
      obtain ⟨found, hfound, hkappa, hready⟩ := h.resident kappa entry hentry
      obtain rfl := Option.some.inj (hfound.symm.trans hstarted)
      refine h.stop hplace hstarted hready (.inr (h.apart kappa entry hentry))
        (fun held hbusy => by cases hbusy) (fun held => by simp [Request.holds]) rfl
        fun kappa' entry' => ?_
      rw [Lookup.lookup_filter_ne]
      split
      · rename_i hsame
        subst hsame
        rw [hentry]
        constructor
        · intro hnone
          cases hnone
        · rintro ⟨hsame, hne⟩
          exact absurd (congrArg ResidentEntry.application (Option.some.inj hsame)).symm hne
      · rename_i hne
        refine ⟨fun hentry' => ⟨hentry', fun hsame => hne ?_⟩, fun hentry' => hentry'.1⟩
        obtain ⟨other, hother, hkappa', _⟩ := h.resident kappa' entry' hentry'
        rw [hsame, hfound] at hother
        rw [← hkappa', ← hkappa, Option.some.inj hother]
  case h_6 application caller hplace =>
    split at hadvance
    · rename_i hreturned
      cases hadvance
      exact h.release hplace rfl (fun held hbusy => by simpa [Request.holds] using hbusy)
        hreturned _
    · cases hadvance
  case h_7 kappa inputs hplace =>
    split at hadvance
    · cases hadvance
      exact h.goOn hplace (fun _ => rfl) fun _ => rfl
    · obtain ⟨started, hstarted, rfl⟩ := enter_eq_some hadvance
      have hidle : (Caller.invoke inputs false).Idle := rfl
      exact (h.evolve hstarted (StartedApplication.evolves_push started hidle)).goOn hplace
        (fun _ => rfl) fun _ => rfl
  case h_8 kappa entry caller hplace =>
    split at hadvance <;> cases hadvance
    exact h.goOn hplace (fun _ => rfl) fun _ => rfl
  case h_9 hplace =>
    cases hadvance
    exact h.goOn hplace (fun _ => rfl) fun _ => rfl
  case h_10 => cases hadvance
  case h_11 => cases hadvance

theorem Accountable.work {application caller : Nat} {answer : Answer} (h : runtime.Accountable)
    (hwork : runtime.work application caller answer = some next) : next.Accountable := by
  obtain ⟨started, hstarted, hwork⟩ := Option.bind_eq_some_iff.mp hwork
  obtain ⟨call, hcall, hwork⟩ := Option.bind_eq_some_iff.mp hwork
  obtain ⟨⟨state, call'⟩, hstep, hnext⟩ := Option.bind_eq_some_iff.mp hwork
  obtain rfl := Option.some.inj hnext
  exact h.evolve hstarted (StartedApplication.evolves_work hcall hstep)

theorem Accountable.step (h : runtime.Accountable)
    (hstep : step host runtime action = some next) : next.Accountable := by
  cases action with
  | arrive request =>
    simp only [Runtime.step] at hstep
    split at hstep
    · rename_i harrives
      cases hstep
      refine h.arrive fun held => ?_
      cases request <;> first | rfl | cases harrives
    · cases hstep
  | advance place surroundings => exact h.advance hstep
  | work application caller answer => exact h.work hstep

end Accountable

/-- No call is in progress. -/
def Quiet (runtime : HoloRuntime) : Prop :=
  ∀ request ∈ runtime.requests, request.isAnswered = true

/-- Every started application is the one held for its kappa or has stopped. -/
def Accounted (runtime : HoloRuntime) : Prop :=
  ∀ (application : Nat) (started : StartedApplication),
    runtime.applications[application]? = some started →
    (∃ entry, runtime.resident.lookup started.kappa = some entry ∧
      entry.application = application) ∨ started.state = .stopped

/-- Of the applications of one kappa at most one has not stopped. -/
def Single (runtime : HoloRuntime) : Prop :=
  ∀ (i j : Nat) (left right : StartedApplication), runtime.applications[i]? = some left →
    runtime.applications[j]? = some right → left.kappa = right.kappa →
    left.state ≠ .stopped → right.state ≠ .stopped → i = j

section Accounted
variable {runtime next : HoloRuntime}

theorem Accounted.single (h : runtime.Accounted) : runtime.Single := by
  intro i j left right hi hj hkappa hleft hright
  obtain ⟨entry, hentry, rfl⟩ := (h i left hi).resolve_right hleft
  obtain ⟨entry', hentry', rfl⟩ := (h j right hj).resolve_right hright
  rw [hkappa, hentry'] at hentry
  rw [Option.some.inj hentry]

/-- Between calls the accounts are right exactly when no stop has failed. -/
theorem Accountable.accounted_iff (h : runtime.Accountable) (hquiet : runtime.Quiet) :
    runtime.Accounted ↔ ∀ started ∈ runtime.applications, started.state ≠ .failed := by
  constructor
  · intro haccounted started hmem hfailed
    obtain ⟨application, hstarted⟩ := List.mem_iff_getElem?.mp hmem
    rcases haccounted application started hstarted with ⟨entry, hentry, rfl⟩ | hstopped
    · obtain ⟨found, hfound, _, hready⟩ := h.resident started.kappa entry hentry
      obtain rfl := Option.some.inj (hfound.symm.trans hstarted)
      rw [hready.running] at hfailed
      cases hfailed
    · rw [hstopped] at hfailed
      cases hfailed
  · intro hnone application started hstarted
    rcases h.settled application started hstarted with hresident | ⟨request, hmem, hheld⟩ | hended
    · exact .inl hresident
    · have hanswered := hquiet request hmem
      match request with
      | .answered _ => cases hheld
      | .load .. | .starting .. | .started .. | .discarding .. | .unload _ | .unloading .. | .run ..
      | .running .. | .list => cases hanswered
    · exact .inr (hended.verdict.resolve_right (hnone started (List.mem_of_getElem? hstarted)))

/-- No stop has met a failing layer. -/
def Spotless (runtime : HoloRuntime) : Prop :=
  ∀ started ∈ runtime.applications, started.state ≠ .failed ∧
    ∀ caller ∈ started.callers, caller.Clean

theorem Spotless.enter {waiting : Nat → Request} (h : runtime.Spotless) {call : Caller}
    (hcall : call.Clean) (henter : runtime.enter place application call waiting = some next) :
    next.Spotless := by
  obtain ⟨started, hstarted, rfl⟩ := enter_eq_some henter
  intro found hfound
  rcases List.mem_or_eq_of_mem_set hfound with hfound | rfl
  · exact h found hfound
  · obtain ⟨hstate, hclean⟩ := h started (List.mem_of_getElem? hstarted)
    refine ⟨hstate, fun caller hcaller => ?_⟩
    rcases List.mem_append.mp hcaller with hcaller | hcaller
    · exact hclean caller hcaller
    · rwa [List.mem_singleton.mp hcaller]

theorem Spotless.advance (h : runtime.Spotless)
    (hadvance : runtime.advance host surroundings place = some next) : next.Spotless := by
  have hstop : (Caller.stop 0 none).Clean := trivial
  unfold HoloRuntime.advance at hadvance
  split at hadvance
  case h_1 => split at hadvance <;> cases hadvance <;> exact h
  case h_2 =>
    split at hadvance <;> cases hadvance
    · exact h
    · intro found hfound
      rcases List.mem_append.mp hfound with hfound | hfound
      · exact h found hfound
      · rw [List.mem_singleton.mp hfound]
        exact ⟨by simp, by simp⟩
  case h_3 =>
    split at hadvance
    · exact h.enter hstop hadvance
    · cases hadvance
      exact h
  case h_4 =>
    split at hadvance <;> cases hadvance
    exact h
  case h_5 =>
    split at hadvance
    · cases hadvance
      exact h
    · have hremoved : ∀ resident, Spotless { runtime with resident } := fun _ => h
      exact (hremoved _).enter hstop hadvance
  case h_6 =>
    split at hadvance <;> cases hadvance
    exact h
  case h_7 kappa inputs _ =>
    split at hadvance
    · cases hadvance
      exact h
    · have hinvoke : (Caller.invoke inputs false).Clean := trivial
      exact h.enter hinvoke hadvance
  case h_8 =>
    split at hadvance <;> cases hadvance
    exact h
  case h_9 =>
    cases hadvance
    exact h
  case h_10 => cases hadvance
  case h_11 => cases hadvance

theorem Spotless.work {application caller : Nat} {answer : Answer} (h : runtime.Spotless)
    (hanswer : ∀ result, answer = .stopped result → result = .ok ())
    (hwork : runtime.work application caller answer = some next) : next.Spotless := by
  obtain ⟨started, hstarted, hwork⟩ := Option.bind_eq_some_iff.mp hwork
  obtain ⟨call, hcall, hwork⟩ := Option.bind_eq_some_iff.mp hwork
  obtain ⟨⟨state, call'⟩, hstep, hnext⟩ := Option.bind_eq_some_iff.mp hwork
  obtain rfl := Option.some.inj hnext
  obtain ⟨hstate, hclean⟩ := h started (List.mem_of_getElem? hstarted)
  obtain ⟨hstate', hclean'⟩ :=
    Caller.clean_step (hclean call (List.mem_of_getElem? hcall)) hstate hanswer hstep
  intro found hfound
  rcases List.mem_or_eq_of_mem_set hfound with hfound | rfl
  · exact h found hfound
  · refine ⟨hstate', fun other hother => ?_⟩
    rcases List.mem_or_eq_of_mem_set hother with hother | rfl
    · exact hclean other hother
    · exact hclean'

end Accounted

end HoloRuntime

/-- Every layer that is stopped stops. -/
def StopsSucceed (_ : HoloRuntime) : Action → Prop
  | .work _ _ (.stopped result) => result = .ok ()
  | _ => True

/-- Between calls no application is lost unless a stop has failed, and then one is. -/
theorem residency_accounts (host : Host) :
    (∀ runtime, Reaches (step host) StopsSucceed {} runtime → runtime.Quiet →
      runtime.Accounted ∧ runtime.Single) ∧
    ∀ runtime, Reaches (step host) (fun _ _ => True) {} runtime → runtime.Quiet →
      (runtime.Accounted ↔ ∀ started ∈ runtime.applications, started.state ≠ .failed) := by
  have haccountable : ∀ runtime, Reaches (step host) (fun _ _ => True) {} runtime →
      runtime.Accountable := fun runtime hreaches =>
    hreaches.invariant .start fun _ _ _ h _ hstep => h.step hstep
  refine ⟨fun runtime hreaches hquiet => ?_, fun runtime hreaches hquiet =>
    (haccountable runtime hreaches).accounted_iff hquiet⟩
  have hspotless : runtime.Spotless := by
    refine hreaches.invariant (fun started hmem => by cases hmem)
      fun before action after h hallowed hstep => ?_
    cases action with
    | arrive request =>
      simp only [step] at hstep
      split at hstep <;> cases hstep
      exact h
    | advance place surroundings => exact h.advance hstep
    | work application caller answer =>
      refine h.work (fun result hanswer => ?_) hstep
      subst hanswer
      exact hallowed
  have haccounted := ((haccountable runtime (hreaches.mono fun _ _ _ => trivial)).accounted_iff
    hquiet).mpr fun started hmem => (hspotless started hmem).1
  exact ⟨haccounted, haccounted.single⟩

/-- An archive of one rootfs layer. -/
def plainCatalog : Catalog where
  archives :=
    [([72, 79, 76, 79, 4, 0],
      { fingerprint := [1]
        appManifest := some [97]
        extensions := .ok [(Directory.directoryExtensionKey, [101])]
        contentBlobs := .ok [([99], [99]), ([100], [100])] })]
  manifests := [([97], ⟨some 0, "c", [⟨.rootfsImage, "d", "init", "x86_64"⟩], []⟩)]
  capabilities := [([99], {})]
  directories :=
    [([101],
      { schemaVersion := 1
        primaryLayer := some 0
        requiresKappa := "c"
        layers := [⟨0, "rootfs", "d", "init", none, some "x86_64", none, none⟩]
        children := []
        blobs := [⟨"c", 1⟩, ⟨"d", 1⟩] })]

def plainHost : Host where
  upstream := plainCatalog.upstream
  effectiveGrant := ⟨"grant", [], {}, .localBaseline⟩

def plainSurroundings : Surroundings where
  bytes _ := .ok [72, 79, 76, 79, 4, 0]
  resolver _ _ := .ok none
  evaluate _ context := .available (layerKindName context.kind)
  registry := .ok
    { target := .resident
      providers :=
        [{ kind := .rootfsImage
           contract := none
           name := "rootfs"
           prepare := fun _ context => .ok ⟨context.layer.position, .ok (), .ok ()⟩ }] }
  audit _ _ := .ok ()
  status _ := {}

/-- A load, an unload whose layer fails to stop, and the unload again. -/
def unloadTwice : List Action :=
  [.arrive (.load "k" "local-runtime"), .advance 0 plainSurroundings, .advance 0 plainSurroundings,
   .advance 0 plainSurroundings, .arrive (.unload "k"), .advance 1 plainSurroundings,
   .work 0 0 .silent, .work 0 0 .silent, .work 0 0 (.stopped (.error (.io "busy"))),
   .work 0 0 .silent, .advance 1 plainSurroundings, .arrive (.unload "k"),
   .advance 2 plainSurroundings]

def Request.isUnloaded : Request → Bool
  | .answered (.unloaded (.ok ())) => true
  | _ => false

/-- After the failed stop the application is gone from the map, still unstopped, and the
repeated unload has returned `Ok`. -/
theorem unload_loses_application : ∃ runtime,
    Reaches (step plainHost) (fun _ _ => True) {} runtime ∧ runtime.Quiet ∧
      runtime.requests[2]? = some (Request.answered (.unloaded (.ok ()))) ∧
      ¬ runtime.Accounted := by
  have hrun : (run (step plainHost) unloadTwice {}).map (fun runtime =>
      (runtime.resident.length, runtime.applications.map (·.state),
        runtime.requests.map Request.isAnswered, runtime.requests[2]?.any Request.isUnloaded)) =
      some (0, [.failed], [true, true, true], true) := by decide
  obtain ⟨runtime, hruntime, hreached⟩ := Option.map_eq_some_iff.mp hrun
  simp only [Prod.mk.injEq, List.length_eq_zero_iff] at hreached
  obtain ⟨hresident, hstates, hanswered, hreply⟩ := hreached
  refine ⟨runtime, Reaches.start.run hruntime, fun request hmem => ?_, ?_, fun haccounted => ?_⟩
  · have hmem' := List.mem_map_of_mem (f := Request.isAnswered) hmem
    rw [hanswered] at hmem'
    simpa using hmem'
  · obtain ⟨request, hrequest, hunloaded⟩ := Option.any_eq_true _ _ |>.mp hreply
    rw [hrequest]
    unfold Request.isUnloaded at hunloaded
    split at hunloaded
    · rfl
    · cases hunloaded
  · obtain ⟨started, hstarted, hfailed⟩ := List.map_eq_singleton_iff.mp hstates
    rcases haccounted 0 started (by simp [hstarted]) with ⟨entry, hentry, _⟩ | hstopped
    · rw [hresident] at hentry
      cases hentry
    · rw [hfailed] at hstopped
      cases hstopped

end HologramLive.Runtime
