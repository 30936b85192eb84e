import HologramLive.Lifecycle.Launch
import HologramLive.Plan.Attenuation

namespace HologramLive.Lifecycle
open Plan Lib Lib.Result Lib.Interleaving

/-- How a startup's gates stand to its applications. -/
structure Launch.GatePerApplication (launch : Launch) : Prop where
  nodup : launch.order.Nodup
  root : ∀ application, launch.application = some application → launch.order[0]? = some 0
  count : ∀ application, launch.application = some application →
    application.invocations = launch.order.length

section Gates
variable {launch : Launch}

theorem prepareApplications_invocations {admittedGrants : Grants} {order : List Nat}
    (h : prepareApplications upstream plan registry admittedGrants order progress =
      .ok progress') : progress'.invocations = progress.invocations + order.length := by
  induction order generalizing progress with
  | nil =>
    cases h
    rfl
  | cons applicationIndex rest ih =>
    obtain ⟨reached, happlication, hrest⟩ := bind_ok.mp h
    rw [prepareApplication_follow] at happlication
    rw [ih hrest, (follow_applicationHurdles happlication).2, List.length_cons]
    omega

theorem startLayers_ok (h : startLayers layers progress = .ok progress') :
    progress'.invocations = progress.invocations := by
  rcases startLayers_cases layers progress with hok | ⟨begun, error, _, herror⟩
  · rw [hok] at h
    cases h
    rfl
  · rw [herror] at h
    cases h

theorem follow_failed (h : follow gates progress = .error failed) :
    failed.result.toOption = none := by
  induction gates generalizing progress with
  | nil => cases h
  | cons hurdle rest ih =>
    cases hurdle with
    | check guarded fault =>
      match guarded, fault with
      | _, none => exact ih h
      | false, some error =>
        cases h
        rfl
      | true, some error =>
        cases h
        rfl
    | opening => exact ih h
    | prepare slot kappa outcome =>
      match outcome with
      | .ok instance' => exact ih h
      | .error error =>
        cases h
        rfl

theorem startup_failed {admittedGrants : List (Nat × EffectiveGrant)}
    (h : (prepareApplications upstream plan registry admittedGrants order {} >>=
      fun progress => startLayers progress.prepared progress) = .error failed) :
    failed.result.toOption = none := by
  rw [prepareApplications_follow] at h
  cases hfollow : follow (hurdles upstream plan registry admittedGrants order 0 0) {} with
  | error run =>
    rw [show ({} : Progress).prepared.length = 0 from rfl, hfollow] at h
    cases h
    exact follow_failed hfollow
  | ok progress =>
    rw [show ({} : Progress).prepared.length = 0 from rfl, hfollow, ok_bind] at h
    rcases startLayers_cases progress.prepared progress with hok | ⟨begun, error, _, herror⟩
    · rw [hok] at h
      cases h
    · rw [herror] at h
      cases h
      rfl

theorem startupOrder_ok (h : startupOrder plan = .ok (primaryLayer, order)) :
    lifecycleApplicationOrder plan = .ok order := by
  unfold startupOrder at h
  split at h
  · cases h
  split at h
  · cases h
  split at h
  · cases h
  simp only [bind_ok, Except.ok.injEq, Prod.mk.injEq] at h
  obtain ⟨order', horder, _, rfl⟩ := h
  exact horder

theorem Launch.gatePerApplication (hordered : launch.plan.Ordered) :
    launch.GatePerApplication := by
  cases hstartup : startupOrder launch.plan with
  | error error =>
    have hnone : launch.application = none := by
      simp [Launch.application, Launch.run, prepareAndStartWithAdmittedGrants, hstartup, bail,
        Except.toOption]
    exact ⟨by simp [Launch.order, hstartup], by simp [hnone], by simp [hnone]⟩
  | ok named =>
    obtain ⟨primaryLayer, order⟩ := named
    have horder : launch.order = order := by simp [Launch.order, hstartup]
    obtain ⟨order', hlifecycle, hvisits, hnodup, _⟩ := lifecycleApplicationOrder_visits (.of_ordered hordered)
    obtain rfl := Except.ok.inj (hlifecycle.symm.trans (startupOrder_ok hstartup))
    have hfirst : order'[0]? = some 0 := by
      cases hvisits
      rfl
    refine ⟨by rwa [horder], fun _ _ => by rwa [horder], fun application happlication => ?_⟩
    rw [horder]
    unfold Launch.application Launch.run prepareAndStartWithAdmittedGrants at happlication
    simp only [hstartup] at happlication
    split at happlication
    · rename_i hfailed
      rw [startup_failed hfailed] at happlication
      cases happlication
    · rename_i progress hended
      obtain ⟨reached, hprepared, hstarted⟩ := bind_ok.mp hended
      obtain rfl := Option.some.inj happlication
      dsimp only
      rw [startLayers_ok hstarted, prepareApplications_invocations hprepared, Nat.zero_add]

end Gates

/-- What every step keeps: gates have one holder, intents stand at their own
application's gate, calls fit the state and follow the launch. -/
structure Launch.Orderly (launch : Launch) (world : World) : Prop where
  exclusive : Exclusive (Task.holds launch.application) world.tasks
  targets : ∀ received gate layer, Task.intent received ∈ world.tasks →
    received.target = some (gate, layer) → launch.order[gate]? = some layer.slot.application
  fits : ∀ call, Task.caller call ∈ world.tasks → call.Fits world.state
  launched : ∀ call, Task.caller call ∈ world.tasks →
    world.phase = .over ∧ ∃ application, launch.application = some application

/-- While a rollback stops a layer, its application's gate is free. -/
def Launch.Guarded (launch : Launch) (world : World) : Prop :=
  ∀ made slot gate, world.phase = .inside made → launch.run.calls[made]? = some (.stop slot) →
    launch.order[gate]? = some slot.application → launch.free world gate = true

namespace Launch
variable {launch : Launch} {world next : World}

theorem primary_application {made gate : Nat} (h : launch.primary made gate = some layer) :
    launch.order[gate]? = some layer.slot.application := by
  obtain ⟨application, horder, h⟩ := Option.bind_eq_some_iff.mp h
  obtain ⟨⟨_, layers⟩, _, h⟩ := Option.bind_eq_some_iff.mp h
  obtain ⟨bound, _, h⟩ := Option.bind_eq_some_iff.mp h
  obtain ⟨position, _, h⟩ := Option.bind_eq_some_iff.mp h
  dsimp only at h
  split at h
  · have hmem := List.mem_of_find?_eq_some h
    rw [List.mem_filter, decide_eq_true_eq] at hmem
    rw [horder, hmem.2]
  · cases h

theorem advance_cases (h : launch.advance world place answer = some next) :
    (∃ application call call' state', launch.application = some application ∧
      world.tasks[place]? = some (.caller call) ∧
      call.step application (launch.free world) world.state answer = some (state', call') ∧
      next = { world with state := state', tasks := world.tasks.set place (.caller call') }) ∨
    ∃ received received', world.tasks[place]? = some (.intent received) ∧
      received.step launch.texts launch.applicationKappa (launch.primary (launch.made world))
        (launch.free world) answer = some received' ∧
      next = { world with tasks := world.tasks.set place (.intent received') } := by
  unfold advance at h
  split at h
  · cases h
  · rename_i call hcall
    obtain ⟨application, happlication, h⟩ := Option.bind_eq_some_iff.mp h
    obtain ⟨⟨state', call'⟩, hstep, rfl⟩ := Option.map_eq_some_iff.mp h
    exact .inl ⟨application, call, call', state', happlication, hcall, hstep, rfl⟩
  · rename_i received hreceived
    obtain ⟨received', hstep, rfl⟩ := Option.map_eq_some_iff.mp h
    exact .inr ⟨received, received', hreceived, hstep, rfl⟩

theorem Orderly.start : launch.Orderly {} :=
  ⟨.nil, by simp, by simp, by simp⟩

theorem Orderly.arrive (h : launch.Orderly world) {call : Caller}
    (hnothing : ∀ application gate, call.holds application gate = false)
    (hfits : ∀ state, call.Fits state) (harrive : launch.arrive world call = some next) :
    launch.Orderly next := by
  unfold Launch.arrive at harrive
  split at harrive
  · rename_i hready
    cases harrive
    refine ⟨h.exclusive.push fun gate => ?_, fun received gate layer hmem => ?_,
      fun other hmem => ?_, fun _ _ => ⟨hready.1, Option.isSome_iff_exists.mp hready.2⟩⟩
    · cases happlication : launch.application <;> simp [Task.holds, hnothing]
    · exact h.targets received gate layer (by simpa using hmem)
    · rcases List.mem_append.mp hmem with hmem | hmem
      · exact h.fits other hmem
      · obtain rfl : other = call := by simpa using hmem
        exact hfits _
  · cases harrive

theorem Orderly.handle (h : launch.Orderly world) (gate : Nat) (id : ViewAttachmentId)
    (request : ViewIntentRequest) :
    launch.Orderly
      { world with tasks := world.tasks ++ [.intent (.arrived gate id request)] } := by
  refine ⟨h.exclusive.push fun _ => rfl, fun received gate layer hmem htarget => ?_,
    fun call hmem => h.fits call (by simpa using hmem),
    fun call hmem => h.launched call (by simpa using hmem)⟩
  rcases List.mem_append.mp hmem with hmem | hmem
  · exact h.targets received gate layer hmem htarget
  · obtain rfl : received = .arrived _ _ _ := by simpa using hmem
    cases htarget

theorem Orderly.advance (hgates : launch.GatePerApplication) (h : launch.Orderly world)
    (hadvance : launch.advance world place answer = some next) : launch.Orderly next := by
  rcases advance_cases hadvance with
    ⟨application, call, call', state', happlication, hcall, hstep, rfl⟩ |
    ⟨received, received', hreceived, hstep, rfl⟩
  · have hmoves := Caller.step_moves hstep
    have hmem := List.mem_of_getElem? hcall
    refine ⟨h.exclusive.set hcall fun gate hgate => ?_, fun received gate layer hreceived => ?_,
      fun other hother => ?_, fun other hother => h.launched call hmem⟩
    · have hgained := hmoves.gains gate (by simpa [Task.holds, happlication] using hgate)
      exact hgained.imp_left fun hheld => by simpa [Task.holds, happlication] using hheld
    · rcases mem_set_cases hreceived with hsame | ⟨_, _, hkept⟩
      · cases hsame
      · exact h.targets received gate layer (List.mem_of_getElem? hkept)
    · rcases mem_set_cases hother with hsame | ⟨place', hne, hkept⟩
      · cases hsame
        exact hmoves.fits (h.fits call hmem)
      · have hfits := h.fits other (List.mem_of_getElem? hkept)
        rcases hmoves.changes (h.fits call hmem) with hstate | ⟨hall, hstopped⟩
        · rwa [hstate]
        have hpositive : 0 < application.invocations := by
          rw [hgates.count application happlication]
          exact (List.getElem?_eq_some_iff.mp (hgates.root application happlication)).1
        refine hfits.other hpositive (fun gate hgate => ?_) hstopped state'
        have hnone := h.exclusive.other hcall hkept
          (by simpa [Task.holds, happlication] using hall gate hgate) (Ne.symm hne)
        simpa [Task.holds, happlication] using hnone
  · refine ⟨h.exclusive.set hreceived fun gate hgate =>
        (Intent.step_gains hstep hgate).imp_right (·.1),
      fun other gate layer hother htarget => ?_, fun call hcall => ?_, fun call hcall => ?_⟩
    · rcases mem_set_cases hother with hsame | ⟨_, _, hkept⟩
      · cases hsame
        rcases Intent.step_target hstep htarget with hbefore | hprimary
        · exact h.targets received gate layer (List.mem_of_getElem? hreceived) hbefore
        · exact primary_application hprimary
      · exact h.targets other gate layer (List.mem_of_getElem? hkept) htarget
    · rcases mem_set_cases hcall with hsame | ⟨_, _, hkept⟩
      · cases hsame
      · exact h.fits call (List.mem_of_getElem? hkept)
    · rcases mem_set_cases hcall with hsame | ⟨_, _, hkept⟩
      · cases hsame
      · exact h.launched call (List.mem_of_getElem? hkept)

theorem Orderly.step (hgates : launch.GatePerApplication) (h : launch.Orderly world)
    (hstep : launch.step world action = some next) : launch.Orderly next := by
  cases action with
  | startup =>
    have hidle : ∀ made, world.phase = .between made ∨ world.phase = .inside made →
        ∀ call, Task.caller call ∉ world.tasks := by
      intro made hphase call hcall
      obtain ⟨hover, _⟩ := h.launched call hcall
      rcases hphase with hphase | hphase <;> rw [hphase] at hover <;> cases hover
    unfold Launch.step at hstep
    dsimp only at hstep
    split at hstep
    · rename_i made hphase
      have hnone := hidle made (.inl hphase)
      split at hstep <;> cases hstep
      · exact ⟨h.exclusive, h.targets, h.fits, fun call hcall => absurd hcall (hnone call)⟩
      · exact ⟨h.exclusive, h.targets, fun call hcall => absurd hcall (hnone call),
          fun call hcall => absurd hcall (hnone call)⟩
    · rename_i made hphase
      have hnone := hidle made (.inr hphase)
      cases hstep
      exact ⟨h.exclusive, h.targets, h.fits, fun call hcall => absurd hcall (hnone call)⟩
    · cases hstep
  | invoke inputs thenStop =>
    have hfits : ∀ state, (Caller.invoke inputs thenStop).Fits state := fun _ => trivial
    exact h.arrive (fun _ _ => rfl) hfits hstep
  | stop =>
    have hfits : ∀ state, (Caller.stop 0 none).Fits state := fun _ => trivial
    exact h.arrive (fun _ gate => by simp [Caller.holds]) hfits hstep
  | handle gate id request =>
    cases hstep
    exact h.handle gate id request
  | advance place answer => exact h.advance hgates hstep

theorem Guarded.step (h : launch.Orderly world) (hguarded : launch.Guarded world)
    (hallowed : launch.Gated world action) (hstep : launch.step world action = some next) :
    launch.Guarded next := by
  have harrived : ∀ call, launch.arrive world call = some next → launch.Guarded next := by
    intro call harrive made slot gate hphase
    unfold arrive at harrive
    split at harrive
    · rename_i hready
      cases harrive
      dsimp only at hphase
      rw [hready.1] at hphase
      cases hphase
    · cases harrive
  cases action with
  | startup =>
    intro made slot gate hphase hcall horder
    unfold Launch.step at hstep
    dsimp only at hstep
    split at hstep
    · rename_i made' hbetween
      split at hstep <;> cases hstep <;> cases hphase
      exact hallowed made slot gate hbetween hcall horder
    · cases hstep
      cases hphase
    · cases hstep
  | invoke inputs thenStop => exact harrived _ hstep
  | stop => exact harrived _ hstep
  | handle gate' id request =>
    cases hstep
    intro made slot gate hphase hcall horder
    have hfree := free_iff.mp (hguarded made slot gate hphase hcall horder)
    refine free_iff.mpr fun task htask => ?_
    rcases List.mem_append.mp htask with htask | htask
    · exact hfree task htask
    · obtain rfl := List.mem_singleton.mp htask
      rfl
  | advance place answer =>
    intro made slot gate hphase hcall horder
    rcases advance_cases hstep with
      ⟨application, call, call', state', _, hcalls, _, rfl⟩ |
      ⟨received, received', hreceived, hmove, rfl⟩
    · have hover := (h.launched call (List.mem_of_getElem? hcalls)).1
      dsimp only at hphase
      rw [hover] at hphase
      cases hphase
    · have hfree := free_iff.mp (hguarded made slot gate hphase hcall horder)
      refine free_iff.mpr fun task htask => ?_
      rcases mem_set_cases htask with rfl | ⟨_, _, hkept⟩
      · cases hheld : Task.holds launch.application (.intent received') gate with
        | false => rfl
        | true =>
          rcases Intent.step_gains hmove hheld with hbefore | ⟨_, primary, request, rfl⟩
          · exact hbefore.symm.trans (hfree _ (List.mem_of_getElem? hreceived))
          · exact absurd horder
              (hallowed made slot gate primary request hphase hcall hreceived)
      · exact hfree task (List.mem_of_getElem? hkept)

section Orderly
variable (hgates : launch.GatePerApplication) (h : launch.Orderly world)
include hgates h

/-- An invocation in flight holds its application's gate. -/
theorem Orderly.holds_gate (htask : task ∈ world.tasks) (hinvoking : task.invoking = some layer) :
    ∃ gate, Task.holds launch.application task gate = true ∧
      launch.order[gate]? = some layer.slot.application := by
  unfold Task.invoking at hinvoking
  split at hinvoking
  · rename_i called inputs thenStop
    obtain rfl := Option.some.inj hinvoking
    obtain ⟨_, application, happlication⟩ := h.launched _ htask
    obtain ⟨_, hroot⟩ := h.fits _ htask
    exact ⟨0, by simp [Task.holds, happlication, Caller.holds],
      by rw [hgates.root application happlication, hroot]⟩
  · rename_i gate primary inputs
    obtain rfl := Option.some.inj hinvoking
    exact ⟨gate, by simp [Task.holds, Intent.holds], h.targets _ gate _ htask rfl⟩
  · cases hinvoking

theorem Orderly.oneAtATime : OneAtATime world := by
  intro i j left right a b hi hj ha hb hsame
  obtain ⟨gate, hheld, horder⟩ := h.holds_gate hgates (List.mem_of_getElem? hi) ha
  obtain ⟨gate', hheld', horder'⟩ := h.holds_gate hgates (List.mem_of_getElem? hj) hb
  have hlt := (List.getElem?_eq_some_iff.mp horder).1
  obtain rfl : gate = gate' :=
    (List.getElem?_inj hlt hgates.nodup).mp (by rw [horder, horder', hsame])
  exact h.exclusive i j left right gate hi hj hheld hheld'

omit hgates in
theorem Orderly.stopsAreFinal : StopsAreFinal world := by
  intro invoked layer inputs thenStop hstopped hcalling
  have hstate : world.state = .stopped := h.fits _ hstopped
  have hrunning : world.state = .running := (h.fits _ hcalling).1
  rw [hstate] at hrunning
  cases hrunning

theorem Orderly.safe (hguarded : launch.Guarded world) : launch.Safe world := by
  refine ⟨h.oneAtATime hgates, fun slot task layer hstopping htask hinvoking hsame => ?_,
    h.stopsAreFinal⟩
  obtain ⟨gate, hheld, horder⟩ := h.holds_gate hgates htask hinvoking
  cases hstopping with
  | rollback phase call =>
    have hfree := hguarded _ slot gate phase call (hsame ▸ horder)
    rw [free_iff.mp hfree task htask] at hheld
    cases hheld
  | @caller left failures invoked stopped stopping =>
    obtain ⟨_, application, happlication⟩ := h.launched _ stopping
    have hlt := (List.getElem?_eq_some_iff.mp horder).1
    have hall : Task.holds launch.application
        (.caller (.stopping (stopped :: left) failures invoked)) gate = true := by
      simp [Task.holds, happlication, Caller.holds, hgates.count application happlication, hlt]
    obtain ⟨i, hi⟩ := List.mem_iff_getElem?.mp htask
    obtain ⟨j, hj⟩ := List.mem_iff_getElem?.mp stopping
    obtain rfl := h.exclusive i j _ _ gate hi hj hheld hall
    obtain rfl := Option.some.inj (hi.symm.trans hj)
    cases hinvoking

end Orderly

/-- A rollback beside an intent that has its gate meets the intent's invocation. -/
theorem Orderly.clash {made gate : Nat} {slot : Slot} {layer : PreparedApplicationLayer}
    (h : launch.Orderly world) (hphase : world.phase = .inside made)
    (hcall : launch.run.calls[made]? = some (.stop slot))
    (horder : launch.order[gate]? = some slot.application)
    (htask : Task.intent (.calling gate layer inputs) ∈ world.tasks) : ¬ launch.Safe world := by
  intro hsafe
  have htarget := h.targets _ gate layer htask rfl
  rw [horder, Option.some.injEq] at htarget
  exact hsafe.quiet slot _ layer (.rollback hphase hcall) htask rfl htarget.symm

theorem Orderly.clashes {made gate place : Nat} {slot : Slot}
    {layer : PreparedApplicationLayer} (hgates : launch.GatePerApplication) (h : launch.Orderly world)
    (hphase : world.phase = .inside made) (hcall : launch.run.calls[made]? = some (.stop slot))
    (horder : launch.order[gate]? = some slot.application)
    (htask : world.tasks[place]? = some (.intent (.holding gate layer request))) :
    ∃ action next, launch.step world action = some next ∧ ¬ launch.Safe next := by
  have hstep : launch.step world (.advance place .silent) = some
      { world with
        tasks := world.tasks.set place
          (.intent (.calling gate layer [Utf8.encode request.payload])) } := by
    simp [Launch.step, Launch.advance, htask, Intent.step]
  have hcalling := List.mem_set (List.getElem?_eq_some_iff.mp htask).1
    (Task.intent (.calling gate layer [Utf8.encode request.payload]))
  exact ⟨_, _, hstep, (h.step hgates hstep).clash hphase hcall horder hcalling⟩

/-- The first step that does not respect the gates makes the run unsafe, at once or by the
invocation that is due next. -/
theorem Orderly.breaks (hgates : launch.GatePerApplication) (h : launch.Orderly world)
    (hstep : launch.step world action = some next) (hungated : ¬ launch.Gated world action) :
    ¬ launch.Safe next ∨ ∃ action' last, launch.step next action' = some last ∧
      ¬ launch.Safe last := by
  have hnext := h.step hgates hstep
  cases action with
  | startup =>
    simp only [Gated, not_forall] at hungated
    obtain ⟨made, slot, gate, hphase, hcall, horder, hbusy⟩ := hungated
    obtain rfl : next = { world with phase := .inside made } := by
      have hlt := (List.getElem?_eq_some_iff.mp hcall).1
      simpa [Launch.step, hphase, hlt] using hstep.symm
    have hheld : ∃ task ∈ world.tasks, Task.holds launch.application task gate = true := by
      simpa [Launch.free, Interleaving.free] using hbusy
    obtain ⟨task, htask, hheld⟩ := hheld
    cases task with
    | caller call =>
      have hover := (h.launched call htask).1
      rw [hphase] at hover
      cases hover
    | intent intent =>
      cases intent with
      | holding held primary request =>
        obtain rfl : gate = held := by simpa [Task.holds, Intent.holds] using hheld
        obtain ⟨place, hplace⟩ := List.mem_iff_getElem?.mp htask
        exact .inr (hnext.clashes hgates rfl hcall horder hplace)
      | calling held primary inputs =>
        obtain rfl : gate = held := by simpa [Task.holds, Intent.holds] using hheld
        exact .inl (hnext.clash rfl hcall horder htask)
      | arrived => cases hheld
      | waiting => cases hheld
      | responded => cases hheld
  | advance place answer =>
    simp only [Gated, not_forall] at hungated
    obtain ⟨made, slot, gate, primary, request, hphase, hcall, htask, horder⟩ := hungated
    obtain rfl : next = { world with
        tasks := world.tasks.set place (.intent (.holding gate primary request)) } := by
      cases answer <;> simp [Launch.step, Launch.advance, htask, Intent.step] at hstep
      exact hstep.2.symm
    have hplace := (List.getElem?_eq_some_iff.mp htask).1
    have hholding : (world.tasks.set place (.intent (.holding gate primary request)))[place]? =
        some (.intent (.holding gate primary request)) := by simp [hplace]
    exact .inr (hnext.clashes hgates hphase hcall (not_not.mp horder) hholding)
  | invoke inputs thenStop => exact absurd trivial hungated
  | stop => exact absurd trivial hungated
  | handle gate id request => exact absurd trivial hungated

/-- Every run keeps to one invocation at a time and to final stops. Stops are quiet as long
as rollback and intents respect the gates, and no longer. -/
theorem shutdown_safe (h : Reported launch.upstream report)
    (hplan : report.intoApplicationPlan = .ok launch.plan) :
    (∀ world, Reaches launch.step (fun _ _ => True) {} world →
      OneAtATime world ∧ StopsAreFinal world) ∧
    (∀ world, Reaches launch.step launch.Gated {} world → launch.Safe world) ∧
    ∀ world action next, Reaches launch.step launch.Gated {} world →
      launch.step world action = some next → ¬ launch.Gated world action →
      ¬ launch.Safe next ∨ ∃ action' last, launch.step next action' = some last ∧
        ¬ launch.Safe last := by
  have hgates := gatePerApplication (h.ordered hplan)
  have horderly : ∀ world, Reaches launch.step (fun _ _ => True) {} world →
      launch.Orderly world := by
    intro world hreaches
    exact hreaches.invariant .start fun _ _ _ horderly _ hstep => horderly.step hgates hstep
  have hguarded : ∀ world, Reaches launch.step launch.Gated {} world →
      launch.Orderly world ∧ launch.Guarded world := by
    intro world hreaches
    have hstart : launch.Orderly {} ∧ launch.Guarded {} :=
      ⟨.start, fun _ _ _ hphase => by cases hphase⟩
    refine @Reaches.invariant _ _ _ _ _ _ (fun world => launch.Orderly world ∧ launch.Guarded world)
      hreaches hstart fun _ _ _ hkept hallowed hstep => ?_
    exact ⟨hkept.1.step hgates hstep, hkept.2.step hkept.1 hallowed hstep⟩
  refine ⟨fun world hreaches => ?_, fun world hreaches => ?_,
    fun world action next hreaches hstep hungated => ?_⟩
  · exact ⟨(horderly world hreaches).oneAtATime hgates, (horderly world hreaches).stopsAreFinal⟩
  · exact (hguarded world hreaches).1.safe hgates (hguarded world hreaches).2
  · exact (hguarded world hreaches).1.breaks hgates hstep hungated

end Launch

/-- An archive of a rootfs root with a View layer and a tensor layer. -/
def viewCatalog : Catalog where
  archives :=
    [([72, 79, 76, 79, 4, 0],
      { fingerprint := [1]
        appManifest := some [97]
        extensions := .ok [(Directory.directoryExtensionKey, [101])]
        contentBlobs := .ok [] })]
  manifests :=
    [([97], ⟨some 0, "c", [⟨.rootfsImage, "d", "init", "x86_64"⟩, ⟨.view, "d", "page", "portable"⟩,
      ⟨.tensorPlan, "d", "model", ""⟩], []⟩)]
  capabilities := [([99], {})]
  directories :=
    [([101],
      { schemaVersion := 1
        primaryLayer := some 0
        requiresKappa := "c"
        layers :=
          [⟨0, "rootfs", "d", "init", none, some "x86_64", none, none⟩,
           ⟨1, "view", "d", "page", none, none, some "portable", none⟩,
           ⟨2, "tensor", "d", "model", none, none, none, none⟩]
        children := []
        blobs := [] })]

/-- The plan of that archive under a host with a provider for each kind. -/
def viewPlan : ApplicationPlan where
  identity := ⟨viewCatalog.upstream.addressBytes [72, 79, 76, 79, 4, 0], "01", "a"⟩
  primaryLayer := some 0
  requiresKappa := "c"
  requestedCapabilities := ⟨"c", [99], {}⟩
  layers :=
    [⟨0, .rootfsImage, "d", "init", "x86_64", true, [100], .localStore, "rootfs"⟩,
     ⟨1, .view, "d", "page", "portable", false, [100], .localStore, "view"⟩,
     ⟨2, .tensorPlan, "d", "model", "", false, [100], .localStore, "tensor"⟩]
  children := []
  objects := [("d", ⟨"d", [100], .localStore⟩), ("c", ⟨"c", [99], .localStore⟩)]
  manifest := ⟨some 0, "c", [⟨.rootfsImage, "d", "init", "x86_64"⟩, ⟨.view, "d", "page", "portable"⟩,
    ⟨.tensorPlan, "d", "model", ""⟩], []⟩

theorem viewPlan_planned : ∃ report, Reported viewCatalog.upstream report ∧
    report.intoApplicationPlan = .ok viewPlan := by
  have hrun : ((explainApplication viewCatalog.upstream [72, 79, 76, 79, 4, 0] {}
      spellingStore).toOption.bind fun report => (report.evaluateProviders fun _ context =>
        .available (layerKindName context.kind)).intoApplicationPlan.toOption) = some viewPlan := by
    decide
  obtain ⟨report, hreport, hplan⟩ := Option.bind_eq_some_iff.mp hrun
  have hexplained : explainApplication viewCatalog.upstream [72, 79, 76, 79, 4, 0] {}
      spellingStore = .ok report := toOption_eq_some.mp hreport
  exact ⟨_, (Reported.explained hexplained).evaluated _, toOption_eq_some.mp hplan⟩

def plainProvider (kind : LayerKind) (start : Except LiveError Unit) : LayerProvider where
  kind := kind
  contract := none
  name := layerKindName kind
  prepare _ context := .ok ⟨context.layer.position, start, .ok ()⟩

/-- A host whose tensor layers do not start. -/
def viewLaunch : Launch where
  upstream := viewCatalog.upstream
  plan := viewPlan
  registry := ⟨.direct, [plainProvider .rootfsImage (.ok ()), plainProvider .view (.ok ()),
    plainProvider .tensorPlan (.error (.capability "no device"))]⟩
  admittedGrants := [(0, ⟨"grant", [], {}, .localBaseline⟩)]
  texts := ⟨id, fun _ => ""⟩

theorem shutdown_safe_sample : viewLaunch.Safe
    { tasks := [.intent (.arrived 0 ⟨"token", "a", 1⟩ ⟨1, "application.invoke", ""⟩)] } := by
  obtain ⟨report, hreported, hplan⟩ := viewPlan_planned
  have hsafe := (@Launch.shutdown_safe viewLaunch report hreported hplan).2.1
  have harrive : viewLaunch.step {} (.handle 0 ⟨"token", "a", 1⟩ ⟨1, "application.invoke", ""⟩) =
      some { tasks := [.intent (.arrived 0 ⟨"token", "a", 1⟩ ⟨1, "application.invoke", ""⟩)] } := rfl
  have hgated : viewLaunch.Gated {}
      (.handle 0 ⟨"token", "a", 1⟩ ⟨1, "application.invoke", ""⟩) := trivial
  exact hsafe _ (Reaches.start.step hgated harrive)

/-- Three layers prepared, the View started, its intent invoking the primary; then the
tensor layer fails to start and the rollback begins. -/
def intentThenRollback : List Action :=
  List.replicate 10 Action.startup ++
    [Action.startup, .handle 0 ⟨"token", "a", 1⟩ ⟨1, "application.invoke", ""⟩, .advance 0 .silent,
     .advance 0 .silent, .advance 0 .silent, .startup, .startup]

/-- The rollback stops a layer while the intent's invocation is in flight. -/
theorem rollback_stops_busy : ∃ world,
    Reaches viewLaunch.step (fun _ _ => True) {} world ∧ ¬ viewLaunch.Safe world := by
  have hrun : (run viewLaunch.step intentThenRollback {}).map (fun world =>
      (world.phase, world.tasks.map fun task => task.invoking.map (·.slot))) =
      some (.inside 6, [some ⟨0, 0⟩]) := by decide
  have hcall : viewLaunch.run.calls[6]? = some (Call.stop ⟨0, 2⟩) := by decide
  obtain ⟨world, hworld, hreached⟩ := Option.map_eq_some_iff.mp hrun
  obtain ⟨hphase, htasks⟩ := Prod.mk.inj hreached
  refine ⟨world, Reaches.start.run hworld, fun hsafe => ?_⟩
  obtain ⟨task, htask, hinvoking⟩ := List.map_eq_singleton_iff.mp htasks
  obtain ⟨layer, hlayer, hslot⟩ := Option.map_eq_some_iff.mp hinvoking
  exact hsafe.quiet ⟨0, 2⟩ task layer (.rollback hphase hcall) (by simp [htask]) hlayer
    (by rw [hslot])

end HologramLive.Lifecycle
