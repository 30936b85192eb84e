import HologramLive.Lifecycle.Hurdles

namespace HologramLive.Lifecycle
open Plan Lib.Result
open Lib.DepthFirst (Visits)

/-- The layers of one application, in manifest order. -/
def slotsOf (plan : ApplicationPlan) (applicationIndex : Nat) : List Slot :=
  (List.range' 0 (layerCount plan applicationIndex)).map (Slot.mk applicationIndex)

/-- The layers of every application, applications depth first. -/
def DepthFirstSlots (plan : ApplicationPlan) (slots : List Slot) : Prop :=
  ∃ order, Visits (childrenOf plan) [0] order ∧ slots = order.flatMap (slotsOf plan)

/-- What a run did: the preparations it tried, with their outcomes, then the
layers it started, then those it stopped. -/
structure Phases (plan : ApplicationPlan) (run : Run) (slots : List Slot)
    (tried : List (Slot × Bool)) (started stopped : List Slot) : Prop where
  calls : run.calls = (tried.map fun (slot, succeeded) => Call.prepare slot succeeded) ++
    started.map Call.start ++ stopped.map Call.stop
  depthFirst : tried ≠ [] → DepthFirstSlots plan slots
  prepareOrder : tried.map Prod.fst <+: slots
  startOrder : started <+: slots
  startAfter : started ≠ [] → tried = slots.map fun slot => (slot, true)
  kept : ∀ running, run.result = .ok running → stopped = []
  undone : ∀ error, run.result = .error error →
    stopped = ((tried.filter Prod.snd).map Prod.fst).reverse

def Transactional (plan : ApplicationPlan) (run : Run) : Prop :=
  ∃ slots tried started stopped, Phases plan run slots tried started stopped

/-- No check without a rollback is the first to fail once a layer is prepared. -/
def Covered (gates : List Hurdle) : Prop :=
  ∀ before (hurdle : Hurdle) after, gates = before ++ hurdle :: after →
    (∀ gate ∈ before, Hurdle.passes gate) → hurdle.unguarded → before.filterMap Hurdle.attempt = []

/-- Where a startup stands behind hurdles it has cleared. -/
def behind (progress : Progress) (gates : List Hurdle) : Progress where
  prepared := progress.prepared ++ gates.filterMap Hurdle.gain
  invocations := progress.invocations + gates.countP (· matches .opening)
  calls := progress.calls ++ (gates.filterMap Hurdle.attempt).map (Call.prepare · true)

/-- The ways hurdles can be followed: all are cleared, or the first that fails
leaves with or without a rollback. -/
inductive Followed (gates : List Hurdle) (progress : Progress) : Except Run Progress → Prop where
  | cleared (passed : ∀ gate ∈ gates, gate.passes) :
    Followed gates progress (.ok (behind progress gates))
  | bailed (split : gates = before ++ hurdle :: after)
    (passed : ∀ gate ∈ before, Hurdle.passes gate) (unguarded : Hurdle.unguarded hurdle) :
    Followed gates progress (.error (bail (behind progress before) error))
  | undone (split : gates = before ++ hurdle :: after)
    (passed : ∀ gate ∈ before, Hurdle.passes gate) (failed : ¬ Hurdle.passes hurdle)
    (guarded : ¬ Hurdle.unguarded hurdle) :
    Followed gates progress (.error (rollBack
      { behind progress before with
        calls := (behind progress before).calls ++
          hurdle.attempt.toList.map (Call.prepare · false) } error))

theorem Followed.step (h : Followed rest next ended) (hpasses : gate.passes)
    (hbehind : ∀ before, behind next before = behind progress (gate :: before)) :
    Followed (gate :: rest) progress ended := by
  cases h with
  | cleared passed =>
    rw [hbehind]
    exact .cleared (List.forall_mem_cons.mpr ⟨hpasses, passed⟩)
  | bailed split passed unguarded =>
    rw [hbehind]
    exact .bailed (by rw [split, List.cons_append]) (List.forall_mem_cons.mpr ⟨hpasses, passed⟩)
      unguarded
  | undone split passed failed guarded =>
    rw [hbehind]
    exact .undone (by rw [split, List.cons_append]) (List.forall_mem_cons.mpr ⟨hpasses, passed⟩)
      failed guarded

theorem behind_nil (progress : Progress) : behind progress [] = progress := by
  simp [behind]

theorem follow_followed (gates : List Hurdle) (progress : Progress) :
    Followed gates progress (follow gates progress) := by
  induction gates generalizing progress with
  | nil =>
    have h : Followed [] progress (.ok (behind progress [])) := .cleared (by simp)
    rwa [behind_nil] at h
  | cons gate rest ih =>
    cases gate with
    | check guarded fault =>
      cases fault with
      | none => exact (ih progress).step rfl fun _ => rfl
      | some error =>
        cases guarded with
        | false =>
          have h : Followed (.check false (some error) :: rest) progress
              (.error (bail (behind progress []) error)) :=
            .bailed (List.nil_append _).symm (by simp) trivial
          rwa [behind_nil] at h
        | true =>
          have h : Followed (.check true (some error) :: rest) progress
              (.error (rollBack { behind progress [] with
                calls := (behind progress []).calls ++ [] } error)) :=
            .undone (List.nil_append _).symm (by simp) (by simp [Hurdle.passes])
              (by simp [Hurdle.unguarded])
          rwa [List.append_nil, behind_nil] at h
    | opening =>
      refine (ih _).step trivial fun before => ?_
      simp [behind, List.filterMap_cons, Hurdle.gain, Hurdle.attempt, Nat.add_assoc, Nat.add_comm]
    | prepare slot kappa outcome =>
      cases outcome with
      | error error =>
        have h : Followed (.prepare slot kappa (.error error) :: rest) progress
            (.error (rollBack { behind progress [] with
              calls := (behind progress []).calls ++ [.prepare slot false] } error)) :=
          .undone (List.nil_append _).symm (by simp)
            (by simp [Hurdle.passes, Except.isOk, Except.toBool]) (by simp [Hurdle.unguarded])
        rwa [behind_nil] at h
      | ok instance' =>
        refine (ih _).step rfl fun before => ?_
        simp [behind, Hurdle.gain, Hurdle.attempt, Progress.push]

/-- The layers a startup tries to prepare before it fails. -/
def attempts : List Hurdle → List Slot
  | [] => []
  | .prepare slot _ (.error _) :: _ => [slot]
  | .check _ (some _) :: _ => []
  | gate :: rest => gate.attempt.toList ++ attempts rest

theorem attempts_passed (passed : ∀ gate ∈ front, gate.passes) (back : List Hurdle) :
    attempts (front ++ back) = front.filterMap Hurdle.attempt ++ attempts back := by
  induction front with
  | nil => rfl
  | cons gate rest ih =>
    obtain ⟨hgate, hrest⟩ := List.forall_mem_cons.mp passed
    cases gate with
    | check guarded fault =>
      obtain rfl : fault = none := hgate
      exact ih hrest
    | opening => exact ih hrest
    | prepare slot kappa outcome =>
      cases outcome with
      | error error => simp [Hurdle.passes, Except.isOk, Except.toBool] at hgate
      | ok instance' =>
        rw [List.cons_append, attempts, ih hrest]
        · rfl
        all_goals simp

theorem attempts_failed (failed : ∃ gate ∈ front, ¬ gate.passes) (back : List Hurdle) :
    attempts (front ++ back) = attempts front := by
  induction front with
  | nil => simp at failed
  | cons gate rest ih =>
    cases gate with
    | check guarded fault =>
      cases fault with
      | none => exact ih (by simpa [Hurdle.passes] using failed)
      | some error => rfl
    | opening => exact ih (by simpa [Hurdle.passes] using failed)
    | prepare slot kappa outcome =>
      cases outcome with
      | error error => rfl
      | ok instance' =>
        rw [List.cons_append, attempts, attempts, ih]
        · simpa [Hurdle.passes, Except.isOk, Except.toBool] using failed
        all_goals simp

theorem attempts_stuck (failed : ¬ gate.passes) (back : List Hurdle) :
    attempts (gate :: back) = gate.attempt.toList := by
  cases gate with
  | check guarded fault =>
    cases fault with
    | none => exact absurd rfl failed
    | some error => rfl
  | opening => exact absurd trivial failed
  | prepare slot kappa outcome =>
    cases outcome with
    | error error => rfl
    | ok instance' => exact absurd rfl failed

/-- Hurdles that prepare the given layers in order, as far as they get. -/
structure Attempting (gates : List Hurdle) (slots : List Slot) : Prop where
  upTo : attempts gates <+: slots
  whole : (∀ gate ∈ gates, gate.passes) → attempts gates = slots

namespace Attempting

theorem append (hfront : Attempting front slots) (hback : Attempting back slots') :
    Attempting (front ++ back) (slots ++ slots') := by
  by_cases hpassed : ∀ gate ∈ front, gate.passes
  · have hprepared : front.filterMap Hurdle.attempt = slots := by
      simpa [attempts] using (attempts_passed hpassed []).symm.trans
        (by rw [List.append_nil, hfront.whole hpassed])
    refine ⟨?_, fun hall => ?_⟩
    · rw [attempts_passed hpassed, hprepared]
      exact (List.prefix_append_right_inj slots).mpr hback.upTo
    · rw [attempts_passed hpassed, hprepared,
        hback.whole fun gate hgate => hall gate (List.mem_append_right front hgate)]
  · have hfailed : ∃ gate ∈ front, ¬ gate.passes := by simpa using hpassed
    refine ⟨?_, fun hall => ?_⟩
    · rw [attempts_failed hfailed]
      exact hfront.upTo.trans (List.prefix_append slots slots')
    · exact absurd (fun gate hgate => hall gate (List.mem_append_left back hgate)) hpassed

theorem check (guarded : Bool) (fault : Option LiveError) :
    Attempting [.check guarded fault] [] := by
  cases fault <;> exact ⟨List.nil_prefix, fun _ => rfl⟩

theorem failing (guarded : Bool) (error : LiveError) (slots : List Slot) :
    Attempting [.check guarded (some error)] slots :=
  ⟨List.nil_prefix, fun hall => by simpa [Hurdle.passes] using hall _ List.mem_cons_self⟩

theorem opening : Attempting [.opening] [] :=
  ⟨List.nil_prefix, fun _ => rfl⟩

theorem prepare (slot : Slot) (applicationKappa : String)
    (outcome : Except LiveError PreparedLayer) :
    Attempting [.prepare slot applicationKappa outcome] [slot] := by
  cases outcome <;> exact ⟨List.prefix_refl _, fun _ => rfl⟩

end Attempting

section Slots
variable {upstream : Upstream} {plan : ApplicationPlan} {registry : ProviderRegistry}

theorem attempting_layerHurdles (assignment : Assignment) (ordinal place : Nat)
    (layers : List ResolvedLayer) :
    Attempting (layerHurdles upstream plan registry assignment ordinal place layers)
      ((List.range' place layers.length).map (Slot.mk assignment.application)) := by
  induction layers generalizing ordinal place with
  | nil => exact ⟨List.nil_prefix, fun _ => rfl⟩
  | cons layer rest ih =>
    exact (Attempting.check _ _).append ((Attempting.prepare _ _ _).append (ih (ordinal + 1) (place + 1)))

theorem attempting_applicationHurdles (admittedGrants : List (Nat × EffectiveGrant))
    (applicationIndex ordinal opened : Nat) :
    Attempting (applicationHurdles upstream plan registry admittedGrants applicationIndex ordinal
      opened) (slotsOf plan applicationIndex) := by
  unfold applicationHurdles slotsOf layerCount
  cases applicationLayers plan applicationIndex with
  | error error => exact .failing _ _ _
  | ok named =>
    obtain ⟨applicationKappa, layers⟩ := named
    dsimp only
    cases viewPrimary plan applicationIndex layers with
    | error error => exact .failing _ _ _
    | ok primary =>
      dsimp only
      cases applicationRequestedCapabilities plan applicationIndex with
      | error error => exact Attempting.opening.append (.failing _ _ _)
      | ok requested =>
        dsimp only
        cases admittedGrants.lookup applicationIndex with
        | none => exact Attempting.opening.append (.failing _ _ _)
        | some grant =>
          rw [← List.append_nil (List.map _ _)]
          exact Attempting.opening.append
            ((attempting_layerHurdles _ ordinal 0 layers).append (.check true _))

theorem attempting_hurdles (admittedGrants : List (Nat × EffectiveGrant)) (order : List Nat)
    (ordinal opened : Nat) :
    Attempting (hurdles upstream plan registry admittedGrants order ordinal opened)
      (order.flatMap (slotsOf plan)) := by
  induction order generalizing ordinal opened with
  | nil => exact ⟨List.nil_prefix, fun _ => rfl⟩
  | cons applicationIndex rest ih =>
    exact (attempting_applicationHurdles admittedGrants applicationIndex ordinal opened).append
      (ih _ _)

end Slots

theorem gained_slots {gates : List Hurdle} (passed : ∀ gate ∈ gates, gate.passes) :
    (gates.filterMap Hurdle.gain).map (·.slot) = gates.filterMap Hurdle.attempt := by
  rw [List.map_filterMap]
  refine List.filterMap_congr fun gate hgate => ?_
  have hpasses := passed gate hgate
  cases gate with
  | prepare slot kappa outcome =>
    cases outcome with
    | error error => simp [Hurdle.passes, Except.isOk, Except.toBool] at hpasses
    | ok instance' => rfl
  | _ => rfl

theorem unguarded_fails (h : Hurdle.unguarded gate) : ¬ gate.passes := by
  cases gate with
  | check guarded fault => cases fault <;> simp_all [Hurdle.unguarded, Hurdle.passes]
  | _ => simp [Hurdle.unguarded] at h

theorem first_failure_unique (hsplit : before ++ gate :: after = before' ++ gate' :: after')
    (passed : ∀ gate ∈ before, Hurdle.passes gate) (failed : ¬ Hurdle.passes gate)
    (passed' : ∀ gate ∈ before', Hurdle.passes gate) (failed' : ¬ Hurdle.passes gate') :
    before = before' ∧ gate = gate' := by
  induction before generalizing before' with
  | nil =>
    cases before' with
    | nil =>
      cases hsplit
      exact ⟨rfl, rfl⟩
    | cons first rest =>
      cases hsplit
      exact absurd (passed' _ List.mem_cons_self) failed
  | cons first rest ih =>
    cases before' with
    | nil =>
      cases hsplit
      exact absurd (passed _ List.mem_cons_self) failed'
    | cons first' rest' =>
      obtain ⟨rfl, hrest⟩ := List.cons.inj hsplit
      obtain ⟨rfl, hgate⟩ := ih hrest (List.forall_mem_cons.mp passed).2
        (List.forall_mem_cons.mp passed').2
      exact ⟨rfl, hgate⟩

/-- The start loop begins the layers in order up to one that fails. -/
theorem startLayers_cases (layers : List PreparedApplicationLayer) (progress : Progress) :
    startLayers layers progress =
        .ok { progress with calls := progress.calls ++ (layers.map (·.slot)).map Call.start } ∨
      ∃ begun error, begun <+: layers.map (·.slot) ∧ startLayers layers progress =
        .error (rollBack { progress with calls := progress.calls ++ begun.map Call.start } error) := by
  induction layers generalizing progress with
  | nil => exact .inl (by simp [startLayers])
  | cons layer rest ih =>
    rw [startLayers]
    cases layer.layer.start with
    | error error =>
      exact .inr ⟨[layer.slot], error, by simp [List.prefix_iff_eq_append], rfl⟩
    | ok _ =>
      rcases ih { progress with calls := progress.calls ++ [.start layer.slot] } with
        hok | ⟨begun, error, hstarts, hfailed⟩
      · exact .inl (by simp [hok])
      · refine .inr ⟨layer.slot :: begun, error, ?_, by simp [hfailed]⟩
        rw [List.map_cons]
        exact List.cons_prefix_cons.mpr ⟨rfl, hstarts⟩

def Call.prepared : Call → Option Slot
  | .prepare slot true => some slot
  | _ => none

def Call.stopped : Call → Option Slot
  | .stop slot => some slot
  | _ => none

/-- A failed transactional run has stopped what it had prepared. -/
theorem Transactional.reverses {run : Run} (h : Transactional plan run)
    (hfailed : run.result = .error error) :
    run.calls.filterMap Call.stopped = (run.calls.filterMap Call.prepared).reverse := by
  obtain ⟨slots, tried, started, stopped, h⟩ := h
  have htried : tried.filterMap (Call.prepared ∘ fun (slot, succeeded) => .prepare slot succeeded) =
      (tried.filter Prod.snd).map Prod.fst := by
    rw [← List.filterMap_eq_map, List.filterMap_filter]
    refine List.filterMap_congr fun attempt _ => ?_
    obtain ⟨slot, succeeded⟩ := attempt
    cases succeeded <;> rfl
  have hprepared : run.calls.filterMap Call.prepared = (tried.filter Prod.snd).map Prod.fst := by
    simp only [h.calls, List.filterMap_append, List.filterMap_map, htried]
    simp [Function.comp_def, Call.prepared]
  have hstopped : run.calls.filterMap Call.stopped = stopped := by
    simp only [h.calls, List.filterMap_append, List.filterMap_map]
    simp [Function.comp_def, Call.stopped]
  rw [hprepared, hstopped]
  exact h.undone error hfailed

theorem rollBack_calls (progress : Progress) (error : LiveError)
    (h : progress.prepared.map (·.slot) = slots) :
    (rollBack progress error).calls = progress.calls ++ slots.reverse.map Call.stop := by
  simp [rollBack, stopReverse, ← h, Function.comp_def]

/-- Layers that were all prepared, then started or not, then stopped in reverse. -/
theorem phases_rolledBack {run : Run} (failed : Option Slot) (started : List Slot)
    (hdepth : DepthFirstSlots plan slots)
    (htried : (prepared ++ failed.toList) <+: slots)
    (hstarted : started <+: slots) (hwhole : started ≠ [] → failed = none ∧ prepared = slots)
    (hcalls : run.calls = prepared.map (Call.prepare · true) ++
      failed.toList.map (Call.prepare · false) ++ started.map Call.start ++
      prepared.reverse.map Call.stop)
    (hresult : run.result = .error error) : Transactional plan run := by
  refine ⟨slots, prepared.map (·, true) ++ failed.toList.map (·, false), started,
    prepared.reverse, ⟨?_, fun _ => hdepth, ?_, hstarted, fun h => ?_, ?_, ?_⟩⟩
  · simp [hcalls, Function.comp_def]
  · simpa [Function.comp_def] using htried
  · obtain ⟨rfl, rfl⟩ := hwhole h
    simp
  · simp [hresult]
  · simp [List.filter_map, Function.comp_def]

theorem startupOrder_depthFirst (h : startupOrder plan = .ok (primaryLayer, order)) :
    DepthFirstSlots plan (order.flatMap (slotsOf plan)) := by
  unfold startupOrder at h
  split at h
  · cases h
  split at h
  · cases h
  split at h
  · cases h
  simp only [bind_ok, Except.ok.injEq, Prod.mk.injEq] at h
  obtain ⟨order', horder, _, rfl⟩ := h
  exact ⟨order', lifecycleApplicationOrder_sound horder, rfl⟩

/-- The run whose hurdles are followed and whose layers are then started. -/
def conclude (finish : Progress → Run) : Except Run Progress → Run
  | .error run => run
  | .ok progress => finish progress

theorem started_transactional (hdepth : DepthFirstSlots plan slots)
    (hattempting : Attempting gates slots) (passed : ∀ gate ∈ gates, gate.passes)
    {finish : Progress → Run} (hcalls : ∀ progress, (finish progress).calls = progress.calls)
    (hresult : ∀ progress error, (finish progress).result ≠ .error error) :
    Transactional plan
      (conclude finish (startLayers (behind {} gates).prepared (behind {} gates))) := by
  have hslots : gates.filterMap Hurdle.attempt = slots := by
    have hwhole := attempts_passed passed []
    rw [List.append_nil, hattempting.whole passed] at hwhole
    simpa [attempts] using hwhole.symm
  have hlayers : (behind {} gates).prepared.map (·.slot) = slots := by
    simp [behind, gained_slots passed, hslots]
  rcases startLayers_cases (behind {} gates).prepared (behind {} gates) with
    hok | ⟨begun, error, hstarts, hfailed⟩
  · rw [hok, hlayers]
    refine ⟨slots, slots.map (·, true), slots, [], ⟨?_, fun _ => hdepth, ?_, List.prefix_refl _,
      fun _ => rfl, fun _ _ => rfl, fun error h => absurd h (hresult _ error)⟩⟩
    · simp [conclude, hcalls, behind, hslots, Function.comp_def]
    · simp [Function.comp_def]
  · rw [hfailed]
    rw [hlayers] at hstarts
    refine phases_rolledBack none begun hdepth (by simp) hstarts (fun _ => ⟨rfl, rfl⟩) ?_ rfl
    have hstops := rollBack_calls { behind {} gates with
      calls := (behind {} gates).calls ++ begun.map Call.start } error hlayers
    rw [conclude, hstops]
    simp [behind, hslots]

theorem failed_transactional (hdepth : DepthFirstSlots plan slots)
    (hattempting : Attempting (before ++ gate :: after) slots)
    (passed : ∀ gate ∈ before, Hurdle.passes gate) (failed : ¬ Hurdle.passes gate) :
    Transactional plan (rollBack
      { behind {} before with
        calls := (behind {} before).calls ++ gate.attempt.toList.map (Call.prepare · false) }
      error) := by
  have htried := hattempting.upTo
  rw [attempts_passed passed, attempts_stuck failed] at htried
  refine phases_rolledBack gate.attempt [] hdepth htried List.nil_prefix (fun h => absurd rfl h)
    ?_ rfl
  rw [rollBack_calls _ error (gained_slots passed)]
  simp [behind]

/-- Left without a rollback, a run is transactional only if it prepared nothing. -/
theorem bailed_transactional :
    Transactional plan (bail (behind {} before) error) ↔
      before.filterMap Hurdle.attempt = [] := by
  refine ⟨fun h => ?_, fun h => ?_⟩
  · have hreverse := h.reverses rfl
    simp only [bail, behind, List.nil_append, List.filterMap_map] at hreverse
    generalize before.filterMap Hurdle.attempt = prepared at hreverse ⊢
    simpa [Function.comp_def, Call.stopped, Call.prepared] using hreverse
  · have hcalls : (bail (behind {} before) error).calls = [] := by simp [bail, behind, h]
    exact ⟨[], [], [], [], hcalls, by simp, by simp, by simp, by simp, by simp, by simp⟩

theorem covered_iff (passed : ∀ gate ∈ before, Hurdle.passes gate)
    (failed : ¬ Hurdle.passes gate) :
    Covered (before ++ gate :: after) ↔
      (gate.unguarded → before.filterMap Hurdle.attempt = []) := by
  refine ⟨fun h => h before gate after rfl passed, fun h before' gate' after' hsplit passed' hgate' => ?_⟩
  obtain ⟨rfl, rfl⟩ :=
    first_failure_unique hsplit passed failed passed' (unguarded_fails hgate')
  exact h hgate'

theorem covered_passed (passed : ∀ gate ∈ gates, gate.passes) : Covered gates := by
  rintro before gate after rfl _ hunguarded
  exact absurd (passed gate (by simp)) (unguarded_fails hunguarded)

theorem followed_transactional (hdepth : DepthFirstSlots plan slots)
    (hattempting : Attempting gates slots)
    {finish : Progress → Run} (hcalls : ∀ progress, (finish progress).calls = progress.calls)
    (hresult : ∀ progress error, (finish progress).result ≠ .error error)
    (h : Followed gates {} ended) :
    Transactional plan
        (conclude finish (ended >>= fun progress => startLayers progress.prepared progress)) ↔
      Covered gates := by
  cases h with
  | cleared passed =>
    exact iff_of_true (started_transactional hdepth hattempting passed hcalls hresult)
      (covered_passed passed)
  | bailed split passed unguarded =>
    rw [split, covered_iff passed (unguarded_fails unguarded)]
    exact bailed_transactional.trans ⟨fun h _ => h, fun h => h unguarded⟩
  | undone split passed failed guarded =>
    rw [split] at hattempting
    rw [split, covered_iff passed failed]
    exact iff_of_true (failed_transactional hdepth hattempting passed failed)
      fun unguarded => absurd unguarded guarded

/-- A startup is transactional exactly when no check without a rollback is the
first to fail behind a prepared layer. -/
theorem startup_transactional (upstream : Upstream) (plan : ApplicationPlan)
    (registry : ProviderRegistry) (admittedGrants : List (Nat × EffectiveGrant)) :
    Transactional plan (prepareAndStartWithAdmittedGrants upstream plan registry admittedGrants) ↔
      Covered (startupHurdles upstream plan registry admittedGrants) := by
  cases horder : startupOrder plan with
  | error error =>
    have hrun : prepareAndStartWithAdmittedGrants upstream plan registry admittedGrants =
        bail (behind {} []) error := by
      simp only [prepareAndStartWithAdmittedGrants, horder, behind_nil]
    have hgates : startupHurdles upstream plan registry admittedGrants = [] := by
      simp only [startupHurdles, horder]
    rw [hrun, hgates]
    exact iff_of_true (bailed_transactional.mpr rfl) (covered_passed (by simp))
  | ok named =>
    obtain ⟨primaryLayer, order⟩ := named
    have hgates : startupHurdles upstream plan registry admittedGrants =
        hurdles upstream plan registry admittedGrants order 0 0 := by
      simp only [startupHurdles, horder]
    let finish : Progress → Run := fun progress =>
      { calls := progress.calls
        prepared := progress.prepared
        result := .ok ⟨plan.identity, primaryLayer, progress.prepared, progress.invocations⟩ }
    have hrun : prepareAndStartWithAdmittedGrants upstream plan registry admittedGrants =
        conclude finish (follow (hurdles upstream plan registry admittedGrants order 0 0) {} >>=
          fun progress => startLayers progress.prepared progress) := by
      simp only [prepareAndStartWithAdmittedGrants, horder, prepareApplications_follow]
      rfl
    rw [hgates, hrun]
    exact followed_transactional (startupOrder_depthFirst horder)
      (attempting_hurdles admittedGrants order 0 0) (fun _ => rfl)
      (fun _ _ h => by simp [finish] at h) (follow_followed _ {})

def rootfsProvider : LayerProvider where
  kind := .rootfsImage
  contract := none
  name := "rootfs"
  prepare _ context := .ok ⟨context.layer.position, .ok (), .ok ()⟩

/-- A rootfs primary and a tensor layer, under a grant for nothing. -/
def twoLayerPlan : ApplicationPlan where
  identity := ⟨"archive", "fingerprint", "app"⟩
  primaryLayer := some 0
  requiresKappa := "caps"
  requestedCapabilities := ⟨"caps", [], {}⟩
  layers :=
    [⟨0, .rootfsImage, "disk", "init", "x86_64", true, [], .embedded, "rootfs"⟩,
     ⟨1, .tensorPlan, "plan", "model", "", false, [], .embedded, "tensor"⟩]
  children := []
  objects := []
  manifest := ⟨some 0, "caps", [], []⟩

/-- With no provider for the second layer the first stays prepared. -/
theorem unprovided_layer_leaks :
    ¬ Transactional twoLayerPlan
      (prepareAndStartWithAdmittedGrants (Catalog.upstream {}) twoLayerPlan
        ⟨.direct, [rootfsProvider]⟩ [(0, ⟨"caps", [], {}, .localBaseline⟩)]) := by
  intro h
  have hcalls : (prepareAndStartWithAdmittedGrants (Catalog.upstream {}) twoLayerPlan
      ⟨.direct, [rootfsProvider]⟩ [(0, ⟨"caps", [], {}, .localBaseline⟩)]).calls =
      [.prepare ⟨0, 0⟩ true] := by decide
  have hreverse := h.reverses rfl
  rw [hcalls] at hreverse
  exact absurd hreverse (by decide)

end HologramLive.Lifecycle
