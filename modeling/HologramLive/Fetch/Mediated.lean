import HologramLive.Fetch.Runtime

/-! What the fetches keep to, however their steps and those of the workers fall. -/

namespace HologramLive.Fetch
open Lib Lib.Interleaving Lib.Permits
variable {Scope : Type}

def Stage.holdsPermit : Stage Scope → Bool
  | .entered => false
  | .acquiring _ _ => false
  | .ended _ => false
  | _ => true

/-- The transport has been called and has not answered. -/
def Stage.inTransport : Stage Scope → Bool
  | .connecting _ _ => true
  | .spawning _ => true
  | .waiting _ => true
  | _ => false

/-- The worker's permit is the caller's until the worker is spawned. -/
def Stage.holdsWorker : Stage Scope → Bool
  | .spawning _ => true
  | _ => false

def WorkerStage.holdsPermit : WorkerStage → Bool
  | .finished => false
  | _ => true

def Stage.endpoint? : Stage Scope → Option Scope
  | .acquiring endpoint _ => some endpoint
  | .permitted endpoint => some endpoint
  | .connecting endpoint _ => some endpoint
  | .spawning endpoint => some endpoint
  | _ => none

def Stage.exit? : Stage Scope → Option Exit
  | .leaving exit => some exit
  | .ended exit => some exit
  | _ => none

/-- A target that names an endpoint which some scope admits. -/
structure Admitted (own : NetworkEndpointScope Scope) (scopes : List Scope) (target : String)
    (endpoint : Scope) : Prop where
  short : target.utf8ByteSize ≤ fetchTargetMaxBytes
  parses : own.parse target = some endpoint
  inScope : ∃ scope ∈ scopes, own.admits scope endpoint = true

/-- A response that is returned is within the limit. -/
def Exit.Fits (exit : Exit) : Prop :=
  ∀ response, exit = .returned (.ok response) → response.body.length ≤ fetchResponseMaxBytes

def Calls (own : NetworkEndpointScope Scope) (call : Call Scope) : Prop :=
  ∃ endpoint, Admitted own call.scopes call.target endpoint ∧ call.passed = own.asStr endpoint

/-- What holds throughout, where the resolver's addresses are `resolvable`. -/
structure Sound (own : NetworkEndpointScope Scope) (concurrencyMax : Nat)
    (resolvable : IpAddr → Prop) (runtime : FetchRuntime Scope) : Prop where
  limit : runtime.concurrencyMax = concurrencyMax
  permits : runtime.inFlight = runtime.fetches.countP fun fetch => fetch.stage.holdsPermit
  within : runtime.inFlight ≤ concurrencyMax
  workerPermits : runtime.workersInUse =
    (runtime.fetches.countP fun fetch => fetch.stage.holdsWorker) +
      runtime.workers.countP fun worker => worker.stage.holdsPermit
  workersWithin : runtime.workersInUse ≤ fetchConcurrencyMax
  endpoints : ∀ fetch ∈ runtime.fetches, ∀ endpoint, fetch.stage.endpoint? = some endpoint →
    Admitted own fetch.scopes fetch.target endpoint
  calls : ∀ call ∈ runtime.called, Calls own call
  exits : ∀ fetch ∈ runtime.fetches, ∀ exit, fetch.stage.exit? = some exit → exit.Fits
  offers : ∀ worker ∈ runtime.workers, OffersWithin resolvable worker.offers
  requests : ∀ worker ∈ runtime.workers, ∀ program, worker.stage = .fetching program →
    Keeps resolvable program worker.offers

/-- All that a step of a fetch can do to the rest. -/
structure Moves (own : NetworkEndpointScope Scope) (runtime : FetchRuntime Scope)
    (fetch : Fetch Scope) (next : Stage Scope × FetchRuntime Scope) : Prop where
  limit : next.2.concurrencyMax = runtime.concurrencyMax
  fetches : next.2.fetches = runtime.fetches
  permits : next.2.inFlight + fetch.stage.holdsPermit.toNat =
    runtime.inFlight + next.1.holdsPermit.toNat
  within : next.2.inFlight ≤ max runtime.inFlight runtime.concurrencyMax
  workerPermits : next.2.workersInUse + fetch.stage.holdsWorker.toNat +
      (runtime.workers.countP fun worker => worker.stage.holdsPermit) =
    runtime.workersInUse + next.1.holdsWorker.toNat +
      next.2.workers.countP fun worker => worker.stage.holdsPermit
  workersWithin : next.2.workersInUse ≤ max runtime.workersInUse fetchConcurrencyMax
  endpoint : ∀ endpoint, next.1.endpoint? = some endpoint →
    fetch.stage.endpoint? = some endpoint ∨ Admitted own fetch.scopes fetch.target endpoint
  calls : next.2.called = runtime.called ∨ ∃ endpoint, fetch.stage.endpoint? = some endpoint ∧
    next.2.called = runtime.called ++ [⟨fetch.scopes, fetch.target, own.asStr endpoint⟩]
  exit : ∀ exit, next.1.exit? = some exit → fetch.stage.exit? = some exit ∨ exit.Fits
  workers : next.2.workers = runtime.workers ∨
    ∃ target, next.2.workers = runtime.workers ++ [⟨.fetching (httpsGet target), [], none⟩]

section Moves
variable {own : NetworkEndpointScope Scope} {runtime : FetchRuntime Scope} {fetch : Fetch Scope}

theorem Exit.refused_fits (error : String) : (Exit.refused error).Fits := by
  intro response h
  cases h

/-- A step that leaves the rest as it is. -/
theorem Moves.quiet {stage : Stage Scope}
    (hpermit : stage.holdsPermit = fetch.stage.holdsPermit)
    (hworker : stage.holdsWorker = fetch.stage.holdsWorker)
    (hendpoint : ∀ endpoint, stage.endpoint? = some endpoint →
      fetch.stage.endpoint? = some endpoint ∨ Admitted own fetch.scopes fetch.target endpoint)
    (hexit : ∀ exit, stage.exit? = some exit → exit.Fits) :
    Moves own runtime fetch (stage, runtime) where
  limit := rfl
  fetches := rfl
  permits := by rw [hpermit]
  within := Nat.le_max_left ..
  workerPermits := by rw [hworker]
  workersWithin := Nat.le_max_left ..
  endpoint := hendpoint
  calls := .inl rfl
  exit := fun exit h => .inr (hexit exit h)
  workers := .inl rfl

theorem moves_enter (hstage : fetch.stage = .entered) :
    Moves own runtime fetch (enter own fetch.scopes fetch.target, runtime) := by
  have hrefused : ∀ error, Moves own runtime fetch (.ended (.refused error), runtime) := by
    intro error
    refine .quiet (by rw [hstage]; rfl) (by rw [hstage]; rfl) nofun ?_
    intro exit hexit
    obtain rfl := Option.some.inj hexit
    exact Exit.refused_fits error
  unfold enter
  split
  · exact hrefused _
  · rename_i hshort
    split
    · exact hrefused _
    · rename_i endpoint hparses
      split
      · exact hrefused _
      · rename_i hinScope
        refine .quiet (by rw [hstage]; rfl) (by rw [hstage]; rfl) ?_ nofun
        intro endpoint' hendpoint
        obtain rfl := Option.some.inj hendpoint
        have hadmitted : admitted own fetch.scopes endpoint = true := by simpa using hinScope
        exact .inr ⟨Nat.le_of_not_lt hshort, hparses, List.any_eq_true.mp hadmitted⟩

theorem moves_acquire {chance : Bool} {endpoint : Scope} {taking : Taking}
    (hstage : fetch.stage = .acquiring endpoint taking) :
    Moves own runtime fetch (acquire runtime chance endpoint taking) := by
  unfold acquire
  split
  · rename_i going inFlight htake
    obtain rfl := take_unheld htake nofun
    exact .quiet (by rw [hstage]; rfl) (by rw [hstage]; rfl)
      (fun other hother => .inl (by rw [hstage]; exact hother)) nofun
  · rename_i inFlight htake
    obtain ⟨rfl, hmax⟩ := take_held htake
    exact {
      limit := rfl
      fetches := rfl
      permits := by rw [hstage]; rfl
      within := Nat.le_trans hmax (Nat.le_max_right ..)
      workerPermits := by rw [hstage]; rfl
      workersWithin := Nat.le_max_left ..
      endpoint := fun other hother => .inl (by rw [hstage]; exact hother)
      calls := .inl rfl
      exit := nofun
      workers := .inl rfl }
  · rename_i inFlight htake
    obtain rfl := take_unheld htake nofun
    refine .quiet (by rw [hstage]; rfl) (by rw [hstage]; rfl) nofun ?_
    intro exit hexit
    obtain rfl := Option.some.inj hexit
    exact Exit.refused_fits busy

theorem moves_acquireNetworkWorker {chance : Bool} {endpoint : Scope} {taking : Taking}
    (hstage : fetch.stage = .connecting endpoint taking) :
    Moves own runtime fetch (acquireNetworkWorker runtime chance endpoint taking) := by
  unfold acquireNetworkWorker
  split
  · rename_i going workersInUse htake
    obtain rfl := take_unheld htake nofun
    exact .quiet (by rw [hstage]; rfl) (by rw [hstage]; rfl)
      (fun other hother => .inl (by rw [hstage]; exact hother)) nofun
  · rename_i workersInUse htake
    obtain ⟨rfl, hmax⟩ := take_held htake
    exact {
      limit := rfl
      fetches := rfl
      permits := by rw [hstage]; rfl
      within := Nat.le_max_left ..
      workerPermits := by
        rw [hstage]
        simp only [Stage.holdsWorker, Bool.toNat_true, Bool.toNat_false]
      workersWithin := Nat.le_trans hmax (Nat.le_max_right ..)
      endpoint := fun other hother => .inl (by rw [hstage]; exact hother)
      calls := .inl rfl
      exit := nofun
      workers := .inl rfl }
  · rename_i workersInUse htake
    obtain rfl := take_unheld htake nofun
    exact .quiet (by rw [hstage]; rfl) (by rw [hstage]; rfl) nofun nofun

theorem moves_spawn {failed : Bool} {endpoint : Scope} (hstage : fetch.stage = .spawning endpoint)
    (hinUse : 0 < runtime.workersInUse) :
    Moves own runtime fetch (spawn own runtime failed endpoint) := by
  cases failed with
  | true =>
    exact {
      limit := rfl
      fetches := rfl
      permits := by rw [hstage]; rfl
      within := Nat.le_max_left ..
      workerPermits := by
        rw [hstage]
        simp only [spawn, Stage.holdsWorker, ↓reduceIte, Bool.toNat_true, Bool.toNat_false]
        omega
      workersWithin := Nat.le_trans (Nat.sub_le ..) (Nat.le_max_left ..)
      endpoint := nofun
      calls := .inl rfl
      exit := nofun
      workers := .inl rfl }
  | false =>
    exact {
      limit := rfl
      fetches := rfl
      permits := by rw [hstage]; rfl
      within := Nat.le_max_left ..
      workerPermits := by
        rw [hstage]
        simp only [spawn, Stage.holdsWorker, WorkerStage.holdsPermit, Bool.false_eq_true,
          ↓reduceIte, Bool.toNat_true, Bool.toNat_false, List.countP_append, List.countP_singleton]
        omega
      workersWithin := Nat.le_max_left ..
      endpoint := nofun
      calls := .inl rfl
      exit := nofun
      workers := .inr ⟨own.asStr endpoint, rfl⟩ }

theorem checkSize_fits (result : Except String FetchResponse) : (checkSize result).Fits := by
  cases result with
  | error error => exact Exit.refused_fits error
  | ok response =>
    simp only [checkSize]
    split
    · exact Exit.refused_fits tooLarge
    · rename_i hsize
      rintro other hother
      cases hother
      exact Nat.le_of_not_lt hsize

/-- What every step of a fetch does, under the counts of the permits. -/
theorem moves_proceed {chance : Bool} {next : Stage Scope × FetchRuntime Scope}
    (hinFlight : fetch.stage.holdsPermit.toNat ≤ runtime.inFlight)
    (hinUse : fetch.stage.holdsWorker.toNat ≤ runtime.workersInUse)
    (h : proceed own runtime chance fetch = some next) : Moves own runtime fetch next := by
  unfold proceed at h
  split at h
  · rename_i hstage
    obtain rfl := Option.some.inj h
    exact moves_enter hstage
  · rename_i endpoint taking hstage
    obtain rfl := Option.some.inj h
    exact moves_acquire hstage
  · rename_i endpoint hstage
    split at h
    · obtain rfl := Option.some.inj h
      refine .quiet (by rw [hstage]; rfl) (by rw [hstage]; rfl) nofun ?_
      intro exit hexit
      obtain rfl := Option.some.inj hexit
      exact Exit.refused_fits outsideScopes
    · obtain rfl := Option.some.inj h
      exact {
        limit := rfl
        fetches := rfl
        permits := by rw [hstage]; rfl
        within := Nat.le_max_left ..
        workerPermits := by rw [hstage]; rfl
        workersWithin := Nat.le_max_left ..
        endpoint := fun other hother => .inl (by rw [hstage]; exact hother)
        calls := .inr ⟨endpoint, by rw [hstage]; rfl, rfl⟩
        exit := nofun
        workers := .inl rfl }
  · rename_i endpoint taking hstage
    obtain rfl := Option.some.inj h
    exact moves_acquireNetworkWorker hstage
  · rename_i endpoint hstage
    obtain rfl := Option.some.inj h
    rw [hstage] at hinUse
    exact moves_spawn hstage hinUse
  · rename_i place hstage
    obtain ⟨worker, -, hreceive⟩ := Option.bind_eq_some_iff.mp h
    obtain ⟨result, -, rfl⟩ := Option.map_eq_some_iff.mp hreceive
    exact .quiet (by rw [hstage]; rfl) (by rw [hstage]; rfl) nofun nofun
  · rename_i result hstage
    obtain rfl := Option.some.inj h
    refine .quiet (by rw [hstage]; rfl) (by rw [hstage]; rfl) nofun ?_
    intro exit hexit
    obtain rfl := Option.some.inj hexit
    exact checkSize_fits result
  · rename_i exit hstage
    obtain rfl := Option.some.inj h
    rw [hstage] at hinFlight
    exact {
      limit := rfl
      fetches := rfl
      permits := by
        rw [hstage]
        exact Nat.sub_add_cancel hinFlight
      within := Nat.le_trans (Nat.sub_le ..) (Nat.le_max_left ..)
      workerPermits := by rw [hstage]; rfl
      workersWithin := Nat.le_max_left ..
      endpoint := nofun
      calls := .inl rfl
      exit := fun other hother => .inl (by rw [hstage]; exact hother)
      workers := .inl rfl }
  · cases h

theorem moves_unwind {next : Stage Scope × FetchRuntime Scope}
    (hinUse : fetch.stage.holdsWorker.toNat ≤ runtime.workersInUse)
    (h : unwind runtime fetch.stage = some next) : Moves own runtime fetch next := by
  have hfits : ∀ exit, some Exit.unwound = some exit → exit.Fits := by
    rintro exit hexit response hresponse
    obtain rfl := Option.some.inj hexit
    cases hresponse
  unfold unwind at h
  split at h
  case h_3 endpoint hstage =>
    obtain rfl := Option.some.inj h
    rw [hstage] at hinUse
    exact {
      limit := rfl
      fetches := rfl
      permits := by rw [hstage]; rfl
      within := Nat.le_max_left ..
      workerPermits := by
        rw [hstage]
        have := Nat.sub_add_cancel hinUse
        simp only [Stage.holdsWorker, Bool.toNat_true, Bool.toNat_false] at this ⊢
        omega
      workersWithin := Nat.le_trans (Nat.sub_le ..) (Nat.le_max_left ..)
      endpoint := nofun
      calls := .inl rfl
      exit := fun exit hexit => .inr (hfits exit hexit)
      workers := .inl rfl }
  case h_8 => cases h
  case h_9 => cases h
  all_goals
    rename_i hstage
    obtain rfl := Option.some.inj h
    exact .quiet (by rw [hstage]; rfl) (by rw [hstage]; rfl) nofun hfits

end Moves

section Sound
variable {own : NetworkEndpointScope Scope} {concurrencyMax : Nat} {resolvable : IpAddr → Prop}
  {runtime : FetchRuntime Scope}

theorem Sound.new : Sound own concurrencyMax resolvable (.new concurrencyMax) where
  limit := rfl
  permits := rfl
  within := Nat.zero_le _
  workerPermits := rfl
  workersWithin := Nat.zero_le _
  endpoints := nofun
  calls := nofun
  exits := nofun
  offers := nofun
  requests := nofun

/-- The counters are not below what one task holds. -/
theorem Sound.held (h : Sound own concurrencyMax resolvable runtime) {place : Nat}
    {fetch : Fetch Scope} (hplace : runtime.fetches[place]? = some fetch) :
    fetch.stage.holdsPermit.toNat ≤ runtime.inFlight ∧
      fetch.stage.holdsWorker.toNat ≤ runtime.workersInUse := by
  have hmem := List.mem_of_getElem? hplace
  constructor
  · cases hheld : fetch.stage.holdsPermit with
    | false => exact Nat.zero_le _
    | true =>
      rw [h.permits]
      exact List.countP_pos_iff.mpr ⟨fetch, hmem, hheld⟩
  · cases hheld : fetch.stage.holdsWorker with
    | false => exact Nat.zero_le _
    | true =>
      rw [h.workerPermits]
      exact Nat.le_trans (List.countP_pos_iff.mpr ⟨fetch, hmem, hheld⟩) (Nat.le_add_right ..)

theorem Sound.moved (h : Sound own concurrencyMax resolvable runtime) {place : Nat}
    {fetch : Fetch Scope} {next : Stage Scope × FetchRuntime Scope}
    (hplace : runtime.fetches[place]? = some fetch) (hmoves : Moves own runtime fetch next) :
    Sound own concurrencyMax resolvable (FetchRuntime.moved place fetch next) := by
  have hmem := List.mem_of_getElem? hplace
  have hfetch : ∀ other ∈ next.2.fetches.set place { fetch with stage := next.1 },
      other = { fetch with stage := next.1 } ∨ other ∈ runtime.fetches := by
    intro other hother
    rw [hmoves.fetches] at hother
    exact (List.mem_or_eq_of_mem_set hother).symm
  have hworker : ∀ worker ∈ next.2.workers, worker ∈ runtime.workers ∨
      ∃ target, worker = ⟨.fetching (httpsGet target), [], none⟩ := by
    intro worker hmem
    rcases hmoves.workers with hsame | ⟨target, hspawned⟩
    · exact .inl (hsame ▸ hmem)
    · rw [hspawned] at hmem
      rcases List.mem_append.mp hmem with hold | hnew
      · exact .inl hold
      · exact .inr ⟨target, List.mem_singleton.mp hnew⟩
  constructor
  case limit => exact hmoves.limit.trans h.limit
  case permits =>
    have hcount := countP_set (fun fetch => fetch.stage.holdsPermit)
      { fetch with stage := next.1 } hplace
    have hmoved := hmoves.permits
    rw [h.permits] at hmoved
    dsimp only at hcount
    simp only [FetchRuntime.moved, hmoves.fetches]
    omega
  case within =>
    refine Nat.le_trans hmoves.within (Nat.max_le.mpr ⟨h.within, ?_⟩)
    rw [h.limit]
  case workerPermits =>
    have hcount := countP_set (fun fetch => fetch.stage.holdsWorker)
      { fetch with stage := next.1 } hplace
    have hmoved := hmoves.workerPermits
    rw [h.workerPermits] at hmoved
    dsimp only at hcount
    simp only [FetchRuntime.moved, hmoves.fetches]
    omega
  case workersWithin =>
    exact Nat.le_trans hmoves.workersWithin (Nat.max_le.mpr ⟨h.workersWithin, Nat.le_refl _⟩)
  case endpoints =>
    intro other hother endpoint hendpoint
    rcases hfetch other hother with rfl | hold
    · rcases hmoves.endpoint endpoint hendpoint with hsame | hadmitted
      · exact h.endpoints fetch hmem endpoint hsame
      · exact hadmitted
    · exact h.endpoints other hold endpoint hendpoint
  case calls =>
    intro call hcall
    rcases hmoves.calls with hsame | ⟨endpoint, hendpoint, hcalled⟩
    · exact h.calls call (hsame ▸ hcall)
    · rw [show (FetchRuntime.moved place fetch next).called = next.2.called from rfl, hcalled]
        at hcall
      rcases List.mem_append.mp hcall with hold | hnew
      · exact h.calls call hold
      · obtain rfl := List.mem_singleton.mp hnew
        exact ⟨endpoint, h.endpoints fetch hmem endpoint hendpoint, rfl⟩
  case exits =>
    intro other hother exit hexit
    rcases hfetch other hother with rfl | hold
    · rcases hmoves.exit exit hexit with hsame | hfits
      · exact h.exits fetch hmem exit hsame
      · exact hfits
    · exact h.exits other hold exit hexit
  case offers =>
    intro worker hmem
    rcases hworker worker hmem with hold | ⟨target, rfl⟩
    · exact h.offers worker hold
    · exact nofun
  case requests =>
    intro worker hmem program hprogram
    rcases hworker worker hmem with hold | ⟨target, rfl⟩
    · exact h.requests worker hold program hprogram
    · cases hprogram
      exact httpsGet_keeps target nofun

/-- A step of a worker, under what holds of it before. -/
structure Works (resolvable : IpAddr → Prop) (worker next : Worker) : Prop where
  offers : OffersWithin resolvable next.offers
  requests : ∀ program, next.stage = .fetching program → Keeps resolvable program next.offers

theorem Sound.worked (h : Sound own concurrencyMax resolvable runtime) {place workersInUse : Nat}
    {worker next : Worker} (hplace : runtime.workers[place]? = some worker)
    (hworks : Works resolvable worker next)
    (hpermit : workersInUse + worker.stage.holdsPermit.toNat =
      runtime.workersInUse + next.stage.holdsPermit.toNat)
    (hwithin : workersInUse ≤ runtime.workersInUse) :
    Sound own concurrencyMax resolvable
      { runtime with workersInUse, workers := runtime.workers.set place next } := by
  have hworker : ∀ other ∈ runtime.workers.set place next,
      other = next ∨ other ∈ runtime.workers := fun other hother =>
    (List.mem_or_eq_of_mem_set hother).symm
  exact {
    limit := h.limit
    permits := h.permits
    within := h.within
    workerPermits := by
      have hcount := countP_set (fun worker => worker.stage.holdsPermit) next hplace
      rw [h.workerPermits] at hpermit
      simp only
      omega
    workersWithin := Nat.le_trans hwithin h.workersWithin
    endpoints := h.endpoints
    calls := h.calls
    exits := h.exits
    offers := by
      intro other hother
      rcases hworker other hother with rfl | hold
      · exact hworks.offers
      · exact h.offers other hold
    requests := by
      intro other hother
      rcases hworker other hother with rfl | hold
      · exact hworks.requests
      · exact h.requests other hold }

theorem Sound.crashed (h : Sound own concurrencyMax resolvable runtime) {place : Nat}
    {worker next : Worker} (hplace : runtime.workers[place]? = some worker)
    (hcrash : crash worker = some next) :
    Sound own concurrencyMax resolvable
      { runtime with workers := runtime.workers.set place next } := by
  unfold crash at hcrash
  split at hcrash
  · rename_i program hstage
    obtain rfl := Option.some.inj hcrash
    exact h.worked hplace ⟨h.offers worker (List.mem_of_getElem? hplace), nofun⟩
      (by rw [hstage]; rfl) (Nat.le_refl _)
  · cases hcrash

theorem Sound.worked_on (h : Sound own concurrencyMax resolvable runtime) {place : Nat}
    {worker : Worker} {answers : Answers} {next : Worker × Nat}
    (hplace : runtime.workers[place]? = some worker) (hanswers : ResolvesWithin resolvable answers)
    (hwork : work runtime answers worker = some next) :
    Sound own concurrencyMax resolvable
      { runtime with workersInUse := next.2, workers := runtime.workers.set place next.1 } := by
  have hmem := List.mem_of_getElem? hplace
  have hoffers := h.offers worker hmem
  unfold work at hwork
  split at hwork
  · rename_i program hstage
    have hkeeps := h.requests worker hmem program hstage
    split at hwork
    · obtain rfl := Option.some.inj hwork
      exact h.worked hplace ⟨hoffers, nofun⟩ (by rw [hstage]; rfl) (Nat.le_refl _)
    · obtain rfl := Option.some.inj hwork
      have hafter : Keeps resolvable (Program.advance serve [answers] program worker.offers).1
          (Program.advance serve [answers] program worker.offers).2 :=
        Program.Ensures.advance hkeeps (by simpa using hanswers)
      refine h.worked hplace ⟨hafter.now, ?_⟩ (by rw [hstage]; rfl) (Nat.le_refl _)
      intro program' hprogram
      cases hprogram
      exact hafter
  · rename_i result hstage
    obtain rfl := Option.some.inj hwork
    exact h.worked hplace ⟨hoffers, nofun⟩ (by rw [hstage]; rfl) (Nat.le_refl _)
  · rename_i hstage
    obtain rfl := Option.some.inj hwork
    have hpos : 0 < runtime.workersInUse := by
      rw [h.workerPermits]
      refine Nat.lt_of_lt_of_le (List.countP_pos_iff.mpr ⟨worker, hmem, ?_⟩) (Nat.le_add_left ..)
      rw [hstage]
      rfl
    refine h.worked hplace ⟨hoffers, nofun⟩ ?_ (Nat.sub_le ..)
    rw [hstage]
    exact Nat.sub_add_cancel hpos
  · cases hwork

theorem Sound.enter (h : Sound own concurrencyMax resolvable runtime) (scopes : List Scope)
    (target : String) : Sound own concurrencyMax resolvable
      { runtime with fetches := runtime.fetches ++ [⟨scopes, target, .entered⟩] } where
  limit := h.limit
  permits := by
    rw [List.countP_append]
    exact h.permits
  within := h.within
  workerPermits := by
    rw [List.countP_append]
    exact h.workerPermits
  workersWithin := h.workersWithin
  endpoints := by
    intro fetch hfetch
    rcases List.mem_append.mp hfetch with hold | hnew
    · exact h.endpoints fetch hold
    · obtain rfl := List.mem_singleton.mp hnew
      exact nofun
  calls := h.calls
  exits := by
    intro fetch hfetch
    rcases List.mem_append.mp hfetch with hold | hnew
    · exact h.exits fetch hold
    · obtain rfl := List.mem_singleton.mp hnew
      exact nofun
  offers := h.offers
  requests := h.requests

/-- The answers that an action brings name only such addresses. -/
def Action.ResolvesWithin (resolvable : IpAddr → Prop) : Action Scope → Prop
  | .work _ answers => Fetch.ResolvesWithin resolvable answers
  | _ => True

theorem Sound.step {action : Action Scope} {next : FetchRuntime Scope}
    (h : Sound own concurrencyMax resolvable runtime) (hanswers : action.ResolvesWithin resolvable)
    (hstep : step own runtime action = some next) : Sound own concurrencyMax resolvable next := by
  cases action with
  | enter scopes target =>
    obtain rfl := Option.some.inj hstep
    exact h.enter scopes target
  | proceed place chance =>
    obtain ⟨fetch, hplace, hmove⟩ := Option.bind_eq_some_iff.mp hstep
    obtain ⟨moved, hproceed, rfl⟩ := Option.map_eq_some_iff.mp hmove
    obtain ⟨hinFlight, hinUse⟩ := h.held hplace
    exact h.moved hplace (moves_proceed hinFlight hinUse hproceed)
  | unwind place =>
    obtain ⟨fetch, hplace, hmove⟩ := Option.bind_eq_some_iff.mp hstep
    obtain ⟨moved, hunwind, rfl⟩ := Option.map_eq_some_iff.mp hmove
    exact h.moved hplace (moves_unwind (h.held hplace).2 hunwind)
  | work place answers =>
    obtain ⟨worker, hplace, hmove⟩ := Option.bind_eq_some_iff.mp hstep
    obtain ⟨worked, hwork, rfl⟩ := Option.map_eq_some_iff.mp hmove
    exact h.worked_on hplace hanswers hwork
  | crash place =>
    obtain ⟨worker, hplace, hmove⟩ := Option.bind_eq_some_iff.mp hstep
    obtain ⟨crashed, hcrash, rfl⟩ := Option.map_eq_some_iff.mp hmove
    exact h.crashed hplace hcrash

/-- Whatever the order of the steps, where the resolver's addresses are `resolvable`. -/
theorem sound_of_reaches (h : Reaches (step own)
    (fun _ action => action.ResolvesWithin resolvable) (.new concurrencyMax) runtime) :
    Sound own concurrencyMax resolvable runtime :=
  h.invariant .new fun _ _ _ hsound hanswers hstep => hsound.step hanswers hstep

end Sound

/-- What is asked of fetches that the host mediates. A permit is back when its fetch has ended
and its worker has finished, since the counters are the numbers of those that have not. -/
structure Mediated (own : NetworkEndpointScope Scope) (concurrencyMax : Nat)
    (runtime : FetchRuntime Scope) : Prop where
  admitted : ∀ call ∈ runtime.called, Calls own call
  ordinary : ∀ worker ∈ runtime.workers, ∀ offer ∈ worker.offers, ∀ address ∈ offer.addresses,
    ¬ Special address.ip
  bounded : (runtime.fetches.countP fun fetch => fetch.stage.inTransport) ≤ concurrencyMax
  permits : runtime.inFlight = runtime.fetches.countP fun fetch => fetch.stage.holdsPermit
  workerPermits : runtime.workersInUse =
    (runtime.fetches.countP fun fetch => fetch.stage.holdsWorker) +
      runtime.workers.countP fun worker => worker.stage.holdsPermit
  returned : (∀ fetch ∈ runtime.fetches, ∃ exit, fetch.stage = .ended exit) →
    runtime.inFlight = 0 ∧
      ((∀ worker ∈ runtime.workers, worker.stage = .finished) → runtime.workersInUse = 0)
  sizes : ∀ fetch ∈ runtime.fetches, ∀ response,
    fetch.stage = .ended (.returned (.ok response)) →
      response.body.length ≤ fetchResponseMaxBytes

theorem Stage.holdsPermit_of_inTransport (stage : Stage Scope) (h : stage.inTransport = true) :
    stage.holdsPermit = true := by
  cases stage with
  | connecting endpoint taking => rfl
  | spawning endpoint => rfl
  | waiting worker => rfl
  | _ => cases h

/-- Fetches are mediated in every run whose resolver names no address of the block that the check
does not know. -/
theorem fetch_mediated (own : NetworkEndpointScope Scope) (concurrencyMax : Nat)
    {runtime : FetchRuntime Scope} (h : Reaches (step own)
      (fun _ action => action.ResolvesWithin (¬ InNewDocumentation ·))
      (.new concurrencyMax) runtime) : Mediated own concurrencyMax runtime := by
  have hsound := sound_of_reaches h
  constructor
  case admitted => exact hsound.calls
  case ordinary =>
    intro worker hworker offer hoffer address haddress hspecial
    obtain ⟨hpublic, hold⟩ := hsound.offers worker hworker offer hoffer address haddress
    exact hold ((special_iff_new hpublic).mp hspecial)
  case bounded =>
    refine Nat.le_trans (List.countP_mono_left ?_) (hsound.permits ▸ hsound.within)
    exact fun fetch _ => fetch.stage.holdsPermit_of_inTransport
  case permits => exact hsound.permits
  case workerPermits => exact hsound.workerPermits
  case returned =>
    intro hended
    have hnone : ∀ {holds : Stage Scope → Bool}, (∀ exit, holds (.ended exit) = false) →
        (runtime.fetches.countP fun fetch => holds fetch.stage) = 0 := by
      intro holds hexits
      refine List.countP_eq_zero.mpr fun fetch hfetch => ?_
      obtain ⟨exit, hexit⟩ := hended fetch hfetch
      rw [hexit, hexits]
      exact Bool.false_ne_true
    refine ⟨hsound.permits.trans (hnone fun _ => rfl), fun hfinished => ?_⟩
    rw [hsound.workerPermits, hnone fun _ => rfl, Nat.zero_add]
    refine List.countP_eq_zero.mpr fun worker hworker => ?_
    rw [hfinished worker hworker]
    exact Bool.false_ne_true
  case sizes =>
    intro fetch hfetch response hended
    exact hsound.exits fetch hfetch (.returned (.ok response)) (by rw [hended]; rfl) response rfl

section Sample

/-- Scopes that are their own texts, and admit themselves alone. -/
def exactScopes : NetworkEndpointScope String := ⟨some, (· == ·), id⟩

def documented : IpAddr := .v6 ⟨0x3fff, 0, 0, 0, 0, 0, 0, 1⟩

/-- One fetch whose host resolves to the address, up to the client's being built for it. -/
def fetchOf (address : IpAddr) : List (Action String) :=
  let target := "https://docs.example:443/"
  let answers : Answers := ⟨some [⟨address, 443⟩], true, none, none⟩
  Action.enter [target] target :: List.replicate 7 (Action.proceed 0 false) ++
    List.replicate 2 (Action.work 0 answers)

def offered (runtime : FetchRuntime String) : List IpAddr :=
  runtime.workers.flatMap fun worker => worker.offers.flatMap fun offer => offer.addresses.map (·.ip)

theorem mem_offered {runtime : FetchRuntime String} {address : IpAddr}
    (h : address ∈ offered runtime) : ∃ worker ∈ runtime.workers, ∃ offer ∈ worker.offers,
      ∃ offered ∈ offer.addresses, offered.ip = address := by
  obtain ⟨worker, hworker, hin⟩ := List.mem_flatMap.mp h
  obtain ⟨offer, hoffer, haddress⟩ := List.mem_flatMap.mp hin
  exact ⟨worker, hworker, offer, hoffer, List.mem_map.mp haddress⟩

/-- An answer of the resolver from the block that the check does not know is offered. -/
theorem fetch_documented : ¬ ∀ runtime, Reaches (step exactScopes) (fun _ _ => True) (.new 8) runtime →
    Mediated exactScopes 8 runtime := by
  intro hclaim
  have hoffered : (run (step exactScopes) (fetchOf documented) (.new 8)).map offered =
      some [documented] := by decide
  obtain ⟨runtime, hrun, haddresses⟩ := Option.map_eq_some_iff.mp hoffered
  have hmediated := hclaim runtime (Reaches.start.run hrun)
  obtain ⟨worker, hworker, offer, hoffer, address, haddress, hip⟩ :=
    mem_offered (haddresses ▸ List.mem_singleton_self documented)
  refine hmediated.ordinary worker hworker offer hoffer address haddress ?_
  rw [hip]
  refine (special_iff_new ?_).mpr ?_
  · decide
  · simp only [InNewDocumentation, documented]
    decide

def ordinary : IpAddr := .v4 ⟨1, 1, 1, 1⟩

/-- No address of the newer kind is named. -/
def namesOlder (_ : FetchRuntime String) : Action String → Bool
  | .work _ answers => (answers.resolved.getD []).all fun address => (address.ip matches .v4 _)
  | _ => true

theorem fetch_mediated_ordinary : ∃ runtime, offered runtime = [ordinary] ∧
    Mediated exactScopes 8 runtime := by
  have hoffered : (checked (step exactScopes) namesOlder (fetchOf ordinary) (.new 8)).map offered =
      some [ordinary] := by decide
  obtain ⟨runtime, hrun, haddresses⟩ := Option.map_eq_some_iff.mp hoffered
  refine ⟨runtime, haddresses, fetch_mediated exactScopes 8 (Reaches.start.checked ?_ hrun)⟩
  intro state action hnames
  cases action with
  | work place answers =>
    intro addresses hresolved address haddress
    rw [namesOlder, hresolved] at hnames
    have hold := List.all_eq_true.mp hnames address haddress
    cases hip : address.ip with
    | v4 _ => exact id
    | v6 _ =>
      simp [hip] at hold
  | _ => trivial

end Sample

end HologramLive.Fetch
