import HologramLive.Fetch.Transport
import HologramLive.Lib.Interleaving
import HologramLive.Lib.Permits

/-! Fetches that run side by side, and the workers that make the requests. -/

namespace HologramLive.Fetch
open Lib Lib.Interleaving Lib.Permits
variable {Scope : Type}

/-- What the fetches use of the scopes, which are endpoints themselves. -/
structure NetworkEndpointScope (Scope : Type) where
  parse : String → Option Scope
  admits : Scope → Scope → Bool
  asStr : Scope → String

inductive Exit where
  | returned (result : Except String FetchResponse)
  | unwound

/-- How far a fetch has come. Between `permitted` and `leaving` it is at the last check, takes a
worker's permit, spawns the worker, waits for it, and has the transport's answer. -/
inductive Stage (Scope : Type) where
  | entered
  | acquiring (endpoint : Scope) (taking : Taking)
  | permitted (endpoint : Scope)
  | connecting (endpoint : Scope) (taking : Taking)
  | spawning (endpoint : Scope)
  | waiting (worker : Nat)
  | answered (result : Except String FetchResponse)
  | leaving (exit : Exit)
  | ended (exit : Exit)

structure Fetch (Scope : Type) where
  scopes : List Scope
  target : String
  stage : Stage Scope

inductive WorkerStage where
  | fetching (program : Program NetCall String FetchResponse)
  | reporting (result : Except String FetchResponse)
  | finishing
  | finished

/-- A worker thread, what it has offered to its client, and what it has sent. -/
structure Worker where
  stage : WorkerStage
  offers : List Offer
  sent : Option (Except String FetchResponse)

/-- A call of the transport, by a fetch of some target under some scopes. -/
structure Call (Scope : Type) where
  scopes : List Scope
  target : String
  passed : String

structure FetchRuntime (Scope : Type) where
  concurrencyMax : Nat
  inFlight : Nat
  workersInUse : Nat
  fetches : List (Fetch Scope)
  workers : List Worker
  called : List (Call Scope)

def FetchRuntime.new (concurrencyMax : Nat) : FetchRuntime Scope where
  concurrencyMax := concurrencyMax
  inFlight := 0
  workersInUse := 0
  fetches := []
  workers := []
  called := []

def Exit.refused (error : String) : Exit := .returned (.error error)

def outsideScopes : String := "fetch target is outside the application's admitted endpoint set"

def busy : String := "fetch concurrency limit reached; retry later"

def tooLarge : String := "fetch response exceeds the host limit"

def WorkerStage.closed : WorkerStage → Bool
  | .finishing => true
  | .finished => true
  | _ => false

section Step
variable (own : NetworkEndpointScope Scope) (runtime : FetchRuntime Scope)

def admitted (scopes : List Scope) (endpoint : Scope) : Bool :=
  scopes.any fun scope => own.admits scope endpoint

def enter (scopes : List Scope) (target : String) : Stage Scope :=
  if fetchTargetMaxBytes < target.utf8ByteSize then
    .ended (.refused "fetch target exceeds the host limit")
  else match own.parse target with
    | none => .ended (.refused notCanonical)
    | some endpoint =>
      if !admitted own scopes endpoint then .ended (.refused outsideScopes)
      else .acquiring endpoint .reading

def acquire (chance : Bool) (endpoint : Scope) (taking : Taking) :
    Stage Scope × FetchRuntime Scope :=
  match take runtime.concurrencyMax chance runtime.inFlight taking with
  | (.going taking, inFlight) => (.acquiring endpoint taking, { runtime with inFlight })
  | (.held, inFlight) => (.permitted endpoint, { runtime with inFlight })
  | (.refused, inFlight) => (.ended (.refused busy), { runtime with inFlight })

def acquireNetworkWorker (chance : Bool) (endpoint : Scope) (taking : Taking) :
    Stage Scope × FetchRuntime Scope :=
  match take fetchConcurrencyMax chance runtime.workersInUse taking with
  | (.going taking, workersInUse) => (.connecting endpoint taking, { runtime with workersInUse })
  | (.held, workersInUse) => (.spawning endpoint, { runtime with workersInUse })
  | (.refused, workersInUse) => (.answered (.error busy), { runtime with workersInUse })

/-- A thread that cannot be spawned drops the permit that was to be its own. -/
def spawn (failed : Bool) (endpoint : Scope) : Stage Scope × FetchRuntime Scope :=
  if failed then
    (.answered (.error "fetch transport initialization failed"),
      { runtime with workersInUse := runtime.workersInUse - 1 })
  else
    (.waiting runtime.workers.length, { runtime with workers :=
      runtime.workers ++ [⟨.fetching (httpsGet (own.asStr endpoint)), [], none⟩] })

/-- A worker's answer, or what the caller makes of a deadline or of a closed channel. -/
def receive (timeout : Bool) (worker : Worker) : Option (Except String FetchResponse) :=
  match worker.sent with
  | some result => some result
  | none =>
    if timeout then some (.error "fetch request exceeded the host deadline")
    else if worker.stage.closed then some (.error "fetch request failed")
    else none

def checkSize : Except String FetchResponse → Exit
  | .ok response =>
    if fetchResponseMaxBytes < response.body.length then .refused tooLarge
    else .returned (.ok response)
  | .error error => .refused error

/-- The next step of a fetch. `chance` decides what the machine may do either way. -/
def proceed (chance : Bool) (fetch : Fetch Scope) : Option (Stage Scope × FetchRuntime Scope) :=
  match fetch.stage with
  | .entered => some (enter own fetch.scopes fetch.target, runtime)
  | .acquiring endpoint taking => some (acquire runtime chance endpoint taking)
  | .permitted endpoint =>
    if !admitted own fetch.scopes endpoint then some (.leaving (.refused outsideScopes), runtime)
    else some (.connecting endpoint .reading, { runtime with called :=
      runtime.called ++ [⟨fetch.scopes, fetch.target, own.asStr endpoint⟩] })
  | .connecting endpoint taking => some (acquireNetworkWorker runtime chance endpoint taking)
  | .spawning endpoint => some (spawn own runtime chance endpoint)
  | .waiting place => runtime.workers[place]?.bind fun worker =>
    (receive chance worker).map fun result => (.answered result, runtime)
  | .answered result => some (.leaving (checkSize result), runtime)
  | .leaving exit => some (.ended exit, { runtime with inFlight := runtime.inFlight - 1 })
  | .ended _ => none

/-- A panic drops the permits that the fetch has at that point. -/
def unwind (stage : Stage Scope) : Option (Stage Scope × FetchRuntime Scope) :=
  match stage with
  | .entered => some (.ended .unwound, runtime)
  | .acquiring _ _ => some (.ended .unwound, runtime)
  | .spawning _ =>
    some (.leaving .unwound, { runtime with workersInUse := runtime.workersInUse - 1 })
  | .permitted _ => some (.leaving .unwound, runtime)
  | .connecting _ _ => some (.leaving .unwound, runtime)
  | .waiting _ => some (.leaving .unwound, runtime)
  | .answered _ => some (.leaving .unwound, runtime)
  | .leaving _ => none
  | .ended _ => none

/-- The next step of a worker, and the number of workers that are in use after it. -/
def work (answers : Answers) (worker : Worker) : Option (Worker × Nat) :=
  match worker.stage with
  | .fetching program => match program.outcome with
    | some result => some ({ worker with stage := .reporting result }, runtime.workersInUse)
    | none =>
      let (program, offers) := Program.advance serve [answers] program worker.offers
      some ({ worker with stage := .fetching program, offers }, runtime.workersInUse)
  | .reporting result =>
    some ({ worker with stage := .finishing, sent := some result }, runtime.workersInUse)
  | .finishing => some ({ worker with stage := .finished }, runtime.workersInUse - 1)
  | .finished => none

/-- A panic in the request closes the channel before anything is sent. -/
def crash (worker : Worker) : Option Worker :=
  match worker.stage with
  | .fetching _ => some { worker with stage := .finishing }
  | _ => none

inductive Action (Scope : Type) where
  | enter (scopes : List Scope) (target : String)
  | proceed (fetch : Nat) (chance : Bool)
  | unwind (fetch : Nat)
  | work (worker : Nat) (answers : Answers)
  | crash (worker : Nat)

def FetchRuntime.moved (place : Nat) (fetch : Fetch Scope)
    (next : Stage Scope × FetchRuntime Scope) : FetchRuntime Scope :=
  { next.2 with fetches := next.2.fetches.set place { fetch with stage := next.1 } }

def step (runtime : FetchRuntime Scope) : Action Scope → Option (FetchRuntime Scope)
  | .enter scopes target =>
    some { runtime with fetches := runtime.fetches ++ [⟨scopes, target, .entered⟩] }
  | .proceed place chance => runtime.fetches[place]?.bind fun fetch =>
    (proceed own runtime chance fetch).map (FetchRuntime.moved place fetch)
  | .unwind place => runtime.fetches[place]?.bind fun fetch =>
    (unwind runtime fetch.stage).map (FetchRuntime.moved place fetch)
  | .work place answers => runtime.workers[place]?.bind fun worker =>
    (work runtime answers worker).map fun (worker, workersInUse) =>
      { runtime with workersInUse, workers := runtime.workers.set place worker }
  | .crash place => runtime.workers[place]?.bind fun worker =>
    (crash worker).map fun worker =>
      { runtime with workers := runtime.workers.set place worker }

end Step

end HologramLive.Fetch
