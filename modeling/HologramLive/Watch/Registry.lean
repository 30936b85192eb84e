import HologramLive.Lib.Interleaving
import HologramLive.Lib.Table

/-! The registry of watched application projects, with the turns its calls take on the
records in memory and on the file they are persisted in. -/

namespace HologramLive.Watch
open Lib

def manifestName : String := "hologram.json"

structure WatchedHoloProject where
  id : String
  name : String
  directory : String
  manifest : String
  status : String
  archiveKappa : Option String := none
  archiveName : Option String := none
  lastCompiledAtMillis : Option Nat := none
  error : Option String := none
  deriving DecidableEq

namespace WatchedHoloProject

def compiling (record : WatchedHoloProject) : WatchedHoloProject :=
  { record with status := "compiling", error := none }

def ready (archiveKappa archiveName : String) (millis : Nat) (record : WatchedHoloProject) :
    WatchedHoloProject :=
  { record with
    status := "ready", archiveKappa := some archiveKappa, archiveName := some archiveName,
    lastCompiledAtMillis := some millis, error := none }

def failed (error : String) (record : WatchedHoloProject) : WatchedHoloProject :=
  { record with status := "failed", error := some error }

end WatchedHoloProject

def join (directory name : String) : String :=
  if directory.toList.getLast? = some '/' then directory ++ name else directory ++ "/" ++ name

/-- The last component of a canonical directory. -/
def projectName (directory : String) : String :=
  match (directory.toList.reverse.takeWhile (· ≠ '/')).reverse with
  | [] => "Hologram application"
  | name => String.ofList name

/-- What the file system shows of a directory when it is opened. -/
inductive Sight where
  | missing (error : String)
  | found (canonical : String) (isDirectory hasManifest : Bool)

/-- The checks on a directory before it is watched, down to its canonical path. -/
def openDirectory (directory : String) : Sight → Except String String
  | .missing error => .error s!"open watched directory {directory}: {error}"
  | .found canonical isDirectory hasManifest =>
    if !isDirectory then .error s!"{canonical} is not a directory"
    else if !hasManifest then .error s!"{canonical} does not contain {manifestName}"
    else .ok canonical

/-- The record of a registered directory, over what was saved of it. -/
def registered (id directory : String) (previous : Option WatchedHoloProject) :
    WatchedHoloProject :=
  let fresh : WatchedHoloProject :=
    { id, name := projectName directory, directory, manifest := join directory manifestName,
      status := "watching" }
  { previous.getD fresh with
    id, name := projectName directory, directory, manifest := join directory manifestName,
    status := "watching", error := none }

/-- The persistence file. -/
inductive Saved where
  | absent
  | unparsable (error : String)
  | records (records : List WatchedHoloProject)

def Saved.ids : Saved → List String
  | .records saved => saved.map (·.id)
  | _ => []

/-- Who a registration answers to: an `add`, or a `restore` with the records it has still
to replay and the failures so far. -/
inductive Origin where
  | add
  | restore (rest : List WatchedHoloProject) (failures : List String)

/-- What a call does once its persist is over. -/
inductive After where
  | start (record : WatchedHoloProject) (origin : Origin)
  | fail (error : String) (origin : Origin)
  | removed (id : String)
  | built

/-- Where a persist is: before it has the lock, with the lock, and with the records it
is about to write. -/
inductive Stage where
  | waiting
  | locked
  | listed (records : List WatchedHoloProject)

/-- A call, by what it does next or came to. -/
inductive Call where
  | loading
  | opening (directory : String) (previous : Option WatchedHoloProject) (origin : Origin)
  | inserting (record : WatchedHoloProject) (origin : Origin)
  | persisting (stage : Stage) (after : After)
  | rollingBack (id error : String) (origin : Origin)
  | starting (record : WatchedHoloProject) (origin : Origin)
  | dropping (id error : String) (origin : Origin)
  | removing (id : String)
  | building (id : String)
  | compiling (id : String)
  | failing (id error : String)
  | added (result : Except String WatchedHoloProject)
  | restored (failures : List String)
  | gone (result : Except String Unit)
  | idle

namespace Call

/-- The turn after a registration. A `restore` goes on to its next record, which counts as
watched again. -/
def answer (result : Except String WatchedHoloProject) : Origin → Call
  | .add => .added result
  | .restore rest failures =>
    let failures := match result with
      | .ok _ => failures
      | .error error => failures ++ [error]
    match rest with
    | [] => .restored failures
    | record :: rest =>
      .opening record.directory (some { record with status := "watching", error := none })
        (.restore rest failures)

/-- The turn after a persist. -/
def settle (result : Except String Unit) : After → Call
  | .start record origin =>
    match result with
    | .ok () => .starting record origin
    | .error error => .rollingBack record.id error origin
  | .fail error origin => answer (.error error) origin
  | .removed _ => .gone result
  | .built => .idle

def inProgress : Call → Bool
  | .added _ | .restored _ | .gone _ | .idle => false
  | _ => true

def holdsLock : Call → Bool
  | .persisting .locked _ | .persisting (.listed _) _ => true
  | _ => false

/-- The project a `remove` has taken out and not yet persisted without. -/
def leaving : Call → Option String
  | .persisting _ (.removed id) => some id
  | _ => none

end Call

/-- What decides a turn from outside: the file system, the watcher, the build. -/
inductive Outcome where
  | granted
  | refused (error : String)
  | sight (sight : Sight)
  | built (archiveKappa archiveName : String) (millis : Nat)

/-- The records in memory, the file, and for reference how the last persist of this process
ended and which projects were persisted and not removed by a call that went through. -/
structure Shared where
  file : Saved
  watches : List (String × WatchedHoloProject) := []
  lastPersist : Option Bool := none
  persisted : List String

namespace Shared

def list (shared : Shared) : List WatchedHoloProject :=
  (Table.listing shared.watches).map Prod.snd

def updateRecord (shared : Shared) (id : String)
    (update : WatchedHoloProject → WatchedHoloProject) : Shared :=
  { shared with
    watches := shared.watches.map fun entry =>
      if entry.1 = id then (entry.1, update entry.2) else entry }

/-- A persist that is refused. -/
def refuse (shared : Shared) : Shared := { shared with lastPersist := some false }

/-- A persist that replaces the file. Only then is a removal through. -/
def replace (shared : Shared) (records : List WatchedHoloProject) (after : After) : Shared :=
  { shared with
    file := .records records
    lastPersist := some true
    persisted := records.map (·.id) ++ match after with
      | .removed id => shared.persisted.filter (· ≠ id)
      | _ => shared.persisted }

end Shared

section Turn
variable (watchId : String → String)

/-- One turn of a call, under what it comes upon. -/
def Call.turn (lockFree : Bool) (outcome : Outcome) (shared : Shared) :
    Call → Option (Call × Shared)
  | .loading =>
    match outcome with
    | .refused error => some (.restored [error], shared)
    | .granted =>
      match shared.file with
      | .absent => some (.restored [], shared)
      | .unparsable error => some (.restored [error], shared)
      | .records [] => some (.restored [], shared)
      | .records (record :: rest) =>
        some (.opening record.directory (some { record with status := "watching", error := none })
          (.restore rest []), shared)
    | _ => none
  | .opening directory previous origin =>
    match outcome with
    | .sight sight =>
      match openDirectory directory sight with
      | .error error => some (answer (.error error) origin, shared)
      | .ok canonical =>
        match shared.watches.lookup (watchId canonical) with
        | some existing => some (answer (.ok existing) origin, shared)
        | none => some (.inserting (registered (watchId canonical) canonical previous) origin, shared)
    | _ => none
  | .inserting record origin =>
    match outcome with
    | .refused error => some (answer (.error error) origin, shared)
    | .granted =>
      some (.persisting .waiting (.start record origin),
        { shared with watches := Table.insert shared.watches record.id record })
    | _ => none
  | .persisting .waiting after =>
    if lockFree then some (.persisting .locked after, shared) else none
  | .persisting .locked after =>
    match outcome with
    | .refused error =>
      some (settle (.error s!"create watched project directory: {error}") after, shared.refuse)
    | .granted => some (.persisting (.listed shared.list) after, shared)
    | _ => none
  | .persisting (.listed records) after =>
    match outcome with
    | .refused error => some (settle (.error error) after, shared.refuse)
    | .granted => some (settle (.ok ()) after, shared.replace records after)
    | _ => none
  | .rollingBack id error origin =>
    some (answer (.error error) origin, { shared with watches := Table.erase shared.watches id })
  | .starting record origin =>
    match outcome with
    | .refused error => some (.dropping record.id s!"start directory watch worker: {error}" origin, shared)
    | .granted => some (answer (.ok record) origin, shared)
    | _ => none
  | .dropping id error origin =>
    some (.persisting .waiting (.fail error origin),
      { shared with watches := Table.erase shared.watches id })
  | .removing id =>
    match shared.watches.lookup id with
    | none => some (.gone (.error s!"watched project {id} was not found"), shared)
    | some _ =>
      some (.persisting .waiting (.removed id),
        { shared with watches := Table.erase shared.watches id })
  | .building id =>
    match shared.watches.lookup id with
    | none => some (.idle, shared)
    | some _ =>
      some (.compiling id, shared.updateRecord id .compiling)
  | .compiling id =>
    match outcome with
    | .refused error => some (.failing id error, shared)
    | .built archiveKappa archiveName millis =>
      some (.persisting .waiting .built,
        shared.updateRecord id (.ready archiveKappa archiveName millis))
    | _ => none
  | .failing id error =>
    some (.persisting .waiting .built, shared.updateRecord id (.failed error))
  | .added _ | .restored _ | .gone _ | .idle => none

end Turn

/-- A process and the file it leaves behind. -/
structure Process where
  shared : Shared
  calls : List Call := []

inductive Action where
  | restore
  | add (directory : String)
  | remove (id : String)
  | build (id : String)
  | watchError (id error : String)
  | advance (place : Nat) (outcome : Outcome)
  | exit

namespace Process

/-- A process that has just started. -/
def fresh (file : Saved) : Process := ⟨{ file, persisted := file.ids }, []⟩

def start (process : Process) (call : Call) : Process :=
  { process with calls := process.calls ++ [call] }

def lockFree (process : Process) : Bool := process.calls.all fun call => !call.holdsLock

/-- After an exit the next process starts with what is in the file. -/
def step (watchId : String → String) (process : Process) : Action → Option Process
  | .restore => some (process.start .loading)
  | .add directory => some (process.start (.opening directory none .add))
  | .remove id => some (process.start (.removing id))
  | .build id => some (process.start (.building id))
  | .watchError id error => some (process.start (.failing id s!"watch directory: {error}"))
  | .advance place outcome =>
    process.calls[place]?.bind fun call =>
      (call.turn watchId process.lockFree outcome process.shared).map fun (after, shared) =>
        ⟨shared, process.calls.set place after⟩
  | .exit => some ⟨{ process.shared with watches := [], lastPersist := none }, []⟩

/-- A `remove` of the project is under way, past taking it out. -/
def leaving (process : Process) (id : String) : Prop :=
  ∃ call ∈ process.calls, call.leaving = some id

end Process

end HologramLive.Watch
