import HologramLive.Store.Disk

/-! Writes into the object store on behalf of one application, under its quota, among all others
that write there. -/

namespace HologramLive.Component
open Lib Lib.Files Store

/-- What the clones of a host share, but for the quota. -/
structure StoreWriteHost where
  objectStore : DiskStore
  roots : List String

namespace StoreWriteHost

/-- The path that a content address names. -/
def blobOf (host : StoreWriteHost) (kappa : String) : Path :=
  host.objectStore.blobPath (String.ofList (kappa.toList.drop 7))

end StoreWriteHost

/-- How far a write has come. From `entering` on it has the quota's lock, which it keeps until it
has ended, and while it is `storing` it has the store's lock too. -/
inductive WriteStage where
  | called
  | queued
  | entering (program : FileProgram LiveError Bool)
  | storing (stood : Bool) (program : FileProgram LiveError Bool)
  | stored (result : Except LiveError Bool)
  | leaving (outcome : Except String Unit)
  | ended (outcome : Except String Unit)

/-- A write, with the contents of the blob that it has newly created. -/
structure Write where
  kappa : String
  bytes : Contents
  stage : WriteStage
  made : Option Contents

/-- How far another user's operation has come. -/
inductive OtherStage where
  | entering (program : FileProgram LiveError Unit)
  | storing (program : FileProgram LiveError Unit)
  | ended

inductive Task where
  | write (own : Write)
  | other (stage : OtherStage)

/-- What the tasks share: the files under the store's lock, and the quota under its own. -/
structure Shared where
  files : FileSystem
  quotaRemaining : Nat
  quotaHolder : Option Nat
  storeHolder : Option Nat

structure System where
  shared : Shared
  tasks : List Task

def System.new (files : FileSystem) (quota : Nat) : System where
  shared := { files, quotaRemaining := quota, quotaHolder := none, storeHolder := none }
  tasks := []

def outsideRoots : String := "object is outside the application's admitted storage roots"

def writeError : LiveError → String
  | .invalidHolo _ => "object bytes do not match the admitted content address"
  | .capability _ => "write exceeds the application's admitted storage quota"
  | _ => "object-store write failed"

/-- A blob is newly created when it comes to a path where none stood when the store's lock was
taken. -/
def appeared (stood : Bool) (path : Path) (before after : FileSystem) (made : Option Contents) :
    Option Contents :=
  if stood = false ∧ before path = none then (after path).or made else made

section Step
variable (host : StoreWriteHost) (pid : Nat)

/-- The next step of a write, at its place among the tasks. -/
def Write.move (place : Nat) (verdict : Verdict) (shared : Shared) (own : Write) :
    Option (Write × Shared) :=
  match own.stage with
  | .called =>
    if own.kappa ∈ host.roots then some ({ own with stage := .queued }, shared)
    else some ({ own with stage := .ended (.error outsideRoots) }, shared)
  | .queued =>
    if shared.quotaHolder = none then
      some ({ own with stage := .entering (host.objectStore.cacheAddressedBounded pid own.kappa
        own.bytes shared.quotaRemaining) }, { shared with quotaHolder := some place })
    else none
  | .entering program => match program.outcome with
    | some result => some ({ own with stage := .stored result }, shared)
    | none =>
      if shared.storeHolder = none then
        some ({ own with stage := .storing (shared.files (host.blobOf own.kappa)).isSome program },
          { shared with storeHolder := some place })
      else none
  | .storing stood program => match program.outcome with
    | some result => some ({ own with stage := .stored result }, { shared with storeHolder := none })
    | none =>
      let (program, files) := Program.advance serve [verdict] program shared.files
      some ({ own with
        stage := .storing stood program
        made := appeared stood (host.blobOf own.kappa) shared.files files own.made },
        { shared with files })
  | .stored result => match result with
    | .ok true => some ({ own with stage := .leaving (.ok ()) },
        { shared with quotaRemaining := shared.quotaRemaining - own.bytes.length })
    | .ok false => some ({ own with stage := .leaving (.ok ()) }, shared)
    | .error error => some ({ own with stage := .leaving (.error (writeError error)) }, shared)
  | .leaving outcome =>
    some ({ own with stage := .ended outcome }, { shared with quotaHolder := none })
  | .ended _ => none

def OtherStage.move (place : Nat) (verdict : Verdict) (shared : Shared) :
    OtherStage → Option (OtherStage × Shared)
  | .entering program => match program.outcome with
    | some _ => some (.ended, shared)
    | none =>
      if shared.storeHolder = none then
        some (.storing program, { shared with storeHolder := some place })
      else none
  | .storing program => match program.outcome with
    | some _ => some (.ended, { shared with storeHolder := none })
    | none =>
      let (program, files) := Program.advance serve [verdict] program shared.files
      some (.storing program, { shared with files })
  | .ended => none

def Task.move (place : Nat) (verdict : Verdict) (shared : Shared) : Task → Option (Task × Shared)
  | .write own => (own.move host pid place verdict shared).map fun moved => (.write moved.1, moved.2)
  | .other stage => (stage.move place verdict shared).map fun moved => (.other moved.1, moved.2)

inductive Action where
  | write (kappa : String) (bytes : Contents)
  | other (operation : DiskStore.Operation)
  | move (place : Nat) (verdict : Verdict)

def step (system : System) : Action → Option System
  | .write kappa bytes =>
    some { system with tasks := system.tasks ++ [.write ⟨kappa, bytes, .called, none⟩] }
  | .other operation => some { system with
      tasks := system.tasks ++ [.other (.entering (host.objectStore.program pid operation))] }
  | .move place verdict => system.tasks[place]?.bind fun task =>
    (task.move host pid place verdict system.shared).map fun moved =>
      { shared := moved.2, tasks := system.tasks.set place moved.1 }

end Step

/-! ### The quota's account -/

def Task.made : Task → Option Contents
  | .write own => own.made
  | .other _ => none

/-- What a write has created and not taken off the quota yet. -/
def Task.unsettled : Task → Option Contents
  | .write own => match own.stage with
    | .storing _ _ => own.made
    | .stored _ => own.made
    | _ => none
  | .other _ => none

def size (made : Option Contents) : Nat := (made.map List.length).getD 0

/-- The total length of the blobs that the host newly created. -/
def System.created (system : System) : Nat := (system.tasks.map fun task => size task.made).sum

def System.unsettled (system : System) : Nat :=
  (system.tasks.map fun task => size task.unsettled).sum

end HologramLive.Component
