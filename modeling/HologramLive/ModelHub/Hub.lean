import HologramLive.Lib.Relying

/-! The hub's publishing commands over the object API. Everything is fetched by address but one
small file, which names the catalog of today. -/

namespace HologramLive.ModelHub.Hub
open Lib

structure HubFile where
  path : String
  size : Nat
  sha256 : String
  weights : Bool
  deriving DecidableEq

/-- One revision of a model, and the address of the version before. -/
structure ModelDoc where
  id : String
  revision : String
  prev : Option String
  license : Option String
  indexManifest : Option String
  files : List HubFile
  deriving DecidableEq

/-- Where the bytes of one revision can be fetched. -/
structure SourceDoc where
  id : String
  revision : String
  model : String
  kind : String
  root : Option String
  resolve : String
  files : List (String × List String)
  deriving DecidableEq

structure Row where
  id : String
  state : String
  license : Option String
  deriving DecidableEq

/-- What a catalog lists under an id. -/
structure Listing where
  model : String
  sources : List String
  deriving DecidableEq

abbrev Objects := List (String × Listing)

/-- Browse rows for today, and the address of every model and source. -/
structure CatalogDoc where
  snapshot : String
  prev : Option String
  models : List Row
  objects : Objects
  deriving DecidableEq

inductive Doc where
  | model (doc : ModelDoc)
  | source (doc : SourceDoc)
  | catalog (doc : CatalogDoc)
  deriving DecidableEq

def assign (id : String) (listing : Listing) : Objects → Objects
  | [] => [(id, listing)]
  | item :: rest => if item.1 = id then (id, listing) :: rest else item :: assign id listing rest

inductive HubCall : Type → Type where
  | head : HubCall (Option (String × CatalogDoc))
  | get (id : String) : HubCall Doc
  | put (doc : Doc) : HubCall String
  | writeDescriptor (catalog snapshot : String) : HubCall Unit

abbrev HubProgram := Program HubCall String

/-- The versions from an address on, newest first. -/
def versions : Nat → Option String → HubProgram (List (String × ModelDoc))
  | _, none => .done []
  | 0, some _ => .fail "cut off"
  | bound + 1, some cur => do
    match ← Program.perform (.get cur) with
    | .model doc =>
      let chain ← versions bound doc.prev
      .done ((cur, doc) :: chain)
    | _ => .fail "not a model"

structure FileRow where
  path : String
  size : Nat
  address : String
  weights : Bool

/-- A revision to be published. -/
structure Revision where
  id : String
  revision : String
  license : Option String
  files : List FileRow
  indexManifest : Option String

def withoutAlgorithm (address : String) : String :=
  if "sha256:".toList <+: address.toList then String.ofList (address.toList.drop 7) else address

def manifest (m : Revision) (prev : Option String) : ModelDoc where
  id := m.id
  revision := m.revision
  prev
  license := m.license
  indexManifest := m.indexManifest
  files := m.files.map fun file => ⟨file.path, file.size, withoutAlgorithm file.address, file.weights⟩

/-- Whether a revision is in the chain that begins at an address. -/
def inChain (revision : String) : Nat → Option String → HubProgram Bool
  | _, none => .done false
  | 0, some _ => .fail "cut off"
  | bound + 1, some c => do
    match ← Program.perform (.get c) with
    | .model doc => if doc.revision = revision then .done true else inChain revision bound doc.prev
    | _ => .fail "not a model"

/-- A new revision starts with no sources. One that is in the chain already is left alone. -/
def publishModel (bound : Nat) (m : Revision) (objects : Objects) : HubProgram Objects := do
  let before := (objects.lookup m.id).map Listing.model
  if ← inChain m.revision bound before then .done objects
  else
    let id ← Program.perform (.put (.model (manifest m before)))
    .done (assign m.id ⟨id, []⟩ objects)

def publishCatalog (rows : List Row) (snapshot : String) (objects : Objects)
    (before : Option (String × CatalogDoc)) : HubProgram Unit := do
  match before with
  | some (id, catalog) =>
    if catalog.snapshot = snapshot ∧ catalog.models = rows ∧ catalog.objects = objects then
      Program.perform (.writeDescriptor id snapshot)
    else
      let id ← Program.perform (.put (.catalog ⟨snapshot, some id, rows, objects⟩))
      Program.perform (.writeDescriptor id snapshot)
  | none =>
    let id ← Program.perform (.put (.catalog ⟨snapshot, none, rows, objects⟩))
    Program.perform (.writeDescriptor id snapshot)

/-- The file list of a model, as it was written for a day or fetched. -/
structure FileList where
  revision : String
  files : List FileRow
  manifest : Option String

structure Pin where
  revision : String
  root : String

/-- What a publishing run is given: a day's rows and file lists, and the pinned models. -/
structure Day where
  snapshot : String
  models : List Row
  limit : Option Nat
  listed : String → Option FileList
  pins : List (String × Pin)
  gateway : String
  latest : String → Option FileList

def Day.rows (day : Day) : List Row :=
  let addressed := day.models.filter fun row => row.state = "addressed"
  match day.limit with
  | some (n + 1) => addressed.take (n + 1)
  | _ => addressed

def publishRows (bound : Nat) (day : Day) : List Row → Objects → HubProgram Objects
  | [], objects => .done objects
  | row :: rows, objects =>
    match day.listed row.id with
    | none => publishRows bound day rows objects
    | some f => do
      let objects ← publishModel bound ⟨row.id, f.revision, row.license, f.files, f.manifest⟩ objects
      publishRows bound day rows objects

/-- The source a pin gives to the head revision of its model. -/
def publishPin (bound : Nat) (day : Day) (id : String) (pin : Pin) (objects : Objects) :
    HubProgram Objects :=
  match objects.lookup id with
  | none => .fail "no such model"
  | some listing => do
    let chain ← versions bound (some listing.model)
    match chain.find? fun v => v.2.revision = pin.revision with
    | none => .done objects
    | some target =>
      if target.1 ≠ listing.model then .done objects
      else
        let s ← Program.perform (.put (.source
          ⟨id, pin.revision, target.1, "ipfs", some pin.root, day.gateway ++ pin.root ++ "/", []⟩))
        .done (if listing.sources.contains s then objects
          else assign id { listing with sources := listing.sources ++ [s] } objects)

def publishPins (bound : Nat) (day : Day) : List (String × Pin) → Objects → HubProgram Objects
  | [], objects => .done objects
  | (id, pin) :: pins, objects =>
    match objects.lookup id with
    | some _ => do
      let objects ← publishPin bound day id pin objects
      publishPins bound day pins objects
    | none =>
      match day.latest id with
      | none => .fail "no answer"
      | some doc =>
        if doc.revision ≠ pin.revision then publishPins bound day pins objects
        else do
          let objects ←
            publishModel bound ⟨id, doc.revision, none, doc.files, doc.manifest⟩ objects
          let objects ← publishPin bound day id pin objects
          publishPins bound day pins objects

def publish (bound : Nat) (day : Day) : HubProgram Unit := do
  let before ← Program.perform .head
  let objects := (before.map fun found => found.2.objects).getD []
  let objects ← publishRows bound day day.rows objects
  let objects ← publishPins bound day day.pins objects
  publishCatalog day.models day.snapshot objects before

def revise (bound : Nat) (m : Revision) : HubProgram Unit := do
  match ← Program.perform .head with
  | none => .fail "no catalog"
  | some before =>
    let objects ← publishModel bound m before.2.objects
    publishCatalog before.2.models before.2.snapshot objects (some before)

/-- What the head lists an id with, and more sources with it. -/
def announce (id source : String) (objects : Objects) : HubProgram Objects :=
  match objects.lookup id with
  | none => .fail "no such model"
  | some listing => .done (assign id { listing with sources := listing.sources ++ [source] } objects)

/-- The files have been put on another server as chunks, each under its own addresses. -/
def host (bound : Nat) (id base : String) (chunks : String → List String) : HubProgram Unit := do
  let first ← Program.perform .head
  let chain ← versions bound
    ((first.bind fun found => found.2.objects.lookup id).map Listing.model)
  match chain with
  | [] => .fail "no such model"
  | v :: _ =>
    let record ← Program.perform (.put (.source
      ⟨id, v.2.revision, v.1, "hologram", none, base ++ "/api/v1/objects/",
        v.2.files.map fun f => (f.path, chunks f.path)⟩))
    match ← Program.perform .head with
    | none => .fail "no catalog"
    | some before =>
      match before.2.objects.lookup id with
      | none => .fail "no such model"
      | some listing =>
        let objects ←
          if listing.sources.contains record then .done before.2.objects
          else announce id record before.2.objects
        publishCatalog before.2.models before.2.snapshot objects (some before)

def source (bound : Nat) (id kind resolve : String) : HubProgram Unit := do
  match ← Program.perform .head with
  | none => .fail "no catalog"
  | some before =>
    match before.2.objects.lookup id with
    | none => .fail "no such model"
    | some listing =>
      match ← versions bound (some listing.model) with
      | [] => .fail "no such model"
      | v :: _ =>
        let record ← Program.perform (.put (.source
          ⟨id, v.2.revision, v.1, kind, none, resolve, []⟩))
        let objects ← announce id record before.2.objects
        publishCatalog before.2.models before.2.snapshot objects (some before)

/-- The objects on the server, each under its address, and the one mutable file. -/
structure Shelf where
  stored : List (String × Doc) := []
  descriptor : Option (String × String) := none

/-- What a run has read last at the head, and the objects it has put. -/
structure Progress where
  read : Option String := none
  put : List (String × Doc) := []

/-- A call as it is answered. One that fails is not answered: the run goes no further. An
address that another document has already is not given out: the hash does not collide. -/
def serve (address : Doc → String) : {β : Type} → HubCall β → Shelf → Option (β × Shelf)
  | _, .head, shelf =>
    match shelf.descriptor with
    | none => some (none, shelf)
    | some (id, _) =>
      match shelf.stored.lookup id with
      | some (.catalog catalog) => some (some (id, catalog), shelf)
      | _ => none
  | _, .get id, shelf => (shelf.stored.lookup id).map fun doc => (doc, shelf)
  | _, .put doc, shelf =>
    match shelf.stored.lookup (address doc) with
    | none => some (address doc, { shelf with stored := shelf.stored ++ [(address doc, doc)] })
    | some found => if found = doc then some (address doc, shelf) else none
  | _, .writeDescriptor catalog snapshot, shelf =>
    some ((), { shelf with descriptor := some (catalog, snapshot) })

def Progress.after (own : Progress) : {β : Type} → HubCall β → β → Progress
  | _, .head, found => { own with read := found.map Prod.fst }
  | _, .get _, _ => own
  | _, .put doc, id => { own with put := own.put ++ [(id, doc)] }
  | _, .writeDescriptor _ _, _ => own

/-- A command with its arguments. The bound is on the versions that are walked. -/
inductive Request where
  | publish (bound : Nat) (day : Day)
  | revise (bound : Nat) (m : Revision)
  | host (bound : Nat) (id base : String) (chunks : String → List String)
  | source (bound : Nat) (id kind resolve : String)

def Request.program : Request → HubProgram Unit
  | .publish bound day => Hub.publish bound day
  | .revise bound m => Hub.revise bound m
  | .host bound id base chunks => Hub.host bound id base chunks
  | .source bound id kind resolve => Hub.source bound id kind resolve

abbrev HubRun := Task HubCall String Unit Progress

structure State where
  shelf : Shelf := {}
  runs : List HubRun := []

/-- A run begins, or one makes its next call. A run that fails or dies makes no more. -/
inductive Action where
  | start (request : Request)
  | call (place : Nat)

def step (address : Doc → String) (state : State) : Action → Option State
  | .start request => some { state with runs := state.runs ++ [⟨request.program, {}⟩] }
  | .call place =>
    match state.runs[place]? with
    | some ⟨.call operation next, own⟩ =>
      (serve address operation state.shelf).map fun answered =>
        { shelf := answered.2
          runs := state.runs.set place ⟨next answered.1, own.after operation answered.1⟩ }
    | _ => none

end HologramLive.ModelHub.Hub
