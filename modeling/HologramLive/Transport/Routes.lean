import HologramLive.Lib.Result
import HologramLive.Transport.Operation

namespace HologramLive.Transport
open Lib.Result

structure OperationDescriptor where
  id : String
  kind : OperationKind
  fallbackSafeBeforeDispatch : Bool
  deriving DecidableEq

structure ModuleDescriptor where
  id : String
  dependencies : List String
  operations : List OperationDescriptor
  deriving DecidableEq

namespace Modules

def reads (id : String) : OperationDescriptor := ⟨id, .read, true⟩

def mutates (id : String) : OperationDescriptor := ⟨id, .mutation, false⟩

def system : ModuleDescriptor where
  id := "dev.hologram.live.system"
  dependencies := []
  operations :=
    [reads "system.handshake", reads "system.health", mutates "system.shutdown",
      reads "modules.list", reads "tracing.get", mutates "tracing.set", reads "plugin.list",
      mutates "plugin.call"]

def registry : ModuleDescriptor where
  id := "dev.hologram.live.kappa-registry"
  dependencies := ["dev.hologram.live.system"]
  operations :=
    [reads "registry.list", reads "registry.get", reads "registry.search", mutates "registry.put"]

def files : ModuleDescriptor where
  id := "dev.hologram.live.files"
  dependencies := ["dev.hologram.live.kappa-registry"]
  operations :=
    [reads "files.list", reads "files.get", mutates "files.put", reads "files.search",
      mutates "files.rename"]

def holo : ModuleDescriptor where
  id := "dev.hologram.live.holo"
  dependencies := ["dev.hologram.live.kappa-registry"]
  operations :=
    [mutates "holo.import", reads "holo.list", reads "holo.inspect", reads "holo.plan",
      reads "holo.verify", mutates "holo.remove", mutates "holo.load", mutates "holo.unload",
      ⟨"holo.run", .stream, false⟩, reads "holo.resident"]

def history : ModuleDescriptor where
  id := "dev.hologram.live.history"
  dependencies := ["dev.hologram.live.kappa-registry"]
  operations :=
    [mutates "history.create", reads "history.list", reads "history.get", mutates "history.append",
      mutates "history.delete", mutates "history.archive"]

def chat : ModuleDescriptor where
  id := "dev.hologram.live.chat"
  dependencies := ["dev.hologram.live.history"]
  operations := [mutates "chat.send"]

def inference : ModuleDescriptor where
  id := "dev.hologram.live.inference"
  dependencies := ["dev.hologram.live.kappa-registry"]
  operations := [reads "model.list", mutates "model.import", mutates "model.remove"]

def openaiCompat : ModuleDescriptor where
  id := "dev.hologram.live.openai-compat"
  dependencies := ["dev.hologram.live.inference"]
  operations := []

def ollamaCompat : ModuleDescriptor where
  id := "dev.hologram.live.ollama-compat"
  dependencies := ["dev.hologram.live.inference"]
  operations := []

def controlPlane : ModuleDescriptor where
  id := "dev.hologram.live.control-plane"
  dependencies := ["dev.hologram.live.system"]
  operations := [reads "nodes.list", mutates "nodes.heartbeat"]

/-- The statically linked modules. -/
def builtins : List ModuleDescriptor :=
  [system, registry, files, holo, history, chat, inference, openaiCompat, ollamaCompat,
    controlPlane]

end Modules

abbrev HeaderMap := List (String × Bytes)

/-- A request on a module's route, with what the extractors took from it: `none` where
they reject the query or the body. -/
inductive HttpRequest where
  | listModules
  | capabilities
  | listObjects
  | searchObjects (query : Option ObjectQuery)
  | putObject (headers : HeaderMap) (bytes : Bytes)
  | getObject (id : String)
  | listFiles
  | searchFiles (query : Option ObjectQuery)
  | putFile (headers : HeaderMap) (bytes : Bytes)
  | getFile (id : String)
  | renameFile (id : String) (filename : Option String)
  | listHolo
  | inspectHolo (kappa : String)
  | planHolo (kappa : String)
  | residentHolo
  | loadHolo (kappa : String)
  | unloadHolo (kappa : String)
  | runHolo (kappa : String) (inputs : Option (List Bytes))
  | listHistory (includeArchived : Option Bool)
  | createHistory (title : Option String)
  | getHistory (id : String)
  | appendHistory (id : String) (message : Option (String × String))
  | deleteHistory (id : String)
  | archiveHistory (id : String) (archived : Option Bool)
  | sendMessage (id : String) (content : Option String)
  | listModels
  | removeModel (id : String)
  | listNodes

namespace HttpRequest

/-- The module that mounts a route. -/
def mountedBy : HttpRequest → ModuleDescriptor
  | .listModules | .capabilities => Modules.system
  | .listObjects | .searchObjects .. | .putObject .. | .getObject .. => Modules.registry
  | .listFiles | .searchFiles .. | .putFile .. | .getFile .. | .renameFile .. => Modules.files
  | .listHolo | .inspectHolo .. | .planHolo .. | .residentHolo | .loadHolo .. | .unloadHolo ..
  | .runHolo .. => Modules.holo
  | .listHistory .. | .createHistory .. | .getHistory .. | .appendHistory .. | .deleteHistory ..
  | .archiveHistory .. => Modules.history
  | .sendMessage .. => Modules.chat
  | .listModels | .removeModel .. => Modules.inference
  | .listNodes => Modules.controlPlane

/-- The operation of the daemon that a route stands for. -/
def operation : HttpRequest → String
  | .listModules => "modules.list"
  | .capabilities => "system.handshake"
  | .listObjects => "registry.list"
  | .searchObjects .. => "registry.search"
  | .putObject .. => "registry.put"
  | .getObject .. => "registry.get"
  | .listFiles => "files.list"
  | .searchFiles .. => "files.search"
  | .putFile .. => "files.put"
  | .getFile .. => "files.get"
  | .renameFile .. => "files.rename"
  | .listHolo => "holo.list"
  | .inspectHolo .. => "holo.inspect"
  | .planHolo .. => "holo.plan"
  | .residentHolo => "holo.resident"
  | .loadHolo .. => "holo.load"
  | .unloadHolo .. => "holo.unload"
  | .runHolo .. => "holo.run"
  | .listHistory .. => "history.list"
  | .createHistory .. => "history.create"
  | .getHistory .. => "history.get"
  | .appendHistory .. => "history.append"
  | .deleteHistory .. => "history.delete"
  | .archiveHistory .. => "history.archive"
  | .sendMessage .. => "chat.send"
  | .listModels => "model.list"
  | .removeModel .. => "model.remove"
  | .listNodes => "nodes.list"

/-- The kind its module declares for the operation. -/
def kind : HttpRequest → OperationKind
  | .putObject .. | .putFile .. | .renameFile .. | .loadHolo .. | .unloadHolo .. | .createHistory ..
  | .appendHistory .. | .deleteHistory .. | .archiveHistory .. | .sendMessage ..
  | .removeModel .. => .mutation
  | .runHolo .. => .stream
  | _ => .read

/-- Routes and modules agree about operations and their kinds. -/
theorem kind_declared (request : HttpRequest) :
    ∃ descriptor ∈ request.mountedBy.operations,
      descriptor.id = request.operation ∧ descriptor.kind = request.kind := by
  cases request <;> simp only [mountedBy, operation, kind] <;> decide +kernel

end HttpRequest

/-- A header's value as text, over the conversion of the header library. -/
def optionalHeader (toStr : Bytes → Except String String) (headers : HeaderMap) (name : String) :
    Except LiveError (Option String) :=
  match headers.lookup name with
  | none => .ok none
  | some value =>
    match toStr value with
    | .ok text => .ok (some text)
    | .error error => .error (.protocol s!"invalid {name} header: {error}")

/-- What a handler does once its inputs are extracted: the one service call it makes, and
the status of a success. -/
abbrev Handling := Except LiveError (ServiceCall × Nat)

namespace Handlers
variable (toStr : Bytes → Except String String)

def putObject (headers : HeaderMap) (bytes : Bytes) : Handling := do
  let kind ← optionalHeader toStr headers "x-hologram-kind"
  let mediaType ← optionalHeader toStr headers "content-type"
  let filename ← optionalHeader toStr headers "x-hologram-filename"
  .ok (.putObject (kind.getD "file") (mediaType.getD "application/octet-stream") filename bytes,
    201)

def putFile (headers : HeaderMap) (bytes : Bytes) : Handling := do
  let mediaType ← optionalHeader toStr headers "content-type"
  let filename ← optionalHeader toStr headers "x-hologram-filename"
  .ok (.putObject "file" (mediaType.getD "application/octet-stream") filename bytes, 201)

/-- A handler whose body or query the extractors may reject. -/
def withBody (body : Option α) (call : α → ServiceCall) (status : Nat) : Option Handling :=
  body.map fun body => .ok (call body, status)

/-- The handler behind each route; `none` where the extractors reject the request. -/
def handle (principal : Principal) : HttpRequest → Option Handling
  | .listModules => some (.ok (.moduleInfo, 200))
  | .capabilities => some (.ok (.capabilityManifest, 200))
  | .listObjects => some (.ok (.listObjects none, 200))
  | .searchObjects query => withBody query .search 200
  | .putObject headers bytes => some (putObject toStr headers bytes)
  | .getObject id => some (.ok (.getObject id, 200))
  | .listFiles => some (.ok (.listObjects (some "file"), 200))
  | .searchFiles query =>
    withBody query (fun query => .search { query with kind := some "file" }) 200
  | .putFile headers bytes => some (putFile toStr headers bytes)
  | .getFile id => some (.ok (.getObject id, 200))
  | .renameFile id filename => withBody filename (.renameFile id) 200
  | .listHolo => some (.ok (.holoList, 200))
  | .inspectHolo kappa => some (.ok (.holoInspect kappa, 200))
  | .planHolo kappa => some (.ok (.holoPlan kappa, 200))
  | .residentHolo => some (.ok (.holoResident, 200))
  | .loadHolo kappa => some (.ok (.loadFor kappa principal.id, 200))
  | .unloadHolo kappa => some (.ok (.unload kappa, 204))
  | .runHolo kappa inputs => withBody inputs (.run kappa) 200
  | .listHistory includeArchived => withBody includeArchived .historyList 200
  | .createHistory title => withBody title .historyCreate 201
  | .getHistory id => some (.ok (.historyGet id, 200))
  | .appendHistory id message =>
    withBody message (fun message => .historyAppend id message.1 message.2) 200
  | .deleteHistory id => some (.ok (.historyDelete id, 204))
  | .archiveHistory id archived => withBody archived (.historySetArchived id) 200
  | .sendMessage id content => withBody content (.chatSend id) 200
  | .listModels => some (.ok (.modelsList, 200))
  | .removeModel id => some (.ok (.modelsRemove id, 204))
  | .listNodes => some (.ok (.nodesList, 200))

end Handlers

end HologramLive.Transport
