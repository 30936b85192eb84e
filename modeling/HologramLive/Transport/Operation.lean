import HologramLive.Error
import HologramLive.Protocol
import HologramLive.Store

namespace HologramLive.Transport

inductive OperationKind where
  | read
  | mutation
  | stream
  deriving DecidableEq

structure NodeRecord where
  nodeId : String
  version : String
  operations : List String
  lastSeenMillis : Nat
  deriving DecidableEq

inductive RpcRequest where
  | handshake
  | health
  | shutdown
  | modulesList
  | tracingGet
  | tracingSet (filter : String)
  | registryList
  | registryPut (kind mediaType : String) (filename : Option String) (bytes : Bytes)
  | registryGet (id : String)
  | registrySearch (query : ObjectQuery)
  | filesList
  | filesPut (mediaType : String) (filename : Option String) (bytes : Bytes)
  | filesGet (id : String)
  | filesRename (id filename : String)
  | filesSearch (query : ObjectQuery)
  | holoImport (name : String) (bytes : Bytes)
  | holoList
  | holoInspect (kappa : String)
  | holoPlan (kappa : String)
  | holoVerify (kappa : String)
  | holoRemove (kappa : String)
  | holoLoad (kappa : String)
  | holoUnload (kappa : String)
  | holoRun (kappa : String) (inputs : List Bytes)
  | holoResident
  | historyCreate (title : String)
  | historyList (includeArchived : Bool)
  | historyGet (id : String)
  | historyAppend (id role content : String)
  | historyDelete (id : String)
  | historyArchive (id : String) (archived : Bool)
  | chatSend (id content : String)
  | modelList
  | modelImport (path : String)
  | modelRemove (id : String)
  | nodesList
  | nodeHeartbeat (node : NodeRecord)
  | pluginList
  | pluginCall (pluginId operation payload : String)
  deriving DecidableEq

namespace RpcRequest

def operation : RpcRequest → String
  | .handshake => "system.handshake"
  | .health => "system.health"
  | .shutdown => "system.shutdown"
  | .modulesList => "modules.list"
  | .tracingGet => "tracing.get"
  | .tracingSet .. => "tracing.set"
  | .registryList => "registry.list"
  | .registryPut .. => "registry.put"
  | .registryGet .. => "registry.get"
  | .registrySearch .. => "registry.search"
  | .filesList => "files.list"
  | .filesPut .. => "files.put"
  | .filesGet .. => "files.get"
  | .filesRename .. => "files.rename"
  | .filesSearch .. => "files.search"
  | .holoImport .. => "holo.import"
  | .holoList => "holo.list"
  | .holoInspect .. => "holo.inspect"
  | .holoPlan .. => "holo.plan"
  | .holoVerify .. => "holo.verify"
  | .holoRemove .. => "holo.remove"
  | .holoLoad .. => "holo.load"
  | .holoUnload .. => "holo.unload"
  | .holoRun .. => "holo.run"
  | .holoResident => "holo.resident"
  | .historyCreate .. => "history.create"
  | .historyList .. => "history.list"
  | .historyGet .. => "history.get"
  | .historyAppend .. => "history.append"
  | .historyDelete .. => "history.delete"
  | .historyArchive .. => "history.archive"
  | .chatSend .. => "chat.send"
  | .modelList => "model.list"
  | .modelImport .. => "model.import"
  | .modelRemove .. => "model.remove"
  | .nodesList => "nodes.list"
  | .nodeHeartbeat .. => "nodes.heartbeat"
  | .pluginList => "plugin.list"
  | .pluginCall .. => "plugin.call"

def kind : RpcRequest → OperationKind
  | .handshake | .health | .modulesList | .tracingGet | .registryList | .registryGet ..
  | .registrySearch .. | .filesSearch .. | .filesList | .filesGet .. | .holoList
  | .holoInspect .. | .holoPlan .. | .holoVerify .. | .holoResident | .historyList ..
  | .historyGet .. | .modelList | .nodesList | .pluginList => .read
  | .holoRun .. => .stream
  | _ => .mutation

end RpcRequest

/-- What an audit event names as touched. -/
def resourceFor : RpcRequest → Option String
  | .holoInspect kappa | .holoPlan kappa | .holoVerify kappa | .holoRemove kappa | .holoLoad kappa
  | .holoUnload kappa | .holoRun kappa _ => some kappa
  | .registryGet id | .filesGet id | .filesRename id _ | .historyGet id | .historyAppend id _ _
  | .historyDelete id | .chatSend id _ | .modelRemove id => some id
  | .modelImport path => some path
  | .registryPut _ _ filename _ | .filesPut _ filename _ => filename
  | .nodeHeartbeat node => some node.nodeId
  | .pluginCall pluginId _ _ => some pluginId
  | _ => none

/-- The calls the daemon makes on its services, whatever delivered the request. -/
inductive ServiceCall where
  | capabilityManifest
  | health
  | requestShutdown
  | moduleInfo
  | currentFilter
  | setFilter (filter : String)
  | listObjects (kind : Option String)
  | search (query : ObjectQuery)
  | putObject (kind mediaType : String) (filename : Option String) (bytes : Bytes)
  | getObject (id : String)
  | renameFile (id filename : String)
  | holoImport (name : String) (bytes : Bytes)
  | holoList
  | holoInspect (kappa : String)
  | holoPlan (kappa : String)
  | holoVerify (kappa : String)
  | holoRemove (kappa : String)
  | loadFor (kappa principal : String)
  | unload (kappa : String)
  | run (kappa : String) (inputs : List Bytes)
  | holoResident
  | historyCreate (title : String)
  | historyList (includeArchived : Bool)
  | historyGet (id : String)
  | historyAppend (id role content : String)
  | historySetArchived (id : String) (archived : Bool)
  | historyDelete (id : String)
  | chatSend (id content : String)
  | modelsList
  | modelsImport (path : String)
  | modelsRemove (id : String)
  | nodesList
  | nodesHeartbeat (node : NodeRecord)
  | pluginsList
  | pluginsInvoke (pluginId operation payload : String)

/-- The calls that change what the daemon keeps or runs. -/
def ServiceCall.changes : ServiceCall → Bool
  | .capabilityManifest | .health | .moduleInfo | .currentFilter | .listObjects .. | .search ..
  | .getObject .. | .holoList | .holoInspect .. | .holoPlan .. | .holoVerify .. | .holoResident
  | .historyList .. | .historyGet .. | .modelsList | .nodesList | .pluginsList => false
  | _ => true

structure Principal where
  id : String
  scope : String

/-- The service call `dispatch_authorized` makes for a request. -/
def RpcRequest.call (principal : Principal) : RpcRequest → ServiceCall
  | .handshake => .capabilityManifest
  | .health => .health
  | .shutdown => .requestShutdown
  | .modulesList => .moduleInfo
  | .tracingGet => .currentFilter
  | .tracingSet filter => .setFilter filter
  | .registryList => .listObjects none
  | .filesList => .listObjects (some "file")
  | .registrySearch query => .search query
  -- the kind is fixed here rather than trusted from the caller
  | .filesSearch query => .search { query with kind := some "file" }
  | .registryPut kind mediaType filename bytes => .putObject kind mediaType filename bytes
  | .filesPut mediaType filename bytes => .putObject "file" mediaType filename bytes
  | .registryGet id | .filesGet id => .getObject id
  | .filesRename id filename => .renameFile id filename
  | .holoImport name bytes => .holoImport name bytes
  | .holoList => .holoList
  | .holoInspect kappa => .holoInspect kappa
  | .holoPlan kappa => .holoPlan kappa
  | .holoVerify kappa => .holoVerify kappa
  | .holoRemove kappa => .holoRemove kappa
  | .holoLoad kappa => .loadFor kappa principal.id
  | .holoUnload kappa => .unload kappa
  | .holoRun kappa inputs => .run kappa inputs
  | .holoResident => .holoResident
  | .historyCreate title => .historyCreate title
  | .historyList includeArchived => .historyList includeArchived
  | .historyGet id => .historyGet id
  | .historyAppend id role content => .historyAppend id role content
  | .historyArchive id archived => .historySetArchived id archived
  | .historyDelete id => .historyDelete id
  | .chatSend id content => .chatSend id content
  | .modelList => .modelsList
  | .modelImport path => .modelsImport path
  | .modelRemove id => .modelsRemove id
  | .nodesList => .nodesList
  | .nodeHeartbeat node => .nodesHeartbeat node
  | .pluginList => .pluginsList
  | .pluginCall pluginId operation payload => .pluginsInvoke pluginId operation payload

/-- The declared kind of a request tells whether it changes anything. -/
theorem RpcRequest.call_changes (principal : Principal) (request : RpcRequest) :
    (request.call principal).changes = true ↔ request.kind ≠ .read := by
  cases request <;> simp [RpcRequest.call, ServiceCall.changes, RpcRequest.kind]

end HologramLive.Transport
