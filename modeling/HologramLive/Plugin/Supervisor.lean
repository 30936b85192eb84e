import HologramLive.Client.Live
import HologramLive.Config.Settings
import HologramLive.Json
import HologramLive.Lib.Interleaving
import HologramLive.Lib.Utf8
import HologramLive.Store.Names
import HologramLive.Transport.Registry

/-! Plugins in processes of their own, the supervisors that start them again, and the calls that
are forwarded to them. -/

namespace HologramLive.Plugin
open Client Config Lib Transport

def maxRestarts : Nat := 3

/-- What the operating system and the plugin answer while it is being started. -/
structure StartAnswers where
  executable : Except LiveError Bytes
  spawned : Except LiveError Unit
  connected : Except LiveError Unit
  described : Except LiveError PluginDescriptor
  pinged : Except LiveError Unit

/-- A process that was spawned: the executable as it was verified before, and the operations that
it declared in a handshake which it completed. -/
structure Process where
  executable : Bytes
  declared : Option (List String)

structure InvokeResponse where
  errorCode : String
  errorMessage : String
  result : Bytes

structure Status where
  code : Code
  message : String

/-- A supervisor, with the processes it has spawned so far. A call is named by its number; the
current one comes with its restarts. -/
structure PluginSupervisor where
  spec : PluginModuleConfig
  client : Option Nat
  alive : Bool
  restartCount : Nat
  lastError : Option LiveError
  mailbox : List Nat
  current : Option (Nat × Nat)
  processes : List Process

/-- `constant_time_eq`. -/
def constantTimeEq (left right : Bytes) : Bool :=
  if left.length ≠ right.length then false
  else (left.zip right).foldl (fun difference pair => difference ||| (pair.1 ^^^ pair.2)) 0 = 0

def invokeResult (response : InvokeResponse) : Except LiveError String :=
  if response.errorCode = "" then
    match Utf8.decode response.result with
    | some text => .ok text
    | none => .error (.protocol "plugin returned a non-UTF-8 result")
  else .error (ofApiError ⟨response.errorCode, response.errorMessage⟩)

def restartable (status : Status) : Bool :=
  status.code = .unavailable || status.code = .unknown

def statusError (status : Status) : LiveError :=
  match status.code with
  | .unimplemented => .capability status.message
  | .notFound => .notFound status.message
  | .invalidArgument => .protocol status.message
  | _ => .transport s!"plugin transport failure: {status.message}"

variable (sha256 : Bytes → Vector UInt8 32)

def verifySha256 (spec : PluginModuleConfig) (executable : Except LiveError Bytes) :
    Except LiveError Bytes := do
  let bytes ← executable
  let actual := Store.hex (sha256 bytes).toList
  if !constantTimeEq (Utf8.encode actual) (Utf8.encode (toAsciiLowercase spec.sha256)) then
    .error <| .authorization <|
      s!"sha256 mismatch for plugin executable {spec.path} (expected {spec.sha256}, got {actual}); " ++
      "refusing to spawn"
  else .ok bytes

namespace PluginSupervisor

def new (spec : PluginModuleConfig) : PluginSupervisor where
  spec := spec
  client := none
  alive := false
  restartCount := 0
  lastError := none
  mailbox := []
  current := none
  processes := []

def teardown (own : PluginSupervisor) : PluginSupervisor := { own with client := none, alive := false }

/-- The client is kept only after the handshake; a process that fails before is torn down. -/
def startVerified (own : PluginSupervisor) (answers : StartAnswers) :
    Except LiveError PluginDescriptor × PluginSupervisor :=
  match verifySha256 sha256 own.spec answers.executable with
  | .error error => (.error error, own)
  | .ok executable => match answers.spawned with
    | .error error => (.error error, own)
    | .ok () =>
      let spawned : Option (List String) → List Process := fun declared =>
        own.processes ++ [⟨executable, declared⟩]
      match answers.connected with
      | .error error => (.error error, { own with alive := true, processes := spawned none })
      | .ok () => match handshake own.spec.id answers.described answers.pinged with
        | .error error => (.error error, { own with alive := true, processes := spawned none })
        | .ok descriptor => (.ok descriptor, { own with
            alive := true
            client := some own.processes.length
            processes := spawned (some (descriptor.operations.map (·.id))) })

def start (own : PluginSupervisor) (answers : StartAnswers) :
    Except LiveError PluginDescriptor × PluginSupervisor :=
  match own.teardown.startVerified sha256 answers with
  | (.ok descriptor, own) => (.ok descriptor, own)
  | (.error error, own) => (.error error, { own.teardown with lastError := some error })

end PluginSupervisor

/-- A call that the registry has let through to a supervisor. -/
structure Call where
  plugin : Nat
  operation : String
  payload : String
  deriving DecidableEq

/-- A request that reached a process. -/
structure Delivery where
  call : Nat
  plugin : Nat
  process : Nat
  operation : String
  deriving DecidableEq

/-- The registry as it was built and the supervisors behind its entries, with all that was called,
delivered and answered. -/
structure System where
  registry : PluginRegistry
  supervisors : List PluginSupervisor
  calls : List Call
  deliveries : List Delivery
  replies : List (Nat × Except LiveError String)

def System.new : System where
  registry := {}
  supervisors := []
  calls := []
  deliveries := []
  replies := []

inductive Action where
  | add (spec : PluginModuleConfig) (answers : StartAnswers)
  | invoke (plugin operation payload : String)
  | serve (plugin : Nat)
  | start (plugin : Nat) (answers : StartAnswers)
  /-- The client's call, whether it reaches the process, and what comes of it. -/
  | deliver (plugin : Nat) (reached : Bool) (outcome : Except Status InvokeResponse)
  | crash (plugin : Nat)

/-- `PluginRegistry::invoke` up to the supervisor it asks, by its place. -/
def admission (fromStr : String → Except String Json) (registry : PluginRegistry)
    (plugin operation payload : String) : Except LiveError Nat := do
  let _ ← (fromStr payload).mapError fun error =>
    .protocol s!"plugin.call payload must be valid JSON: {error}"
  match registry.entries.findIdx? (·.id = plugin) with
  | none => .error (.capability s!"plugin {plugin} is not enabled on this server")
  | some place =>
    let operations := ((registry.entries[place]?).map (·.operations)).getD []
    if operations ≠ [] ∧ ¬ operations.any (·.1 = operation) then
      .error (.capability s!"plugin {plugin} does not provide operation {operation}")
    else .ok place

section Step
variable (fromStr : String → Except String Json)

def System.put (system : System) (plugin : Nat) (own : PluginSupervisor) : System :=
  { system with supervisors := system.supervisors.set plugin own }

def System.reply (system : System) (plugin call : Nat) (own : PluginSupervisor)
    (result : Except LiveError String) : System :=
  { system.put plugin { own with current := none } with replies := system.replies ++ [(call, result)] }

/-- What follows a call of the client. Only connection-level failures justify a restart. -/
def settle (system : System) (plugin call restarts : Nat) (own : PluginSupervisor) :
    Except Status InvokeResponse → System
  | .ok response => system.reply plugin call own (invokeResult response)
  | .error status =>
    if restartable status ∧ restarts < maxRestarts then
      system.put plugin { own.teardown with
        current := some (call, restarts + 1)
        restartCount := own.restartCount + 1
        lastError := some (.transport s!"transport failure: {status.message}") }
    else
      system.reply plugin call { own with lastError := some (statusError status) }
        (.error (statusError status))

def step (system : System) : Action → Option System
  | .add spec answers =>
    let (started, own) := (PluginSupervisor.new spec).start sha256 answers
    some { system with
      registry := system.registry.add ⟨spec.id, started⟩
      supervisors := system.supervisors ++ [own] }
  | .invoke plugin operation payload =>
    match admission fromStr system.registry plugin operation payload with
    | .error _ => some system
    | .ok place => do
      let own ← system.supervisors[place]?
      some { system.put place { own with mailbox := own.mailbox ++ [system.calls.length] } with
        calls := system.calls ++ [⟨place, operation, payload⟩] }
  | .serve plugin => do
    let own ← system.supervisors[plugin]?
    match own.current, own.mailbox with
    | none, call :: rest => some (system.put plugin { own with current := some (call, 0), mailbox := rest })
    | _, _ => none
  | .start plugin answers => do
    let own ← system.supervisors[plugin]?
    match own.current, own.client with
    | some (call, _), none => match own.start sha256 answers with
      | (.ok _, own) => some (system.put plugin own)
      | (.error error, own) => some (system.reply plugin call own (.error error))
    | _, _ => none
  | .deliver plugin reached outcome => do
    let own ← system.supervisors[plugin]?
    match own.current, own.client with
    | some (call, restarts), some process => do
      let request ← system.calls[call]?
      let system := if reached ∧ own.alive then
          { system with deliveries := system.deliveries ++ [⟨call, plugin, process, request.operation⟩] }
        else system
      some (settle system plugin call restarts own outcome)
    | _, _ => none
  | .crash plugin => do
    let own ← system.supervisors[plugin]?
    some (system.put plugin { own with alive := false })

end Step

end HologramLive.Plugin
