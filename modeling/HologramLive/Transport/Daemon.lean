import HologramLive.Transport.Routes

namespace HologramLive.Transport
open Lib.Result

structure ApiError where
  code : String
  message : String
  deriving DecidableEq

def ApiError.of (error : LiveError) : ApiError := ⟨error.code, error.message⟩

structure AuditEvent where
  timestampMillis : Nat
  principal : String
  operation : String
  resource : Option String
  outcome : String

def localAuthorizer : Principal → String → OperationKind → Except LiveError Unit :=
  fun _ _ _ => .ok ()

/-- What the daemon does that others can see: it consults the authorizer, calls its
services and writes to the audit log. -/
inductive Event (Reply : Type) where
  | consulted (principal : Principal) (operation : String) (kind : OperationKind)
    (verdict : Except LiveError Unit)
  | served (call : ServiceCall) (result : Except LiveError Reply)
  | recorded (event : AuditEvent)

/-- The running daemon: the state of its services, whether the audit log still takes
events, the clock, and what was done so far. -/
structure Daemon (σ Reply : Type) where
  services : σ
  auditing : Bool
  now : Nat
  trace : List (Event Reply) := []

/-- How a daemon was configured and built. -/
structure AppState (σ Reply : Type) where
  authRequired : Bool
  authToken : Option String
  modules : List ModuleDescriptor
  pluginOperations : List String
  authorize : Principal → String → OperationKind → Except LiveError Unit
  call : ServiceCall → σ → Except LiveError Reply × σ
  toStr : Bytes → Except String String

namespace AppState
variable {σ Reply : Type}

/-- The principal behind an `Authorization` value. -/
def principalFrom (state : AppState σ Reply) (authorization : Option Bytes) :
    Except LiveError Principal :=
  if !state.authRequired then .ok { id := "local-user", scope := "local" }
  else
    match state.authToken with
    | none => .error (.authentication "server authentication token is unavailable")
    | some configured =>
      match authorization.bind fun value => (state.toStr value).toOption with
      | none => .error (.authentication "missing bearer token")
      | some value =>
        if "Bearer ".toList.isPrefixOf value.toList then
          if configured.toList = value.toList.drop "Bearer ".toList.length then
            .ok { id := "token-principal", scope := "default" }
          else .error (.authentication "invalid bearer token")
        else .error (.authentication "missing bearer token")

def supports (state : AppState σ Reply) (operation : String) : Bool :=
  state.modules.any fun enabled => enabled.operations.any fun declared => declared.id = operation

def pluginSupports (state : AppState σ Reply) (operation : String) : Bool :=
  operation ∈ state.pluginOperations

def consult (state : AppState σ Reply) (principal : Principal) (operation : String)
    (kind : OperationKind) (daemon : Daemon σ Reply) : Except LiveError Unit × Daemon σ Reply :=
  let verdict := state.authorize principal operation kind
  (verdict, { daemon with
    trace := daemon.trace ++ [.consulted principal operation kind verdict] })

def serve (state : AppState σ Reply) (call : ServiceCall) (daemon : Daemon σ Reply) :
    Except LiveError Reply × Daemon σ Reply :=
  let (result, services) := state.call call daemon.services
  (result, { daemon with services, trace := daemon.trace ++ [.served call result] })

end AppState

/-- A failure to record is only logged. -/
def Daemon.record {σ Reply : Type} (daemon : Daemon σ Reply) (event : AuditEvent) :
    Daemon σ Reply :=
  if daemon.auditing then { daemon with trace := daemon.trace ++ [.recorded event] } else daemon

abbrev RpcResponse (Reply : Type) := Except ApiError Reply

def RpcResponse.outcome {Reply : Type} : RpcResponse Reply → String
  | .error error => s!"error:{error.code}"
  | .ok _ => "accepted"

/-- The status a failed request is answered with. -/
def httpStatus : LiveError → Nat
  | .authentication _ => 401
  | .authorization _ => 403
  | .notFound _ => 404
  | .conflict _ | .unknownCommitState _ => 409
  | .capability _ => 501
  | .config _ | .protocol _ | .invalidHolo _ => 400
  | .io _ | .transport _ => 500

inductive Response (Reply : Type) where
  | rpc (response : RpcResponse Reply)
  | unauthenticated (message : String)
  | noRoute
  | rejected
  | failed (status : Nat) (error : ApiError)
  | answered (status : Nat) (reply : Reply)

namespace AppState
variable {σ Reply : Type} (state : AppState σ Reply)

def dispatchAuthorized (principal : Principal) (request : RpcRequest) (daemon : Daemon σ Reply) :
    RpcResponse Reply × Daemon σ Reply :=
  let (result, daemon) := state.serve (request.call principal) daemon
  (result.mapError .of, daemon)

def dispatch (principal : Principal) (request : RpcRequest) (daemon : Daemon σ Reply) :
    RpcResponse Reply × Daemon σ Reply :=
  let operation := request.operation
  let kind := request.kind
  if !state.supports operation && !state.pluginSupports operation then
    (.error (.of (.capability s!"operation {operation} is not provided by this server")), daemon)
  else
    let (verdict, daemon) := state.consult principal operation kind daemon
    match verdict with
    | .error error => (.error (.of error), daemon)
    | .ok () =>
      let resource := resourceFor request
      let (response, daemon) := state.dispatchAuthorized principal request daemon
      if kind ≠ .read then
        (response, daemon.record
          ⟨daemon.now, principal.id, operation, resource, RpcResponse.outcome response⟩)
      else (response, daemon)

/-- A gRPC call: authentication, then dispatch. -/
def grpcCall (authorization : Option Bytes) (request : RpcRequest) (daemon : Daemon σ Reply) :
    Response Reply × Daemon σ Reply :=
  match state.principalFrom authorization with
  | .error error => (.unauthenticated error.message, daemon)
  | .ok principal =>
    let (response, daemon) := state.dispatch principal request daemon
    (.rpc response, daemon)

def mounts (owner : ModuleDescriptor) : Bool :=
  state.modules.any fun enabled => enabled.id = owner.id

/-- A request on a mounted route: authentication, extraction, then the handler. -/
def httpRequest (authorization : Option Bytes) (request : HttpRequest) (daemon : Daemon σ Reply) :
    Response Reply × Daemon σ Reply :=
  if state.mounts request.mountedBy then
    match state.principalFrom authorization with
    | .error error =>
      (.failed (match error with | .authorization _ => 403 | _ => 401) (.of error), daemon)
    | .ok principal =>
      match Handlers.handle state.toStr principal request with
      | none => (.rejected, daemon)
      | some (.error error) => (.failed (httpStatus error) (.of error), daemon)
      | some (.ok (call, status)) =>
        match state.serve call daemon with
        | (.ok reply, daemon) => (.answered status reply, daemon)
        | (.error error, daemon) => (.failed (httpStatus error) (.of error), daemon)
  else (.noRoute, daemon)

end AppState

/-- A request as a transport hands it to the daemon. -/
inductive Delivery where
  | grpc (authorization : Option Bytes) (request : RpcRequest)
  | http (authorization : Option Bytes) (request : HttpRequest)

namespace Delivery

def authorization : Delivery → Option Bytes
  | .grpc authorization _ | .http authorization _ => authorization

def operation : Delivery → String
  | .grpc _ request => request.operation
  | .http _ request => request.operation

def kind : Delivery → OperationKind
  | .grpc _ request => request.kind
  | .http _ request => request.kind

end Delivery

def AppState.deliver {σ Reply : Type} (state : AppState σ Reply) (delivery : Delivery)
    (daemon : Daemon σ Reply) : Response Reply × Daemon σ Reply :=
  match delivery with
  | .grpc authorization request => state.grpcCall authorization request daemon
  | .http authorization request => state.httpRequest authorization request daemon

end HologramLive.Transport
