import HologramLive.Transport.Daemon

namespace HologramLive.Client
open Transport

/-- The codes a gRPC call can end with. -/
inductive Code where
  | ok
  | cancelled
  | unknown
  | invalidArgument
  | deadlineExceeded
  | notFound
  | alreadyExists
  | permissionDenied
  | resourceExhausted
  | failedPrecondition
  | aborted
  | outOfRange
  | unimplemented
  | internal
  | unavailable
  | dataLoss
  | unauthenticated
  deriving DecidableEq

structure Status where
  code : Code
  message : String

structure CapabilityManifest where
  protocolVersion : Nat
  operations : List OperationDescriptor
  deriving DecidableEq

def CapabilityManifest.provides (manifest : CapabilityManifest) (operation : String) : Bool :=
  manifest.operations.any fun item => item.id = operation

/-- What a daemon answers. Only manifests and errors matter to routing. -/
inductive RpcResponse (ρ : Type) where
  | capabilityManifest (manifest : CapabilityManifest)
  | error (error : ApiError)
  | other (value : ρ)
  deriving DecidableEq

/-- What comes back for a request that was sent. -/
inductive Reply (ρ : Type) where
  | status (status : Status)
  | undecodable (error : String)
  | response (response : RpcResponse ρ)

structure Endpoint where
  name : String
  url : String
  token : Option String

/-- An endpoint, what it answers and whether it applies an operation it is sent. -/
structure Site (ρ : Type) where
  endpoint : Endpoint
  handshake : Reply ρ
  dispatch : Reply ρ
  applies : Bool

def ofApiError (error : ApiError) : LiveError :=
  if error.code = "LIVE_AUTHENTICATION_FAILED" then .authentication error.message
  else if error.code = "LIVE_AUTHORIZATION_DENIED" then .authorization error.message
  else if error.code = "LIVE_CAPABILITY_MISSING" then .capability error.message
  else if error.code = "LIVE_NOT_FOUND" then .notFound error.message
  else if error.code = "LIVE_CONFLICT" then .conflict error.message
  else if error.code = "LIVE_HOLO_INVALID" then .invalidHolo error.message
  else if error.code = "LIVE_UNKNOWN_COMMIT_STATE" then .unknownCommitState error.message
  else .protocol s!"{error.code}: {error.message}"

def isSecurityError : LiveError → Bool
  | .authentication _ | .authorization _ => true
  | _ => false

def toAsciiLowercase (text : String) : String :=
  String.ofList (text.toList.map Char.toLower)

/-- The texts a status without a mapping is taken for a failure of the secure transport by. -/
def namesTransportSecurity (text : String) : Bool :=
  let lowercase := toAsciiLowercase text
  ObjectQuery.containsText lowercase "certificate" || ObjectQuery.containsText lowercase "tls" ||
    ObjectQuery.containsText lowercase "unknown issuer"

/-- The client with the texts it takes from other crates: a status as it is displayed, a
response as it is debugged, and why a bearer token makes no header value. -/
structure LiveClient (ρ : Type) where
  allowReadFallback : Bool
  display : Status → String
  debug : RpcResponse ρ → String
  bearer : String → Except String Unit

abbrev Manifests := List (String × CapabilityManifest)

structure RouteDecision where
  operation : String
  target : String
  endpoint : String
  reason : String

namespace LiveClient
variable {ρ : Type} (client : LiveClient ρ)

def mapGrpcStatus (status : Status) : LiveError :=
  match status.code with
  | .unauthenticated => .authentication status.message
  | .permissionDenied => .authorization status.message
  | .unimplemented => .capability status.message
  | .notFound => .notFound status.message
  | .failedPrecondition | .alreadyExists => .conflict status.message
  | .invalidArgument | .outOfRange => .protocol status.message
  | _ =>
    let message := client.display status
    if namesTransportSecurity message then
      .authentication s!"secure transport validation failed: {message}"
    else .transport message

/-- A token that makes no header value keeps the request from being sent. -/
def sendable (endpoint : Endpoint) : Except LiveError Unit :=
  match endpoint.token with
  | none => .ok ()
  | some token =>
    (client.bearer token).mapError fun error => .authentication s!"invalid token: {error}"

def received : Reply ρ → Except LiveError (RpcResponse ρ)
  | .status status => .error (client.mapGrpcStatus status)
  | .undecodable error => .error (.protocol error)
  | .response response => .ok response

def sendDirect (endpoint : Endpoint) (reply : Reply ρ) : Except LiveError (RpcResponse ρ) := do
  client.sendable endpoint
  client.received reply

def handshake (site : Site ρ) (manifests : Manifests) :
    Except LiveError CapabilityManifest × Manifests :=
  match manifests.lookup site.endpoint.url with
  | some manifest => (.ok manifest, manifests)
  | none =>
    match client.sendDirect site.endpoint site.handshake with
    | .error error => (.error error, manifests)
    | .ok (.capabilityManifest manifest) =>
      (.ok manifest, (site.endpoint.url, manifest) :: manifests)
    | .ok (.error error) => (.error (ofApiError error), manifests)
    | .ok other =>
      (.error (.protocol s!"{site.endpoint.name} returned {client.debug other} to handshake"),
        manifests)

end LiveClient

/-- What a call does at an endpoint: it asks for its manifest or dispatches the operation,
each with how that came out for the client. What was sent was answered, and applied or not. -/
inductive Event (ρ : Type) where
  | handshook (place : Nat) (result : Except LiveError CapabilityManifest)
  | dispatched (place : Nat) (sent : Option (Reply ρ × Bool))
    (result : Except LiveError (RpcResponse ρ))

/-- What the loop does after an endpoint: it returns, or goes on with a note. -/
inductive Verdict (ρ : Type) where
  | returned (result : Except LiveError (RpcResponse ρ))
  | missing (name : String)
  | failed (report : String)

structure Visit (ρ : Type) where
  events : List (Event ρ)
  manifests : Manifests
  verdict : Verdict ρ

/-- A call's result, with what it remembers and what it did. -/
structure Outcome (ρ : Type) where
  result : Except LiveError (RpcResponse ρ)
  manifests : Manifests
  trace : List (Event ρ)

namespace LiveClient
variable {ρ : Type} (client : LiveClient ρ) (request : RpcRequest)

/-- Send the operation. Only a read may go on to the next endpoint. -/
def dispatch (place : Nat) (site : Site ρ) : Event ρ × Verdict ρ :=
  let name := site.endpoint.name
  let result := client.sendDirect site.endpoint site.dispatch
  let sent := (client.sendable site.endpoint).toOption.map fun _ => (site.dispatch, site.applies)
  (.dispatched place sent result,
    match result with
    | .ok (.error error) => .returned (.error (ofApiError error))
    | .ok response => .returned (.ok response)
    | .error error =>
      if isSecurityError error then .returned (.error error)
      else if request.kind ≠ .read then
        let operation := request.operation
        .returned (.error (.unknownCommitState
          s!"{name} may have received mutation {operation}: {error.message}"))
      else if !client.allowReadFallback || isSecurityError error then .returned (.error error)
      else .failed s!"{name}: {error.message}")

/-- The body of the loop over the endpoints. -/
def visit (place : Nat) (site : Site ρ) (manifests : Manifests) : Visit ρ :=
  let name := site.endpoint.name
  if request = .handshake then
    let (event, verdict) := client.dispatch request place site
    ⟨[event], manifests, verdict⟩
  else
    let (result, manifests) := client.handshake site manifests
    let shaken := .handshook place result
    match result with
    | .ok manifest =>
      if manifest.provides request.operation then
        let (event, verdict) := client.dispatch request place site
        ⟨[shaken, event], manifests, verdict⟩
      else ⟨[shaken], manifests, .missing name⟩
    | .error error =>
      if isSecurityError error then ⟨[shaken], manifests, .returned (.error error)⟩
      else if request.kind ≠ .read || !client.allowReadFallback then
        ⟨[shaken], manifests, .returned (.error error)⟩
      else ⟨[shaken], manifests, .failed s!"{name} handshake: {error.message}"⟩

def callFrom : Nat → List (Site ρ) → List String → List String → Manifests → Outcome ρ
  | _, [], misses, errors, manifests =>
    let operation := request.operation
    if misses ≠ [] then
      let names := ", ".intercalate misses
      ⟨.error (.capability s!"no configured target provides {operation}; missing on {names}"),
        manifests, []⟩
    else
      let reports := "; ".intercalate errors
      ⟨.error (.transport s!"all configured targets failed: {reports}"), manifests, []⟩
  | place, site :: rest, misses, errors, manifests =>
    let visited := client.visit request place site manifests
    match visited.verdict with
    | .returned result => ⟨result, visited.manifests, visited.events⟩
    | .missing name =>
      let later := callFrom (place + 1) rest (misses ++ [name]) errors visited.manifests
      { later with trace := visited.events ++ later.trace }
    | .failed report =>
      let later := callFrom (place + 1) rest misses (errors ++ [report]) visited.manifests
      { later with trace := visited.events ++ later.trace }

def call (sites : List (Site ρ)) (manifests : Manifests) : Outcome ρ :=
  client.callFrom request 0 sites [] [] manifests

def explainFrom : List (Site ρ) → List String → Manifests → Except LiveError RouteDecision
  | [], failures, _ =>
    let operation := request.operation
    let reports := "; ".intercalate failures
    .error (.capability s!"no configured target can serve {operation}: {reports}")
  | site :: rest, failures, manifests =>
    let operation := request.operation
    let name := site.endpoint.name
    match client.handshake site manifests with
    | (.ok manifest, manifests) =>
      if manifest.provides operation then
        .ok {
          operation
          target := name
          endpoint := site.endpoint.url
          reason := s!"{name} advertises operation {operation} under native protocol " ++
            s!"v{manifest.protocolVersion}" }
      else explainFrom rest (failures ++ [s!"{name} does not advertise {operation}"]) manifests
    | (.error error, manifests) =>
      if isSecurityError error then .error error
      else explainFrom rest (failures ++ [s!"{name}: {error.message}"]) manifests

/-- Which endpoint would receive an operation, without sending it. -/
def explainRoute (sites : List (Site ρ)) (manifests : Manifests) : Except LiveError RouteDecision :=
  client.explainFrom request sites [] manifests

end LiveClient
end HologramLive.Client
