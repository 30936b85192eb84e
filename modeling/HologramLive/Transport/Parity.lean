import HologramLive.Transport.Daemon

namespace HologramLive.Transport
open Lib.Result

variable {σ Reply : Type} (state : AppState σ Reply)

/-- The events a delivery adds. -/
def AppState.events (delivery : Delivery) (daemon : Daemon σ Reply) : List (Event Reply) :=
  (state.deliver delivery { daemon with trace := [] }).2.trace

def Event.audit : Event Reply → Option AuditEvent
  | .recorded event => some event
  | _ => none

@[simp] theorem Event.audit_consulted (principal : Principal) (operation : String)
    (kind : OperationKind) (verdict : Except LiveError Unit) :
    (Event.consulted principal operation kind verdict : Event Reply).audit = none := rfl

@[simp] theorem Event.audit_served (call : ServiceCall) (result : Except LiveError Reply) :
    (Event.served call result).audit = none := rfl

@[simp] theorem Event.audit_recorded (event : AuditEvent) :
    (Event.recorded event : Event Reply).audit = some event := rfl

/-- What a transport owes for one delivery: nothing changes unless the authorizer said so
before, for that principal and operation, and what was handled and is no read is audited
once, with its outcome. -/
structure Lawful (delivery : Delivery) (events : List (Event Reply)) : Prop where
  mediated : ∀ before call result after, events = before ++ Event.served call result :: after →
    call.changes = true → ∃ principal, state.principalFrom delivery.authorization = .ok principal ∧
      Event.consulted principal delivery.operation delivery.kind (.ok ()) ∈ before
  audited : delivery.kind ≠ .read → ∀ call result, .served call result ∈ events →
    ∃ principal event, state.principalFrom delivery.authorization = .ok principal ∧
      events.filterMap Event.audit = [event] ∧ event.principal = principal.id ∧
      event.operation = delivery.operation ∧
      event.outcome = RpcResponse.outcome (result.mapError ApiError.of)

/-- An RPC request that passes every check on its way to the services. -/
def AppState.admits (authorization : Option Bytes) (request : RpcRequest) : Prop :=
  ∃ principal, state.principalFrom authorization = .ok principal ∧
    (state.supports request.operation = true ∨ state.pluginSupports request.operation = true) ∧
    state.authorize principal request.operation request.kind = .ok ()

/-- An HTTP request that reaches its handler with its inputs in order. -/
def AppState.reaches (authorization : Option Bytes) (request : HttpRequest) : Prop :=
  state.mounts request.mountedBy = true ∧ ∃ principal call status,
    state.principalFrom authorization = .ok principal ∧
      Handlers.handle state.toStr principal request = some (.ok (call, status))

/-- Deliveries that keep to the law: reads, whatever is turned away on its way, and calls by
gRPC while the audit log takes events. -/
def AppState.Guarded (daemon : Daemon σ Reply) : Delivery → Prop
  | .grpc authorization request =>
    request.kind = .read ∨ daemon.auditing = true ∨ ¬ state.admits authorization request
  | .http authorization request => request.kind = .read ∨ ¬ state.reaches authorization request

section Grpc
variable {state} {daemon : Daemon σ Reply}

/-- Dispatch refuses an operation nobody provides, or one the authorizer denies; else it
makes the one call the request stands for and audits what is no read. -/
theorem dispatch_cases (principal : Principal) (request : RpcRequest) :
    ((state.supports request.operation = false ∧ state.pluginSupports request.operation = false) ∧
      (state.dispatch principal request daemon).2 = daemon) ∨
    (∃ error, state.authorize principal request.operation request.kind = .error error ∧
      (state.dispatch principal request daemon).2.trace = daemon.trace ++
        [Event.consulted principal request.operation request.kind (.error error)]) ∨
    ((state.supports request.operation = true ∨ state.pluginSupports request.operation = true) ∧
      state.authorize principal request.operation request.kind = .ok () ∧ ∃ result,
      (state.dispatch principal request daemon).2.trace = daemon.trace ++
        ([Event.consulted principal request.operation request.kind (.ok ()),
          .served (request.call principal) result] ++
        if request.kind ≠ .read ∧ daemon.auditing = true then
          [Event.recorded ⟨daemon.now, principal.id, request.operation, resourceFor request,
            RpcResponse.outcome (result.mapError ApiError.of)⟩]
        else [])) := by
  unfold AppState.dispatch
  dsimp only
  split
  · rename_i hunsupported
    exact .inl ⟨by simpa using hunsupported, rfl⟩
  · rename_i hsupported
    have hsupported : state.supports request.operation = true ∨
        state.pluginSupports request.operation = true := by
      by_contra hneither
      simp_all
    cases hverdict : state.authorize principal request.operation request.kind with
    | error error =>
      refine .inr (.inl ⟨error, rfl, ?_⟩)
      simp [AppState.consult, hverdict]
    | ok permitted =>
      refine .inr (.inr ⟨hsupported, rfl, (state.call (request.call principal)
        daemon.services).1, ?_⟩)
      simp only [AppState.consult, hverdict, AppState.dispatchAuthorized, AppState.serve]
      by_cases hread : request.kind = .read
      · simp [hread]
      · cases daemon.auditing <;> simp [hread, Daemon.record]

end Grpc

end HologramLive.Transport
