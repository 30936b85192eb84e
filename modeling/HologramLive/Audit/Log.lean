import HologramLive.Capability
import HologramLive.Lib.Program

/-! The audit log: an actor that appends events to a file, a line each, and what it answers
those who ask it. -/

namespace HologramLive.Audit
open Lib

structure AuditEvent where
  timestampMillis : Nat
  principal : String
  operation : String
  resource : Option String
  outcome : String
  capabilityDecision : Option CapabilityDecision

/-- `AuditEvent::capability_decision`. -/
def AuditEvent.ofDecision (now : Nat) (principal : String) (decision : CapabilityDecision) :
    AuditEvent where
  timestampMillis := now
  principal := principal
  operation := "holo.capability.authorize"
  resource := some decision.applicationKappa
  outcome := decision.outcome
  capabilityDecision := some decision

/-- What a message has done to the writer: a line of its own, a part of one, or a flush. -/
inductive Entry where
  | line (bytes : Bytes)
  | torn (bytes : Bytes)
  | flushed

structure AuditActor where
  writer : List Entry := []

/-- What the writer answers. A write that fails may have come as far as some of the bytes. -/
abbrev Written := Except (String × Nat) Unit

namespace AuditActor
variable (toVec : AuditEvent → Except String Bytes)

def record (actor : AuditActor) (event : AuditEvent) (written : Written) :
    Except String Unit × AuditActor :=
  match toVec event with
  | .error error => (.error error, actor)
  | .ok encoded =>
    let encoded := encoded ++ [0x0a]
    match written with
    | .ok () => (.ok (), { actor with writer := actor.writer ++ [.line encoded] })
    | .error (error, count) =>
      (.error error, { actor with writer := actor.writer ++ [.torn (encoded.take count)] })

def flush (actor : AuditActor) (written : Written) : Except String Unit × AuditActor :=
  match written with
  | .ok () => (.ok (), { actor with writer := actor.writer ++ [.flushed] })
  | .error (error, _) => (.error error, actor)

end AuditActor

/-- A reading of the clock, or a message to the actor. -/
inductive AuditCall : Type → Type where
  | now : AuditCall Nat
  | record (event : AuditEvent) : AuditCall (Except String Unit)
  | flush : AuditCall (Except String Unit)

/-- How one call goes: the time, what the messages of others have done by then, whether the
message arrives, and what the writer answers. -/
structure Turn where
  now : Nat := 0
  others : List Entry := []
  delivered : Except String Unit := .ok ()
  written : Written := .ok ()

def serve (toVec : AuditEvent → Except String Bytes) :
    ∀ {β : Type}, AuditCall β → Turn → AuditActor → β × AuditActor
  | _, .now, turn, actor => (turn.now, actor)
  | _, .record event, turn, actor =>
    let actor := { actor with writer := actor.writer ++ turn.others }
    match turn.delivered with
    | .error error => (.error error, actor)
    | .ok () => actor.record toVec event turn.written
  | _, .flush, turn, actor =>
    let actor := { actor with writer := actor.writer ++ turn.others }
    match turn.delivered with
    | .error error => (.error error, actor)
    | .ok () => actor.flush turn.written

abbrev AuditProgram := Program AuditCall LiveError

namespace AuditLog

def record (event : AuditEvent) : AuditProgram Unit := do
  let reply ← .perform (.record event)
  .ofExcept (reply.mapError fun error => .conflict s!"write audit event: {error}")

def flush : AuditProgram Unit := do
  let reply ← .perform .flush
  .ofExcept (reply.mapError fun error => .conflict s!"flush audit log: {error}")

end AuditLog

/-- A message that was answered well has left its entry, after what was there. -/
theorem serve_record_ok {toVec : AuditEvent → Except String Bytes} {event : AuditEvent} {turn : Turn}
    {actor : AuditActor} (h : (serve toVec (.record event) turn actor).1 = .ok ()) :
    ∃ encoded, toVec event = .ok encoded ∧ (serve toVec (.record event) turn actor).2.writer =
      actor.writer ++ (turn.others ++ [Entry.line (encoded ++ [0x0a])]) := by
  simp only [serve] at h ⊢
  cases hdelivered : turn.delivered with
  | error error =>
    rw [hdelivered] at h
    cases h
  | ok _ =>
    rw [hdelivered] at h
    simp only [AuditActor.record] at h ⊢
    cases hencoded : toVec event with
    | error error =>
      rw [hencoded] at h
      cases h
    | ok encoded =>
      rw [hencoded] at h
      cases hwritten : turn.written with
      | error failure =>
        rw [hwritten] at h
        cases h
      | ok _ => exact ⟨encoded, rfl, List.append_assoc ..⟩

theorem serve_flush_ok {toVec : AuditEvent → Except String Bytes} {turn : Turn} {actor : AuditActor}
    (h : (serve toVec .flush turn actor).1 = .ok ()) :
    (serve toVec .flush turn actor).2.writer =
      actor.writer ++ (turn.others ++ [Entry.flushed]) := by
  simp only [serve] at h ⊢
  cases hdelivered : turn.delivered with
  | error error =>
    rw [hdelivered] at h
    cases h
  | ok _ =>
    rw [hdelivered] at h
    cases hwritten : turn.written with
    | error failure =>
      rw [hwritten] at h
      cases h
    | ok _ =>
      simp only [AuditActor.flush]
      exact List.append_assoc ..

end HologramLive.Audit
