import HologramLive.Audit.Log
import HologramLive.Plan.Attenuation

/-! Admission of a plan under audit: no application runs on decisions that were not written
down. -/

namespace HologramLive.Audit
open Lib Plan

/-- Every decision in order, up to the first that cannot be written. -/
def recordDecisions (principal : String) : List CapabilityDecision → AuditProgram Unit
  | [] => pure ()
  | decision :: rest => do
    let now ← .perform .now
    AuditLog.record (.ofDecision now principal decision)
    recordDecisions principal rest

/-- A denial is what it was; a failure of the audit ends what would have been granted. -/
def conclude : Except LiveError Grants → Except LiveError Unit → AuditProgram Grants
  | .error error, _ => .fail error
  | .ok _, .error error => .fail error
  | .ok grants, .ok () => .done grants

/-- With an audit log goes the principal it is kept for. -/
def admitWithAudit (upstream : Upstream) (plan : ApplicationPlan) (effectiveGrant : EffectiveGrant)
    (audit : Option String) : AuditProgram Grants := do
  let admission := plan.admittedGrantsWith upstream effectiveGrant
  let auditResult ← match audit with
    | some principal => Program.attempt do
      recordDecisions principal admission.observed
      AuditLog.flush
    | none => pure (.ok ())
  conclude admission.result auditResult

/-- The lines of some decisions stand in order among what was written since, and a flush
comes after them. -/
def Recorded (toVec : AuditEvent → Except String Bytes) (principal : String)
    (decisions : List CapabilityDecision) (before after : AuditActor) : Prop :=
  ∃ events lines added,
    List.Forall₂ (fun decision event => ∃ now, event = .ofDecision now principal decision)
      decisions events ∧
    List.Forall₂ (fun event line => ∃ encoded, toVec event = .ok encoded ∧
      line = Entry.line (encoded ++ [0x0a])) events lines ∧
    after.writer = before.writer ++ added ∧ (lines ++ [Entry.flushed]).Sublist added

/-! ### The decisions of an admission -/

theorem allowed_ne_denied : decisionOutcome true ≠ decisionOutcome false := by
  decide

section Decisions
variable {upstream : Upstream}

/-- What an admission was observed to decide goes with how it ended. -/
structure Agrees (count : Nat) (admission : Admission) : Prop where
  allowed : ∀ grants, admission.result = .ok grants → admission.observed.length = count ∧
    ∀ decision ∈ admission.observed, decision.outcome = decisionOutcome true
  denied : ∀ decision ∈ admission.observed, decision.outcome = decisionOutcome false →
    ∃ text, admission.result = .error (.authorization text)

theorem Agrees.refused {count : Nat} (observed : List CapabilityDecision) (text : String) :
    Agrees count ⟨observed, .error (.authorization text)⟩ :=
  ⟨nofun, fun _ _ _ => ⟨text, rfl⟩⟩

theorem forall_mem_concat {observed : List CapabilityDecision} {decision : CapabilityDecision}
    (h : ∀ decision ∈ observed, decision.outcome = decisionOutcome true)
    (hdecision : decision.outcome = decisionOutcome true) :
    ∀ other ∈ observed ++ [decision], other.outcome = decisionOutcome true := by
  intro other hother
  rcases List.mem_append.mp hother with hold | hnew
  · exact h other hold
  · rwa [List.mem_singleton.mp hnew]

theorem admitChildren_agrees (children : List ResolvedChild) (grants : Grants)
    (observed : List CapabilityDecision)
    (h : ∀ decision ∈ observed, decision.outcome = decisionOutcome true) :
    Agrees (observed.length + 2 * children.length)
      (admitChildren upstream children grants observed) := by
  induction children generalizing grants observed with
  | nil =>
    refine ⟨fun _ _ => ⟨rfl, h⟩, fun decision hdecision hdenied => ?_⟩
    exact absurd ((h decision hdecision).symm.trans hdenied) allowed_ne_denied
  | cons child rest ih =>
    unfold admitChildren
    cases hparent : grants.lookup child.parentApplicationIndex with
    | none =>
      refine ⟨by simp, fun decision hdecision hdenied => ?_⟩
      exact absurd ((h decision hdecision).symm.trans hdenied) allowed_ne_denied
    | some parentGrant =>
      by_cases hdelegation : upstream.admits parentGrant.capabilities
          child.delegatedCapabilities.capabilities = true
      · by_cases hrequest : upstream.admits child.delegatedCapabilities.capabilities
            child.requestedCapabilities.capabilities = true
        · have hallowed : ∀ decision ∈ observed ++ [CapabilityDecision.childDelegation
              child.parentApplicationKappa child.applicationKappa child.delegatedCapabilities
              parentGrant true] ++ [CapabilityDecision.applicationRequest child.applicationKappa
              (some child.parentApplicationKappa) child.requestedCapabilities
              (.fromDelegation child.delegatedCapabilities) true],
              decision.outcome = decisionOutcome true :=
            forall_mem_concat (forall_mem_concat h rfl) rfl
          have hnext := ih (Grants.insert grants child.applicationIndex
            (.fromDelegation child.delegatedCapabilities)) _ hallowed
          have hcount : observed.length + 1 + 1 + 2 * rest.length =
              observed.length + 2 * (rest.length + 1) := by omega
          rw [List.length_append, List.length_append, List.length_singleton, List.length_singleton,
            hcount] at hnext
          simpa [authorizeChildDelegation, hdelegation, hrequest,
            EffectiveGrant.fromDelegation] using hnext
        · rw [Bool.not_eq_true] at hrequest
          simp only [authorizeChildDelegation, hdelegation, EffectiveGrant.fromDelegation, hrequest]
          exact .refused _ _
      · rw [Bool.not_eq_true] at hdelegation
        simp only [authorizeChildDelegation, hdelegation]
        exact .refused _ _

theorem admittedGrantsWith_agrees (plan : ApplicationPlan) (effectiveGrant : EffectiveGrant) :
    Agrees (1 + 2 * plan.children.length) (plan.admittedGrantsWith upstream effectiveGrant) := by
  unfold ApplicationPlan.admittedGrantsWith
  by_cases hroot : upstream.admits effectiveGrant.capabilities
      plan.requestedCapabilities.capabilities = true
  · have hallowed : ∀ decision ∈ [CapabilityDecision.applicationRequest
        plan.identity.applicationKappa none plan.requestedCapabilities effectiveGrant true],
        decision.outcome = decisionOutcome true :=
      forall_mem_concat (List.forall_mem_nil _) rfl
    have hchildren := @admitChildren_agrees upstream plan.children [(0, effectiveGrant)] _ hallowed
    simpa [EffectiveGrant.authorize, hroot] using hchildren
  · rw [Bool.not_eq_true] at hroot
    simp only [EffectiveGrant.authorize, hroot]
    exact .refused _ _

end Decisions

/-! ### The decisions on record -/

section Record
variable {toVec : AuditEvent → Except String Bytes} {principal : String}
  {decisions : List CapabilityDecision} {before after : AuditActor}

/-- The same, before the flush. -/
def Appended (toVec : AuditEvent → Except String Bytes) (principal : String)
    (decisions : List CapabilityDecision) (before after : AuditActor) : Prop :=
  ∃ events lines added,
    List.Forall₂ (fun decision event => ∃ now, event = .ofDecision now principal decision)
      decisions events ∧
    List.Forall₂ (fun event line => ∃ encoded, toVec event = .ok encoded ∧
      line = Entry.line (encoded ++ [0x0a])) events lines ∧
    after.writer = before.writer ++ added ∧ lines.Sublist added

theorem record_ensures (event : AuditEvent) (before : AuditActor) :
    Program.Ensures (serve toVec) (fun _ => True) (fun _ => True)
      (fun result after => result = .ok () → ∃ encoded others, toVec event = .ok encoded ∧
        after.writer = before.writer ++ (others ++ [Entry.line (encoded ++ [0x0a])]))
      (AuditLog.record event) before := by
  refine ⟨trivial, fun turn _ => ?_⟩
  refine .known trivial fun hresult => ?_
  have hreply : (serve toVec (.record event) turn before).1 = .ok () := Result.mapError_ok.mp hresult
  obtain ⟨encoded, hencoded, hwriter⟩ := serve_record_ok hreply
  exact ⟨encoded, turn.others, hencoded, hwriter⟩

theorem flush_ensures (before : AuditActor) :
    Program.Ensures (serve toVec) (fun _ => True) (fun _ => True)
      (fun result after => result = .ok () → ∃ others,
        after.writer = before.writer ++ (others ++ [Entry.flushed]))
      AuditLog.flush before := by
  refine ⟨trivial, fun turn _ => ?_⟩
  refine .known trivial fun hresult => ?_
  have hreply : (serve toVec .flush turn before).1 = .ok () := Result.mapError_ok.mp hresult
  exact ⟨turn.others, serve_flush_ok hreply⟩

theorem recordDecisions_ensures (toVec : AuditEvent → Except String Bytes) (principal : String)
    (decisions : List CapabilityDecision) (before : AuditActor) :
    Program.Ensures (serve toVec) (fun _ => True) (fun _ => True)
      (fun result after => result = .ok () → Appended toVec principal decisions before after)
      (recordDecisions principal decisions) before := by
  induction decisions generalizing before with
  | nil => exact ⟨trivial, fun _ => ⟨[], [], [], .nil, .nil, (List.append_nil _).symm, .slnil⟩⟩
  | cons decision rest ih =>
    refine ⟨trivial, fun clock _ => ?_⟩
    refine (record_ensures _ before).bind _ ?_ (fun _ _ _ _ => nofun)
    intro value next _ hentry
    obtain ⟨encoded, others, hencoded, hwriter⟩ := hentry rfl
    refine (ih next).mono (fun _ _ => trivial) ?_
    intro result after _ happended hresult
    obtain ⟨events, lines, added, hevents, hlines, hafter, hsublist⟩ := happended hresult
    refine ⟨_ :: events, _ :: lines, others ++ [Entry.line (encoded ++ [0x0a])] ++ added,
      .cons ⟨clock.now, rfl⟩ hevents, .cons ⟨encoded, hencoded, rfl⟩ hlines, ?_, ?_⟩
    · rw [hafter, hwriter, List.append_assoc]
    · exact (List.sublist_append_right others [Entry.line (encoded ++ [0x0a])]).append hsublist

/-- A decision is only on record once what follows it was flushed. -/
theorem recorded_ensures (toVec : AuditEvent → Except String Bytes) (principal : String)
    (decisions : List CapabilityDecision) (before : AuditActor) :
    Program.Ensures (serve toVec) (fun _ => True) (fun _ => True)
      (fun result after => result = .ok () → Recorded toVec principal decisions before after)
      (recordDecisions principal decisions >>= fun _ => AuditLog.flush) before := by
  refine (recordDecisions_ensures toVec principal decisions before).bind _ ?_ (fun _ _ _ _ => nofun)
  intro value next _ happended
  obtain ⟨events, lines, added, hevents, hlines, hnext, hsublist⟩ := happended rfl
  refine (flush_ensures next).mono (fun _ _ => trivial) ?_
  intro result after _ hflushed hresult
  obtain ⟨others, hafter⟩ := hflushed hresult
  refine ⟨events, lines, added ++ (others ++ [Entry.flushed]), hevents, hlines, ?_, ?_⟩
  · rw [hafter, hnext, List.append_assoc]
  · exact hsublist.append (List.sublist_append_right ..)

theorem recordDecisions_within (principal : String) (decisions : List CapabilityDecision) :
    (recordDecisions principal decisions).Within (2 * decisions.length) := by
  induction decisions with
  | nil => trivial
  | cons decision rest ih =>
    refine ⟨2 * rest.length + 1, rfl, fun now => ?_⟩
    have hrecord : (AuditLog.record (.ofDecision now principal decision)).Within 1 :=
      ⟨0, rfl, fun reply => .ofExcept _⟩
    exact (hrecord.bind fun _ => ih).mono (Nat.le_of_eq (Nat.add_comm ..))

end Record

/-- What an admission under audit ends with, and what is in the log by then. -/
structure Audited (toVec : AuditEvent → Except String Bytes) (upstream : Upstream)
    (plan : ApplicationPlan) (effectiveGrant : EffectiveGrant) (audit : Option String)
    (before : AuditActor) (result : Except LiveError Grants) (after : AuditActor) : Prop where
  granted : ∀ grants, result = .ok grants →
    (plan.admittedGrantsWith upstream effectiveGrant).result = .ok grants
  whole : ∀ grants, result = .ok grants →
    (plan.admittedGrantsWith upstream effectiveGrant).observed.length = 1 + 2 * plan.children.length ∧
    (∀ decision ∈ (plan.admittedGrantsWith upstream effectiveGrant).observed,
      decision.outcome = decisionOutcome true) ∧
    (plan.Ordered → Permitted upstream plan effectiveGrant)
  recorded : ∀ grants, result = .ok grants → ∀ principal, audit = some principal →
    Recorded toVec principal (plan.admittedGrantsWith upstream effectiveGrant).observed before after
  refused : ∀ error, (plan.admittedGrantsWith upstream effectiveGrant).result = .error error →
    result = .error error
  denied : ∀ decision ∈ (plan.admittedGrantsWith upstream effectiveGrant).observed,
    decision.outcome = decisionOutcome false → ∃ text, result = .error (.authorization text)

section Audited
variable {toVec : AuditEvent → Except String Bytes} {upstream : Upstream} {plan : ApplicationPlan}
  {effectiveGrant : EffectiveGrant} {audit : Option String} {before after : AuditActor}

theorem audited_error {error : LiveError}
    (h : (plan.admittedGrantsWith upstream effectiveGrant).result = .error error) :
    Audited toVec upstream plan effectiveGrant audit before (.error error) after where
  granted := nofun
  whole := nofun
  recorded := nofun
  refused := fun other hother => by rw [← h, hother]
  denied := fun decision hdecision hdenied => by
    obtain ⟨text, htext⟩ := (admittedGrantsWith_agrees plan effectiveGrant).denied decision hdecision hdenied
    exact ⟨text, by rw [← h, htext]⟩

/-- No decision of a whole admission is a denial. -/
theorem no_denial {grants : Grants}
    (h : (plan.admittedGrantsWith upstream effectiveGrant).result = .ok grants) :
    ∀ decision ∈ (plan.admittedGrantsWith upstream effectiveGrant).observed,
      decision.outcome ≠ decisionOutcome false := by
  intro decision hdecision hdenied
  have hallowed := ((admittedGrantsWith_agrees plan effectiveGrant).allowed grants h).2
  exact allowed_ne_denied ((hallowed decision hdecision).symm.trans hdenied)

theorem audited_unrecorded {grants : Grants} (error : LiveError)
    (h : (plan.admittedGrantsWith upstream effectiveGrant).result = .ok grants) :
    Audited toVec upstream plan effectiveGrant audit before (.error error) after where
  granted := nofun
  whole := nofun
  recorded := nofun
  refused := fun other hother => by cases h.symm.trans hother
  denied := fun decision hdecision hdenied => absurd hdenied (no_denial h decision hdecision)

theorem audited_ok {grants : Grants}
    (h : (plan.admittedGrantsWith upstream effectiveGrant).result = .ok grants)
    (hrecorded : ∀ principal, audit = some principal → Recorded toVec principal
      (plan.admittedGrantsWith upstream effectiveGrant).observed before after) :
    Audited toVec upstream plan effectiveGrant audit before (.ok grants) after where
  granted := fun _ hsame => by rw [h, hsame]
  whole := fun _ _ => by
    obtain ⟨hlength, hallowed⟩ := (admittedGrantsWith_agrees plan effectiveGrant).allowed grants h
    refine ⟨hlength, hallowed, fun hordered => ?_⟩
    exact (permitted_iff hordered effectiveGrant).mpr (admittedGrantsWith_ok hordered h).1
  recorded := fun _ _ => hrecorded
  refused := fun other hother => by cases h.symm.trans hother
  denied := fun decision hdecision hdenied => absurd hdenied (no_denial h decision hdecision)

/-- The end of an admission, once the audit has come to its own. -/
theorem conclude_ensures (auditResult : Except LiveError Unit)
    (hrecorded : auditResult = .ok () → ∀ principal, audit = some principal → Recorded toVec principal
      (plan.admittedGrantsWith upstream effectiveGrant).observed before after) :
    Program.Ensures (serve toVec) (fun _ => True) (fun _ => True)
      (Audited toVec upstream plan effectiveGrant audit before)
      (conclude (plan.admittedGrantsWith upstream effectiveGrant).result auditResult) after := by
  cases hresult : (plan.admittedGrantsWith upstream effectiveGrant).result with
  | error error => exact ⟨trivial, audited_error hresult⟩
  | ok grants =>
    cases auditResult with
    | error error => exact ⟨trivial, audited_unrecorded error hresult⟩
    | ok _ => exact ⟨trivial, audited_ok hresult (hrecorded rfl)⟩

theorem admitWithAudit_ensures :
    Program.Ensures (serve toVec) (fun _ => True) (fun _ => True)
      (Audited toVec upstream plan effectiveGrant audit before)
      (admitWithAudit upstream plan effectiveGrant audit) before := by
  cases audit with
  | none => exact conclude_ensures (.ok ()) fun _ _ => (nomatch ·)
  | some principal =>
    refine (recorded_ensures toVec principal _ before).attempt.bind _ ?_ ?_
    · intro auditResult next _ hrecorded
      obtain ⟨value, hvalue, hrecords⟩ := hrecorded
      obtain rfl := Except.ok.inj hvalue
      refine conclude_ensures auditResult fun hok other hother => ?_
      obtain rfl := Option.some.inj hother
      exact hrecords hok
    · intro error next _ hrecorded
      obtain ⟨value, hvalue, -⟩ := hrecorded
      cases hvalue

theorem admitWithAudit_within :
    (admitWithAudit upstream plan effectiveGrant audit).Within
      (2 * (plan.admittedGrantsWith upstream effectiveGrant).observed.length + 1) := by
  have hconclude : ∀ auditResult : Except LiveError Unit,
      (conclude (plan.admittedGrantsWith upstream effectiveGrant).result auditResult).Within 0 := by
    intro auditResult
    unfold conclude
    split <;> trivial
  cases audit with
  | none => exact (hconclude (.ok ())).mono (Nat.zero_le _)
  | some principal =>
    have hflush : AuditLog.flush.Within 1 := ⟨0, rfl, fun reply => .ofExcept _⟩
    exact ((recordDecisions_within principal _).bind fun _ => hflush).attempt.bind hconclude

end Audited

/-- A plan is only admitted as a whole, and only once its decisions are on record. -/
theorem admission_audited (toVec : AuditEvent → Except String Bytes) (upstream : Upstream)
    (plan : ApplicationPlan) (effectiveGrant : EffectiveGrant) (audit : Option String)
    (before : AuditActor) (turns : List Turn) :
    let (program, after) := Program.advance (serve toVec) turns
      (admitWithAudit upstream plan effectiveGrant audit) before
    (∀ result, program.outcome = some result →
      Audited toVec upstream plan effectiveGrant audit before result after) ∧
    (2 * (plan.admittedGrantsWith upstream effectiveGrant).observed.length + 1 ≤ turns.length →
      program.outcome.isSome) :=
  ⟨(admitWithAudit_ensures.sound fun _ _ => trivial).2, admitWithAudit_within.ended⟩

end HologramLive.Audit
