import HologramLive.Client.Live

namespace HologramLive.Client
open Transport Lib.Result

variable {ρ : Type}

namespace Event

def place : Event ρ → Nat
  | .handshook place _ => place
  | .dispatched place _ _ => place

def isDispatch : Event ρ → Bool
  | .handshook _ _ => false
  | .dispatched _ _ _ => true

/-- The client saw an authentication or authorization failure. -/
def insecure : Event ρ → Bool
  | .handshook _ (.error error) => isSecurityError error
  | .dispatched _ _ (.error error) => isSecurityError error
  | .dispatched _ _ (.ok (.error error)) => isSecurityError (ofApiError error)
  | _ => false

end Event

/-- An error as the endpoint itself returned it. -/
def TypedError : Reply ρ → LiveError → Prop
  | .response (.error error), reported => reported = ofApiError error
  | .status ⟨.unauthenticated, message⟩, reported => reported = .authentication message
  | .status ⟨.permissionDenied, message⟩, reported => reported = .authorization message
  | _, _ => False

/-- An endpoint was asked for its manifest and does not provide the operation. -/
def Lacks (request : RpcRequest) (trace : List (Event ρ)) (place : Nat) : Prop :=
  ∃ manifest, .handshook place (.ok manifest) ∈ trace ∧ manifest.provides request.operation = false

/-- Where an endpoint applied the operation, an error says that it may have, or is the
one that endpoint returned. -/
def Commits (outcome : Outcome ρ) : Prop :=
  ∀ place reply answer, .dispatched place (some (reply, true)) answer ∈ outcome.trace →
    ∀ error, outcome.result = .error error →
      (∃ message, error = .unknownCommitState message) ∨ TypedError reply error

/-- What a call owes its caller. -/
structure Safe (client : LiveClient ρ) (request : RpcRequest) (outcome : Outcome ρ) : Prop where
  once : request.kind ≠ .read → (outcome.trace.filter Event.isDispatch).length ≤ 1
  committed : request.kind ≠ .read → Commits outcome
  secured : outcome.trace.Pairwise fun earlier _ => earlier.insecure = false
  fallback : request.kind = .read → ∀ earlier ∈ outcome.trace, ∀ later ∈ outcome.trace,
    earlier.place < later.place →
      client.allowReadFallback = true ∨ Lacks request outcome.trace earlier.place

def Code.mapped : Code → Bool
  | .unauthenticated | .permissionDenied | .unimplemented | .notFound | .failedPrecondition
  | .alreadyExists | .invalidArgument | .outOfRange => true
  | _ => false

namespace LiveClient
variable (client : LiveClient ρ) (request : RpcRequest)

/-- A status that its words alone make an authentication failure. -/
def Misread (reply : Reply ρ) : Prop :=
  ∃ status, reply = .status status ∧ status.code.mapped = false ∧
    namesTransportSecurity (client.display status) = true

/-- The first endpoint that provides the operation, all before it having answered without
it, applies it and answers with a status that is misread. -/
def Exposed : List (Site ρ) → Manifests → Prop
  | [], _ => False
  | site :: rest, manifests =>
    match client.handshake site manifests with
    | (.ok manifest, manifests) =>
      if manifest.provides request.operation then
        client.sendable site.endpoint = .ok () ∧ site.applies = true ∧
          client.Misread site.dispatch
      else Exposed rest manifests
    | (.error _, _) => False

variable {client request}

theorem received_insecure {reply : Reply ρ} {error : LiveError}
    (h : client.received reply = .error error) (hinsecure : isSecurityError error = true) :
    TypedError reply error ∨ client.Misread reply := by
  cases reply with
  | response response => cases h
  | undecodable message =>
    cases h
    cases hinsecure
  | status status =>
    obtain ⟨code, message⟩ := status
    obtain rfl := Except.error.inj h
    by_cases hmapped : code.mapped = true
    · left
      cases code <;> simp_all [Code.mapped, mapGrpcStatus, isSecurityError, TypedError]
    · right
      refine ⟨_, rfl, by simpa using hmapped, ?_⟩
      cases code <;> simp_all [Code.mapped, mapGrpcStatus] <;> split at hinsecure <;>
        simp_all [isSecurityError]

theorem Misread.received {reply : Reply ρ} (h : client.Misread reply) :
    ∃ message, client.received reply = .error (.authentication message) ∧
      ¬ TypedError reply (.authentication message) := by
  obtain ⟨⟨code, text⟩, rfl, hmapped, hnames⟩ := h
  refine ⟨s!"secure transport validation failed: {client.display ⟨code, text⟩}", ?_, ?_⟩
  · cases code <;> simp_all [Code.mapped, LiveClient.received, mapGrpcStatus]
  · cases code <;> simp_all [Code.mapped, TypedError]

/-- A call goes on after a dispatch only for a read that failed without a security error. -/
theorem dispatch_failed {place : Nat} {site : Site ρ} {report : String}
    (h : (client.dispatch request place site).2 = .failed report) :
    request.kind = .read ∧ client.allowReadFallback = true ∧
      (client.dispatch request place site).1.insecure = false := by
  unfold dispatch at h ⊢
  dsimp only at h ⊢
  split at h
  · cases h
  · cases h
  · rename_i error hresult
    rw [hresult]
    split at h
    · cases h
    · rename_i hsecure
      split at h
      · cases h
      · rename_i hread
        split at h
        · cases h
        · rename_i hfallback
          refine ⟨by simpa using hread, by simp_all, by simpa [Event.insecure] using hsecure⟩

theorem dispatch_not_missing (place : Nat) (site : Site ρ) (name : String) :
    (client.dispatch request place site).2 ≠ .missing name := by
  unfold dispatch
  dsimp only
  repeat' split
  all_goals nofun

/-- Whatever a mutation's dispatch comes to, the call returns it: the endpoint's own
error, a security error, or the warning that it may have been applied. -/
theorem dispatch_commits (hkind : request.kind ≠ .read) (place : Nat) (site : Site ρ) :
    ∃ answer, (client.dispatch request place site).2 = .returned answer ∧
      ∀ error, answer = .error error → (∃ message, error = .unknownCommitState message) ∨
        (∃ api, client.sendDirect site.endpoint site.dispatch = .ok (.error api) ∧
          error = ofApiError api) ∨
        (client.sendDirect site.endpoint site.dispatch = .error error ∧
          isSecurityError error = true) := by
  unfold dispatch
  dsimp only
  cases hresult : client.sendDirect site.endpoint site.dispatch with
  | ok response =>
    cases response with
    | capabilityManifest manifest => exact ⟨_, rfl, nofun⟩
    | other value => exact ⟨_, rfl, nofun⟩
    | error api =>
      refine ⟨_, rfl, ?_⟩
      rintro error ⟨⟩
      exact .inr (.inl ⟨api, rfl, rfl⟩)
  | error error =>
    by_cases hsecure : isSecurityError error = true
    · refine ⟨.error error, by simp [hsecure], ?_⟩
      rintro reported ⟨⟩
      exact .inr (.inr ⟨rfl, hsecure⟩)
    · simp only [hsecure, hkind, Bool.false_eq_true, ↓reduceIte, ne_eq, not_false_eq_true]
      refine ⟨_, rfl, ?_⟩
      rintro reported ⟨⟩
      exact .inl ⟨_, rfl⟩

theorem sendDirect_sendable {endpoint : Endpoint} (h : client.sendable endpoint = .ok ())
    (reply : Reply ρ) : client.sendDirect endpoint reply = client.received reply := by
  rw [sendDirect, h, ok_bind]

/-- The ways a visit goes. -/
theorem visit_cases (place : Nat) (site : Site ρ) (manifests : Manifests) :
    (∃ manifest name, (client.visit request place site manifests).events =
        [.handshook place (.ok manifest)] ∧ manifest.provides request.operation = false ∧
        (client.visit request place site manifests).verdict = .missing name) ∨
    (∃ error, (client.visit request place site manifests).events =
        [.handshook place (.error error)] ∧
        ((client.visit request place site manifests).verdict = .returned (.error error) ∨
          ∃ report, (client.visit request place site manifests).verdict = .failed report ∧
            request.kind = .read ∧ client.allowReadFallback = true ∧
            isSecurityError error = false)) ∨
    (∃ opening, (client.visit request place site manifests).events =
        opening ++ [(client.dispatch request place site).1] ∧
        (opening = [] ∨ ∃ manifest, opening = [.handshook place (.ok manifest)]) ∧
        (client.visit request place site manifests).verdict =
          (client.dispatch request place site).2) := by
  unfold visit
  dsimp only
  split
  · exact .inr (.inr ⟨[], rfl, .inl rfl, rfl⟩)
  · cases hshaken : client.handshake site manifests with
    | mk result manifests =>
      cases result with
      | ok manifest =>
        dsimp only
        split
        · exact .inr (.inr ⟨[.handshook place (.ok manifest)], rfl, .inr ⟨manifest, rfl⟩, rfl⟩)
        · rename_i hlacks
          exact .inl ⟨manifest, _, rfl, by simpa using hlacks, rfl⟩
      | error error =>
        dsimp only
        split
        · exact .inr (.inl ⟨error, rfl, .inl rfl⟩)
        · rename_i hsecure
          split
          · exact .inr (.inl ⟨error, rfl, .inl rfl⟩)
          · rename_i hread
            exact .inr (.inl ⟨error, rfl, .inr ⟨_, rfl, by simp_all, by simp_all, by simpa using hsecure⟩⟩)

theorem visit_places {place : Nat} {site : Site ρ} {manifests : Manifests} {event : Event ρ}
    (h : event ∈ (client.visit request place site manifests).events) : event.place = place := by
  rcases @visit_cases _ client request place site manifests with ⟨manifest, name, hevents, _⟩ |
    ⟨error, hevents, _⟩ | ⟨opening, hevents, hopening, _⟩
  · rw [hevents, List.mem_singleton] at h
    rw [h]
    rfl
  · rw [hevents, List.mem_singleton] at h
    rw [h]
    rfl
  · rw [hevents] at h
    rcases List.mem_append.mp h with hfirst | hlast
    · rcases hopening with rfl | ⟨manifest, rfl⟩
      · cases hfirst
      · rw [List.mem_singleton.mp hfirst]
        rfl
    · rw [List.mem_singleton.mp hlast]
      rfl

/-- A call returns after an endpoint, or goes on to the next. -/
theorem callFrom_cons (place : Nat) (site : Site ρ) (rest : List (Site ρ))
    (misses errors : List String) (manifests : Manifests) :
    (∃ result, (client.visit request place site manifests).verdict = .returned result ∧
      client.callFrom request place (site :: rest) misses errors manifests =
        ⟨result, (client.visit request place site manifests).manifests,
          (client.visit request place site manifests).events⟩) ∨
    (∃ misses' errors', (∀ result, (client.visit request place site manifests).verdict ≠
        .returned result) ∧
      client.callFrom request place (site :: rest) misses errors manifests =
        { client.callFrom request (place + 1) rest misses' errors'
            (client.visit request place site manifests).manifests with
          trace := (client.visit request place site manifests).events ++
            (client.callFrom request (place + 1) rest misses' errors'
              (client.visit request place site manifests).manifests).trace }) := by
  rw [callFrom]
  dsimp only
  cases (client.visit request place site manifests).verdict with
  | returned result => exact .inl ⟨result, rfl, rfl⟩
  | missing name => exact .inr ⟨misses ++ [name], errors, nofun, rfl⟩
  | failed report => exact .inr ⟨misses, errors ++ [report], nofun, rfl⟩

theorem callFrom_nil_trace (place : Nat) (misses errors : List String) (manifests : Manifests) :
    (client.callFrom request place [] misses errors manifests).trace = [] := by
  rw [callFrom]
  dsimp only
  split <;> rfl

theorem callFrom_places (place : Nat) (sites : List (Site ρ)) (misses errors : List String)
    (manifests : Manifests) :
    ∀ event ∈ (client.callFrom request place sites misses errors manifests).trace,
      place ≤ event.place := by
  induction sites generalizing place misses errors manifests with
  | nil =>
    intro event h
    rw [callFrom_nil_trace] at h
    cases h
  | cons site rest ih =>
    intro event h
    rcases @callFrom_cons _ client request place site rest misses errors manifests with
      ⟨result, _, hcall⟩ | ⟨misses', errors', _, hcall⟩
    · rw [hcall] at h
      exact le_of_eq (visit_places h).symm
    · rw [hcall] at h
      rcases List.mem_append.mp h with hhere | hlater
      · exact le_of_eq (visit_places hhere).symm
      · exact Nat.le_of_succ_le (ih _ _ _ _ event hlater)

theorem visit_once (place : Nat) (site : Site ρ) (manifests : Manifests) :
    ((client.visit request place site manifests).events.filter Event.isDispatch).length ≤ 1 := by
  rcases @visit_cases _ client request place site manifests with ⟨manifest, name, hevents, _⟩ |
    ⟨error, hevents, _⟩ | ⟨opening, hevents, hopening, _⟩
  · simp [hevents, Event.isDispatch]
  · simp [hevents, Event.isDispatch]
  · have hquiet : opening.filter Event.isDispatch = [] := by
      rcases hopening with rfl | ⟨manifest, rfl⟩ <;> rfl
    rw [hevents, List.filter_append, hquiet]
    exact List.length_filter_le _ _

theorem callFrom_once (hkind : request.kind ≠ .read) (place : Nat) (sites : List (Site ρ))
    (misses errors : List String) (manifests : Manifests) :
    ((client.callFrom request place sites misses errors manifests).trace.filter
      Event.isDispatch).length ≤ 1 := by
  induction sites generalizing place misses errors manifests with
  | nil => simp [callFrom_nil_trace]
  | cons site rest ih =>
    rcases @callFrom_cons _ client request place site rest misses errors manifests with
      ⟨result, _, hcall⟩ | ⟨misses', errors', hgoes, hcall⟩
    · rw [hcall]
      exact visit_once ..
    · rw [hcall]
      rcases @visit_cases _ client request place site manifests with ⟨manifest, name, hevents, _⟩ |
        ⟨error, hevents, _⟩ | ⟨opening, hevents, hopening, hverdict⟩
      · simpa [hevents, Event.isDispatch] using ih _ _ _ _
      · simpa [hevents, Event.isDispatch] using ih _ _ _ _
      · obtain ⟨answer, hanswer, _⟩ := @dispatch_commits _ client request hkind place site
        exact absurd (hverdict.trans hanswer) (hgoes answer)

/-- Only the last event of a visit can be a security failure, and then the call returns. -/
theorem visit_secured (place : Nat) (site : Site ρ) (manifests : Manifests) :
    (client.visit request place site manifests).events.Pairwise
        (fun earlier _ => earlier.insecure = false) ∧
      ((∃ result, (client.visit request place site manifests).verdict = .returned result) ∨
        ∀ event ∈ (client.visit request place site manifests).events, event.insecure = false) := by
  rcases @visit_cases _ client request place site manifests with ⟨manifest, name, hevents, _⟩ |
    ⟨error, hevents, hverdict⟩ | ⟨opening, hevents, hopening, hverdict⟩
  · simp [hevents, Event.insecure]
  · rw [hevents]
    refine ⟨List.pairwise_singleton _ _, ?_⟩
    rcases hverdict with hreturned | ⟨report, _, _, _, hsecure⟩
    · exact .inl ⟨_, hreturned⟩
    · exact .inr (by simpa [Event.insecure] using hsecure)
  · have hquiet : ∀ event ∈ opening, event.insecure = false := by
      rcases hopening with rfl | ⟨manifest, rfl⟩ <;> simp [Event.insecure]
    constructor
    · rw [hevents, List.pairwise_append]
      refine ⟨?_, List.pairwise_singleton _ _, fun event h _ _ => hquiet event h⟩
      rcases hopening with rfl | ⟨manifest, rfl⟩
      · exact .nil
      · exact List.pairwise_singleton _ _
    · cases hdispatch : (client.dispatch request place site).2 with
      | returned result => exact .inl ⟨result, hverdict.trans hdispatch⟩
      | missing name => exact absurd hdispatch (dispatch_not_missing place site name)
      | failed report =>
        right
        intro event h
        rw [hevents] at h
        rcases List.mem_append.mp h with hfirst | hlast
        · exact hquiet event hfirst
        · rw [List.mem_singleton.mp hlast]
          exact (dispatch_failed hdispatch).2.2

theorem callFrom_secured (place : Nat) (sites : List (Site ρ)) (misses errors : List String)
    (manifests : Manifests) :
    (client.callFrom request place sites misses errors manifests).trace.Pairwise
      fun earlier _ => earlier.insecure = false := by
  induction sites generalizing place misses errors manifests with
  | nil => simp [callFrom_nil_trace]
  | cons site rest ih =>
    obtain ⟨hvisit, hends⟩ := @visit_secured _ client request place site manifests
    rcases @callFrom_cons _ client request place site rest misses errors manifests with
      ⟨result, _, hcall⟩ | ⟨misses', errors', hgoes, hcall⟩
    · rw [hcall]
      exact hvisit
    · rw [hcall, List.pairwise_append]
      refine ⟨hvisit, ih _ _ _ _, ?_⟩
      rcases hends with ⟨result, hreturned⟩ | hquiet
      · exact absurd hreturned (hgoes result)
      · exact fun event hevent _ _ => hquiet event hevent

/-- A read goes past an endpoint that lacks it, or where falling back is allowed. -/
theorem visit_passes {place : Nat} {site : Site ρ} {manifests : Manifests}
    (hgoes : ∀ result, (client.visit request place site manifests).verdict ≠ .returned result) :
    client.allowReadFallback = true ∨
      Lacks request (client.visit request place site manifests).events place := by
  rcases @visit_cases _ client request place site manifests with ⟨manifest, name, hevents, hlacks, _⟩ |
    ⟨error, hevents, hverdict⟩ | ⟨opening, hevents, hopening, hverdict⟩
  · right
    refine ⟨manifest, ?_, hlacks⟩
    rw [hevents]
    exact List.mem_singleton_self _
  · rcases hverdict with hreturned | ⟨report, _, _, hfallback, _⟩
    · exact absurd hreturned (hgoes _)
    · exact .inl hfallback
  · cases hdispatch : (client.dispatch request place site).2 with
    | returned result => exact absurd (hverdict.trans hdispatch) (hgoes result)
    | missing name => exact absurd hdispatch (dispatch_not_missing place site name)
    | failed report => exact .inl (dispatch_failed hdispatch).2.1

theorem Lacks.mono {trace more : List (Event ρ)} {place : Nat} (h : Lacks request trace place)
    (hsub : ∀ event ∈ trace, event ∈ more) : Lacks request more place := by
  obtain ⟨manifest, hmem, hlacks⟩ := h
  exact ⟨manifest, hsub _ hmem, hlacks⟩

theorem callFrom_fallback (place : Nat) (sites : List (Site ρ)) (misses errors : List String)
    (manifests : Manifests) :
    ∀ earlier ∈ (client.callFrom request place sites misses errors manifests).trace,
      ∀ later ∈ (client.callFrom request place sites misses errors manifests).trace,
        earlier.place < later.place → client.allowReadFallback = true ∨
          Lacks request (client.callFrom request place sites misses errors manifests).trace
            earlier.place := by
  induction sites generalizing place misses errors manifests with
  | nil =>
    intro earlier h
    rw [callFrom_nil_trace] at h
    cases h
  | cons site rest ih =>
    rcases @callFrom_cons _ client request place site rest misses errors manifests with
      ⟨result, _, hcall⟩ | ⟨misses', errors', hgoes, hcall⟩
    · rw [hcall]
      intro earlier hearlier later hlater hlt
      rw [visit_places hearlier, visit_places hlater] at hlt
      exact absurd hlt (lt_irrefl _)
    · rw [hcall]
      intro earlier hearlier later hlater hlt
      rcases List.mem_append.mp hearlier with hhere | hthere
      · rw [visit_places hhere]
        exact (visit_passes hgoes).imp_right
          (Lacks.mono · fun event h => List.mem_append_left _ h)
      · have hlater : later ∈ (client.callFrom request (place + 1) rest misses' errors'
            (client.visit request place site manifests).manifests).trace := by
          rcases List.mem_append.mp hlater with hfirst | hrest
          · have hbound := callFrom_places _ _ _ _ _ earlier hthere
            rw [visit_places hfirst] at hlt
            omega
          · exact hrest
        exact (ih _ _ _ _ earlier hthere later hlater hlt).imp_right
          (Lacks.mono · fun event h => List.mem_append_right _ h)

/-- After a mutation was sent the call commits unless the answer is misread. -/
theorem dispatch_committed (hkind : request.kind ≠ .read) {place : Nat} {site : Site ρ}
    {manifests : Manifests} {opening : List (Event ρ)} {answer : Except LiveError (RpcResponse ρ)}
    (hopening : ∀ place sent answer, .dispatched place sent answer ∉ opening)
    (hverdict : (client.dispatch request place site).2 = .returned answer) :
    Commits ⟨answer, manifests, opening ++ [(client.dispatch request place site).1]⟩ ↔
      ¬ (client.sendable site.endpoint = .ok () ∧ site.applies = true ∧
        client.Misread site.dispatch) := by
  constructor
  · rintro h ⟨hsendable, happlies, hmisread⟩
    obtain ⟨message, hreceived, htyped⟩ := hmisread.received
    have hresult := (sendDirect_sendable hsendable site.dispatch).trans hreceived
    have hanswer : answer = .error (.authentication message) := by
      simpa [dispatch, hresult, isSecurityError] using hverdict.symm
    have hevent : (client.dispatch request place site).1 =
        .dispatched place (some (site.dispatch, true)) (.error (.authentication message)) := by
      simp [dispatch, hresult, hsendable, happlies, Except.toOption]
    have hmem : .dispatched place (some (site.dispatch, true)) (.error (.authentication message)) ∈
        opening ++ [(client.dispatch request place site).1] := by simp [hevent]
    rcases h place site.dispatch _ hmem _ hanswer with ⟨other, hother⟩ | hother
    · cases hother
    · exact htyped hother
  · rintro hsound place' reply result hmem error herror
    have hevent : Event.dispatched place' (some (reply, true)) result =
        (client.dispatch request place site).1 := by
      rcases List.mem_append.mp hmem with hfirst | hlast
      · exact absurd hfirst (hopening _ _ _)
      · exact List.mem_singleton.mp hlast
    obtain ⟨_, hsent, _⟩ := Event.dispatched.inj hevent
    obtain ⟨granted, hgranted, hpair⟩ := Option.map_eq_some_iff.mp hsent.symm
    obtain ⟨rfl, happlies⟩ := Prod.mk.inj hpair
    have hsendable : client.sendable site.endpoint = .ok () := toOption_eq_some.mp hgranted
    obtain ⟨answer', hanswer, hcommits⟩ := @dispatch_commits _ client request hkind place site
    rw [sendDirect_sendable hsendable] at hcommits
    obtain rfl : answer' = answer := by
      rw [hanswer] at hverdict
      exact Verdict.returned.inj hverdict
    rcases hcommits error herror with hunknown | ⟨api, hresponse, rfl⟩ | ⟨hreceived, hsecure⟩
    · exact .inl hunknown
    · right
      have herror : site.dispatch = .response (.error api) := by
        cases hreply : site.dispatch with
        | response response =>
          rw [hreply] at hresponse
          exact congrArg Reply.response (Except.ok.inj hresponse)
        | status status => rw [hreply] at hresponse; cases hresponse
        | undecodable message => rw [hreply] at hresponse; cases hresponse
      rw [herror]
      rfl
    · exact .inr ((received_insecure hreceived hsecure).resolve_right
        fun hmisread => hsound ⟨hsendable, happlies, hmisread⟩)

theorem callFrom_commits (hkind : request.kind ≠ .read) (place : Nat) (sites : List (Site ρ))
    (misses errors : List String) (manifests : Manifests) :
    Commits (client.callFrom request place sites misses errors manifests) ↔
      ¬ client.Exposed request sites manifests := by
  have hhandshake : request ≠ .handshake := by
    rintro rfl
    exact hkind rfl
  induction sites generalizing place misses errors manifests with
  | nil =>
    refine iff_of_true ?_ id
    intro place' reply answer h
    rw [callFrom_nil_trace] at h
    cases h
  | cons site rest ih =>
    rw [callFrom, Exposed]
    simp only [visit, hhandshake, ↓reduceIte]
    cases hshaken : client.handshake site manifests with
    | mk result manifests =>
      cases result with
      | ok manifest =>
        dsimp only
        by_cases hprovides : manifest.provides request.operation = true
        · obtain ⟨answer, hanswer, _⟩ := @dispatch_commits _ client request hkind place site
          have hquiet : ∀ place' sent answer, .dispatched place' sent answer ∉
              [(.handshook place (.ok manifest) : Event ρ)] := by simp
          simp only [hprovides, ↓reduceIte, hanswer]
          exact dispatch_committed hkind hquiet hanswer
        · simp only [hprovides, Bool.false_eq_true, ↓reduceIte]
          refine Iff.trans ?_ (ih (place + 1) (misses ++ [site.endpoint.name]) errors manifests)
          simp [Commits]
      | error error =>
        refine iff_of_true ?_ id
        by_cases hsecure : isSecurityError error = true
        · simp [Commits, hsecure]
        · simp [Commits, hsecure, hkind]

end LiveClient

/-- A call is safe exactly when it is a read or no endpoint that applies the operation is
misread. -/
theorem call_safe (client : LiveClient ρ) (request : RpcRequest) (sites : List (Site ρ))
    (manifests : Manifests) :
    Safe client request (client.call request sites manifests) ↔
      request.kind = .read ∨ ¬ client.Exposed request sites manifests := by
  constructor
  · intro h
    by_cases hkind : request.kind = .read
    · exact .inl hkind
    · exact .inr ((LiveClient.callFrom_commits hkind ..).mp (h.committed hkind))
  · intro h
    refine ⟨?_, ?_, LiveClient.callFrom_secured .., ?_⟩
    · exact fun hkind => LiveClient.callFrom_once hkind ..
    · intro hkind
      exact (LiveClient.callFrom_commits hkind ..).mpr (h.resolve_left hkind)
    · exact fun _ => LiveClient.callFrom_fallback 0 sites [] [] manifests

/-- A client that shows statuses by their message. -/
def plainClient : LiveClient Unit where
  allowReadFallback := true
  display status := status.message
  debug _ := "Accepted"
  bearer _ := .ok ()

/-- A daemon that deletes a conversation and loses the connection before it can say so. -/
def droppingSite : Site Unit where
  endpoint := ⟨"remote", "https://hologram.example", none⟩
  handshake := .response (.capabilityManifest ⟨1, [⟨"history.delete", .mutation, false⟩]⟩)
  dispatch := .status ⟨.unavailable, "peer closed connection without sending TLS close_notify"⟩
  applies := true

/-- The conversation is deleted and the call reports a failed authentication. -/
theorem deleted_unannounced :
    (plainClient.call (.historyDelete "blake3:0") [droppingSite] []).result =
        .error (.authentication ("secure transport validation failed: " ++
          "peer closed connection without sending TLS close_notify")) ∧
      ¬ Safe plainClient (.historyDelete "blake3:0")
        (plainClient.call (.historyDelete "blake3:0") [droppingSite] []) := by
  refine ⟨by decide, fun h => ?_⟩
  have hmisread : plainClient.Misread droppingSite.dispatch := ⟨_, rfl, rfl, by decide⟩
  have hexposed : plainClient.Exposed (.historyDelete "blake3:0") [droppingSite] [] :=
    ⟨rfl, rfl, hmisread⟩
  exact (LiveClient.callFrom_commits (by decide) ..).mp (h.committed (by decide)) hexposed

end HologramLive.Client
