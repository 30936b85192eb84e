import HologramLive.Client.Routing

namespace HologramLive.Client
open Transport Lib.Result

variable {ρ : Type}

/-- Where an event sent the operation to. -/
def Event.sentTo : Event ρ → Option Nat
  | .dispatched place (some _) _ => some place
  | _ => none

@[simp] theorem Event.sentTo_handshook (place : Nat) (result : Except LiveError CapabilityManifest) :
    (Event.handshook place result : Event ρ).sentTo = none := rfl

/-- An explanation names the endpoint the operation went to first, and fails where it
went nowhere. -/
def Agrees (request : RpcRequest) (sites : List (Site ρ)) (place : Nat) (sent : Option Nat)
    (explanation : Except LiveError RouteDecision) : Prop :=
  match sent with
  | some target => ∃ index site decision, target = place + index ∧ sites[index]? = some site ∧
      explanation = .ok decision ∧ decision.operation = request.operation ∧
      decision.target = site.endpoint.name ∧ decision.endpoint = site.endpoint.url
  | none => ∃ error, explanation = .error error

theorem agrees_cons {request : RpcRequest} {site : Site ρ} {rest : List (Site ρ)} {place : Nat}
    {sent : Option Nat} {explanation : Except LiveError RouteDecision}
    (hbound : ∀ target, sent = some target → place + 1 ≤ target) :
    Agrees request (site :: rest) place sent explanation ↔
      Agrees request rest (place + 1) sent explanation := by
  cases sent with
  | none => exact Iff.rfl
  | some target =>
    constructor
    · rintro ⟨index, found, decision, htarget, hfound, hrest⟩
      have := hbound target rfl
      obtain ⟨before, rfl⟩ : ∃ before, index = before + 1 := ⟨index - 1, by omega⟩
      exact ⟨before, found, decision, by omega, by simpa using hfound, hrest⟩
    · rintro ⟨index, found, decision, htarget, hfound, hrest⟩
      exact ⟨index + 1, found, decision, by omega, by simpa using hfound, hrest⟩

namespace LiveClient
variable (client : LiveClient ρ) (request : RpcRequest)

/-- Some endpoint provides the operation before a security failure is met. -/
def Offered : List (Site ρ) → Manifests → Prop
  | [], _ => False
  | site :: rest, manifests =>
    match client.handshake site manifests with
    | (.ok manifest, manifests) =>
      manifest.provides request.operation = true ∨ Offered rest manifests
    | (.error error, manifests) => isSecurityError error = false ∧ Offered rest manifests

/-- The call stops at a failed handshake that the explanation goes past, or the endpoint
that is named cannot be sent anything. -/
def Diverges : List (Site ρ) → Manifests → Prop
  | [], _ => False
  | site :: rest, manifests =>
    match client.handshake site manifests with
    | (.ok manifest, manifests) =>
      if manifest.provides request.operation then client.sendable site.endpoint ≠ .ok ()
      else Diverges rest manifests
    | (.error error, manifests) =>
      if isSecurityError error then False
      else if request.kind = .read ∧ client.allowReadFallback = true then Diverges rest manifests
      else client.Offered request rest manifests

variable {client request}

theorem explainFrom_ok (sites : List (Site ρ)) (failures : List String) (manifests : Manifests) :
    (∃ error, client.explainFrom request sites failures manifests = .error error) ↔
      ¬ client.Offered request sites manifests := by
  induction sites generalizing failures manifests with
  | nil => exact iff_of_true ⟨_, rfl⟩ id
  | cons site rest ih =>
    rw [explainFrom, Offered]
    cases client.handshake site manifests with
    | mk result manifests =>
      cases result with
      | ok manifest =>
        dsimp only
        by_cases hprovides : manifest.provides request.operation = true
        · simp [hprovides]
        · simpa [hprovides] using ih _ manifests
      | error error =>
        dsimp only
        by_cases hsecure : isSecurityError error = true
        · simp [hsecure]
        · simpa [hsecure] using ih _ manifests

theorem callFrom_sent (place : Nat) (sites : List (Site ρ)) (misses errors : List String)
    (manifests : Manifests) {target : Nat}
    (h : (client.callFrom request place sites misses errors manifests).trace.findSome?
      Event.sentTo = some target) : place ≤ target := by
  obtain ⟨event, hmem, hsent⟩ := List.exists_of_findSome?_eq_some h
  have hplace : event.place = target := by
    cases event with
    | handshook place result => cases hsent
    | dispatched place sent result =>
      cases sent with
      | none => cases hsent
      | some exchange => exact Option.some.inj hsent
  exact hplace ▸ callFrom_places _ _ _ _ _ event hmem

/-- A token that makes no header value is an authentication failure, and nothing is sent. -/
theorem dispatch_unsendable {place : Nat} {site : Site ρ}
    (h : client.sendable site.endpoint ≠ .ok ()) :
    (client.dispatch request place site).1.sentTo = none ∧
      ∃ answer, (client.dispatch request place site).2 = .returned answer := by
  unfold dispatch sendDirect
  cases hsendable : client.sendable site.endpoint with
  | ok granted => exact absurd hsendable h
  | error error =>
    have hsecure : isSecurityError error = true := by
      unfold sendable at hsendable
      split at hsendable
      · cases hsendable
      · rename_i token _
        cases hbearer : client.bearer token with
        | ok granted =>
          rw [hbearer] at hsendable
          cases hsendable
        | error text =>
          rw [hbearer] at hsendable
          obtain rfl := Except.error.inj hsendable
          rfl
    simp [Except.toOption, Event.sentTo, hsecure]

theorem callFrom_agrees (hrequest : request ≠ .handshake) (place : Nat) (sites : List (Site ρ))
    (misses errors failures : List String) (manifests : Manifests) :
    Agrees request sites place
        ((client.callFrom request place sites misses errors manifests).trace.findSome? Event.sentTo)
        (client.explainFrom request sites failures manifests) ↔
      ¬ client.Diverges request sites manifests := by
  induction sites generalizing place misses errors failures manifests with
  | nil =>
    rw [callFrom_nil_trace]
    exact iff_of_true ⟨_, rfl⟩ id
  | cons site rest ih =>
    rw [callFrom, explainFrom, Diverges]
    simp only [visit, hrequest, ↓reduceIte]
    cases hshaken : client.handshake site manifests with
    | mk result manifests =>
      cases result with
      | ok manifest =>
        dsimp only
        by_cases hprovides : manifest.provides request.operation = true
        · simp only [hprovides, ↓reduceIte]
          by_cases hsendable : client.sendable site.endpoint = .ok ()
          · refine iff_of_true ?_ (not_not.mpr hsendable)
            have hsent : (client.dispatch request place site).1.sentTo = some place := by
              simp [dispatch, hsendable, Except.toOption, Event.sentTo]
            have hfirst : ∀ more, List.findSome? Event.sentTo
                ([.handshook place (.ok manifest), (client.dispatch request place site).1] ++ more) =
                  some place := by
              intro more
              simp [List.findSome?_cons, hsent]
            have hnamed : ∀ decision, decision.operation = request.operation →
                decision.target = site.endpoint.name → decision.endpoint = site.endpoint.url →
                Agrees request (site :: rest) place (some place) (.ok decision) :=
              fun decision hoperation htarget hendpoint =>
                ⟨0, site, decision, rfl, rfl, rfl, hoperation, htarget, hendpoint⟩
            cases (client.dispatch request place site).2 with
            | returned answer =>
              dsimp only
              rw [← List.append_nil [_, _], hfirst]
              exact hnamed _ rfl rfl rfl
            | missing name =>
              dsimp only
              rw [hfirst]
              exact hnamed _ rfl rfl rfl
            | failed report =>
              dsimp only
              rw [hfirst]
              exact hnamed _ rfl rfl rfl
          · refine iff_of_false ?_ (not_not.mpr hsendable)
            obtain ⟨hnone, answer, hanswer⟩ :=
              @dispatch_unsendable _ client request place site hsendable
            simp only [hanswer, List.findSome?_cons, Event.sentTo_handshook, hnone, List.findSome?_nil]
            rintro ⟨error, ⟨⟩⟩
        · simp only [hprovides, Bool.false_eq_true, ↓reduceIte]
          rw [agrees_cons]
          · exact ih _ _ _ _ _
          · intro target htarget
            exact callFrom_sent _ _ _ _ _ htarget
      | error error =>
        dsimp only
        by_cases hsecure : isSecurityError error = true
        · simp only [hsecure, ↓reduceIte]
          exact iff_of_true ⟨_, rfl⟩ id
        · simp only [hsecure, Bool.false_eq_true, ↓reduceIte]
          by_cases hfalls : request.kind = .read ∧ client.allowReadFallback = true
          · simp only [hfalls, ne_eq, not_true_eq_false, decide_false, Bool.not_true, Bool.or_false,
              Bool.false_eq_true, and_self, ↓reduceIte]
            refine (agrees_cons ?_).trans (ih _ _ _ _ _)
            intro target htarget
            exact callFrom_sent _ _ _ _ _ htarget
          · have hstops : (decide (request.kind ≠ .read) || !client.allowReadFallback) = true := by
              by_contra hgoes
              apply hfalls
              simpa using hgoes
            simp only [hstops, hfalls, ↓reduceIte]
            exact explainFrom_ok rest _ manifests

end LiveClient

/-- An explanation names the endpoint a call goes to, and fails where a call goes nowhere,
exactly where the two do not part. -/
theorem explain_agrees (client : LiveClient ρ) (request : RpcRequest) (sites : List (Site ρ))
    (manifests : Manifests) (hrequest : request ≠ .handshake) :
    Agrees request sites 0 ((client.call request sites manifests).trace.findSome? Event.sentTo)
        (client.explainRoute request sites manifests) ↔
      ¬ client.Diverges request sites manifests :=
  LiveClient.callFrom_agrees hrequest 0 sites [] [] [] manifests

/-- A daemon that is down. -/
def downSite : Site Unit where
  endpoint := ⟨"local", "http://127.0.0.1:11436", none⟩
  handshake := .status ⟨.unavailable, "tcp connect error"⟩
  dispatch := .status ⟨.unavailable, "tcp connect error"⟩
  applies := false

/-- A call for which the two agree. -/
theorem explain_agrees_sample :
    Agrees (.historyDelete "blake3:0") [droppingSite, downSite] 0
      ((plainClient.call (.historyDelete "blake3:0") [droppingSite, downSite] []).trace.findSome?
        Event.sentTo)
      (plainClient.explainRoute (.historyDelete "blake3:0") [droppingSite, downSite] []) :=
  (explain_agrees plainClient (.historyDelete "blake3:0") [droppingSite, downSite] []
    (by decide)).mpr (fun h => h rfl)

/-- The explanation goes past a daemon that is down and names the next; the deletion itself
goes nowhere. -/
theorem explained_unsent :
    (plainClient.call (.historyDelete "blake3:0") [downSite, droppingSite] []).trace.findSome?
        Event.sentTo = none ∧
      (plainClient.explainRoute (.historyDelete "blake3:0") [downSite, droppingSite] []).map
        RouteDecision.target = .ok "remote" ∧
      ¬ Agrees (.historyDelete "blake3:0") [downSite, droppingSite] 0
        ((plainClient.call (.historyDelete "blake3:0") [downSite, droppingSite] []).trace.findSome?
          Event.sentTo)
        (plainClient.explainRoute (.historyDelete "blake3:0") [downSite, droppingSite] []) := by
  have hnone : (plainClient.call (.historyDelete "blake3:0") [downSite, droppingSite] []).trace.findSome?
      Event.sentTo = none := by decide
  have hnamed : (plainClient.explainRoute (.historyDelete "blake3:0") [downSite, droppingSite] []).map
      RouteDecision.target = .ok "remote" := by decide
  refine ⟨hnone, hnamed, ?_⟩
  intro h
  rw [hnone] at h
  obtain ⟨error, herror⟩ := h
  rw [herror] at hnamed
  cases hnamed

end HologramLive.Client
