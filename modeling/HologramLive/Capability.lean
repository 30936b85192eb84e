import HologramLive.Lib.Result
import HologramLive.Upstream

namespace HologramLive
open Lib.Result

/-- Decode a runtime object and require that it is exactly a canonical set. -/
def decodeCanonical (upstream : Upstream) (bytes : Bytes) : Except LiveError Capabilities :=
  match upstream.toCapabilities bytes with
  | .error error => .error (.invalidHolo s!"decode required CapabilitySet: {error}")
  | .ok capabilities =>
    if upstream.canonicalizeCapabilities capabilities ≠ bytes then
      .error (.invalidHolo "required CapabilitySet is not canonically encoded")
    else .ok capabilities

/-- Capabilities with the object they were decoded from. -/
structure CapabilityObject where
  kappa : String
  canonical : Bytes
  capabilities : Capabilities
  deriving DecidableEq

def decodeObject (upstream : Upstream) (role kappa : String) (bytes : Bytes) :
    Except LiveError CapabilityObject :=
  if upstream.addressBytes bytes ≠ kappa then
    .error (.invalidHolo s!"{role} CapabilitySet bytes do not match declared κ {kappa}")
  else do
    let capabilities ← decodeCanonical upstream bytes
    .ok { kappa, canonical := bytes, capabilities }

abbrev RequestedCapabilities := CapabilityObject

abbrev DelegatedCapabilities := CapabilityObject

def RequestedCapabilities.decode (upstream : Upstream) : String → Bytes →
    Except LiveError RequestedCapabilities :=
  decodeObject upstream "required"

def DelegatedCapabilities.decode (upstream : Upstream) : String → Bytes →
    Except LiveError DelegatedCapabilities :=
  decodeObject upstream "delegated"

inductive GrantSource where
  | localBaseline
  | directDevelopmentFile
  | serviceDevelopmentFile
  | childDelegation

def GrantSource.name : GrantSource → String
  | .localBaseline => "local_baseline"
  | .directDevelopmentFile => "direct_development_file"
  | .serviceDevelopmentFile => "service_development_file"
  | .childDelegation => "child_delegation"

/-- Authority supplied by a trusted execution context, never by an archive. -/
structure EffectiveGrant where
  kappa : String
  canonical : Bytes
  capabilities : Capabilities
  source : GrantSource

def EffectiveGrant.fromDelegation (delegated : DelegatedCapabilities) : EffectiveGrant where
  kappa := delegated.kappa
  canonical := delegated.canonical
  capabilities := delegated.capabilities
  source := .childDelegation

/-- Non-secret evidence for one capability admission relation. -/
structure CapabilityDecision where
  applicationKappa : String
  parentApplicationKappa : Option String
  requestedCapabilitiesKappa : String
  effectiveGrantKappa : String
  grantSource : String
  relation : String
  outcome : String

def decisionOutcome (allowed : Bool) : String := if allowed then "allowed" else "denied"

namespace CapabilityDecision

def applicationRequest (applicationKappa : String) (parentApplicationKappa : Option String)
    (request : RequestedCapabilities) (grant : EffectiveGrant) (allowed : Bool) :
    CapabilityDecision where
  applicationKappa := applicationKappa
  parentApplicationKappa := parentApplicationKappa
  requestedCapabilitiesKappa := request.kappa
  effectiveGrantKappa := grant.kappa
  grantSource := grant.source.name
  relation := "application_request"
  outcome := decisionOutcome allowed

def childDelegation (parentApplicationKappa childApplicationKappa : String)
    (delegated : DelegatedCapabilities) (parentGrant : EffectiveGrant) (allowed : Bool) :
    CapabilityDecision where
  applicationKappa := childApplicationKappa
  parentApplicationKappa := some parentApplicationKappa
  requestedCapabilitiesKappa := delegated.kappa
  effectiveGrantKappa := parentGrant.kappa
  grantSource := parentGrant.source.name
  relation := "child_delegation"
  outcome := decisionOutcome allowed

end CapabilityDecision

def summary (capabilities : Capabilities) : String :=
  s!"storage_roots={capabilities.storageRoots.length}, " ++
  s!"publish_channels={capabilities.publishChannels.length}, " ++
  s!"subscribe_channels={capabilities.subscribeChannels.length}, " ++
  s!"network_fetch_endpoints={capabilities.networkFetchEndpoints.length}, " ++
  s!"network_announce_endpoints={capabilities.networkAnnounceEndpoints.length}, " ++
  s!"storage_quota_bytes={capabilities.storageQuotaBytes}, " ++
  s!"memory_max_bytes={capabilities.memoryMaxBytes}, " ++
  s!"cpu_time_per_event_ms={capabilities.cpuTimePerEventMs}, " ++
  s!"priority_weight={capabilities.priorityWeight}"

def EffectiveGrant.refusal (grant : EffectiveGrant) (applicationKappa : String)
    (request : RequestedCapabilities) : LiveError :=
  .authorization <|
    s!"application {applicationKappa} requests capabilities {request.kappa} " ++
    s!"({summary request.capabilities}) not admitted by effective grant {grant.kappa} " ++
    s!"from {grant.source.name} ({summary grant.capabilities})"

def EffectiveGrant.authorize (upstream : Upstream) (grant : EffectiveGrant)
    (applicationKappa : String) (request : RequestedCapabilities) : Except LiveError Unit :=
  if upstream.admits grant.capabilities request.capabilities then .ok ()
  else .error (grant.refusal applicationKappa request)

def delegationRefusal (parentApplicationKappa parentGrantKappa : String)
    (parentGrant : Capabilities) (childApplicationKappa : String)
    (delegated : DelegatedCapabilities) : LiveError :=
  .authorization <|
    s!"application {parentApplicationKappa} delegates capabilities {delegated.kappa} " ++
    s!"({summary delegated.capabilities}) to child {childApplicationKappa}, which is not " ++
    s!"admitted by parent grant {parentGrantKappa} ({summary parentGrant})"

def childRequestRefusal (parentApplicationKappa childApplicationKappa : String)
    (delegated : DelegatedCapabilities) (request : RequestedCapabilities) : LiveError :=
  .authorization <|
    s!"child application {childApplicationKappa} requests capabilities {request.kappa} " ++
    s!"({summary request.capabilities}) not admitted by delegated grant {delegated.kappa} " ++
    s!"({summary delegated.capabilities}) from parent {parentApplicationKappa}"

def authorizeChildDelegation (upstream : Upstream) (parentApplicationKappa parentGrantKappa : String)
    (parentGrant : Capabilities) (childApplicationKappa : String)
    (delegated : DelegatedCapabilities) (request : RequestedCapabilities) :
    Except LiveError Unit :=
  if !upstream.admits parentGrant delegated.capabilities then
    .error (delegationRefusal parentApplicationKappa parentGrantKappa parentGrant
      childApplicationKappa delegated)
  else if !upstream.admits delegated.capabilities request.capabilities then
    .error (childRequestRefusal parentApplicationKappa childApplicationKappa delegated request)
  else .ok ()

/-- A decoded object is the canonical set at the address it was read under. -/
theorem decodeObject_ok {upstream : Upstream} :
    decodeObject upstream role kappa bytes = .ok object ↔
      upstream.addressBytes bytes = kappa ∧ decodeCanonical upstream bytes = .ok object.capabilities ∧
        object.kappa = kappa ∧ object.canonical = bytes := by
  simp only [decodeObject, guard_ok, bind_ok, Except.ok.injEq, not_not]
  constructor
  · rintro ⟨haddress, capabilities, hdecode, rfl⟩
    exact ⟨haddress, hdecode, rfl, rfl⟩
  · rintro ⟨haddress, hdecode, rfl, rfl⟩
    exact ⟨haddress, _, hdecode, rfl⟩

end HologramLive
