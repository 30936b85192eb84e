import HologramLive.Plan.Attenuation

namespace HologramLive.Plan
open Lib Lib.Result

def ProviderAvailability.isAvailable : ProviderAvailability → Bool
  | .available _ => true
  | _ => false

namespace Protocol

def resolutionSourceName : ResolutionSource → String
  | .embedded => "embedded"
  | .localStore => "local_store"
  | .configuredResolver name => s!"configured:{name}"

def packaging (report : ApplicationPlanReport) : String :=
  if report.embeddedObjectCount = 0 then "thin"
  else if report.referencedObjectCount ≤ report.embeddedObjectCount then "fat"
  else "hybrid"

def planChild (child : ChildReference) : HoloChild where
  position := child.position
  applicationKappa := child.applicationKappa
  capabilitiesKappa := child.capabilitiesKappa
  parentApplicationKappa := some child.parentApplicationKappa
  depth := some child.depth
  requiresKappa := child.requiresKappa
  applicationResolutionSource := child.applicationResolutionSource.map resolutionSourceName
  capabilitiesResolutionSource := child.capabilitiesResolutionSource.map resolutionSourceName

end Protocol

/-- What a provider is asked about a layer of a plan. -/
def ResolvedLayer.context (applicationKappa : String) (layerCount : Nat) (layer : ResolvedLayer) :
    ProviderContext where
  applicationKappa
  position := layer.position
  kind := layer.kind
  entry := layer.entry
  aux := layer.aux
  primary := layer.primary
  layerCount
  content := layer.content

def asked (applicationKappa : String) (layers : List ResolvedLayer) :
    List (ProviderContext × String) :=
  layers.map fun layer => (layer.context applicationKappa layers.length, layer.provider)

/-- The layers of a plan in the order evaluation asks about them, each with the provider
it carries. -/
def ApplicationPlan.asked (plan : ApplicationPlan) : List (ProviderContext × String) :=
  Plan.asked plan.identity.applicationKappa plan.layers ++
    plan.children.flatMap fun child => Plan.asked child.applicationKappa child.layers

/-- An evaluator answers each question, from the given one on, with the provider that
stands beside it. -/
def Answers (evaluate : Evaluator) (start : Nat) (questions : List (ProviderContext × String)) :
    Prop :=
  ∀ (i : Nat) (question : ProviderContext × String), questions[i]? = some question →
    evaluate (start + i) question.1 = .available question.2

theorem Answers.nil (evaluate : Evaluator) (start : Nat) : Answers evaluate start [] := by
  intro i question h
  simp at h

theorem Answers.append (h : Answers evaluate start questions)
    (h' : Answers evaluate (start + questions.length) others) :
    Answers evaluate start (questions ++ others) := by
  intro i question hi
  rw [List.getElem?_append] at hi
  split at hi
  · exact h i question hi
  · have := h' (i - questions.length) question hi
    rwa [show start + questions.length + (i - questions.length) = start + i by omega] at this

theorem Answers.cons (hfirst : evaluate start question.1 = .available question.2)
    (h : Answers evaluate (start + 1) questions) :
    Answers evaluate start (question :: questions) := by
  intro i other hi
  cases i with
  | zero =>
    obtain rfl := Option.some.inj hi
    exact hfirst
  | succ i =>
    have := h i other hi
    rwa [show start + 1 + i = start + (i + 1) by omega] at this

section Strict
variable {objects : Objects}

/-- A strict layer has content under its kappa and a provider, and keeps both. -/
theorem strictLayer_ok {layer : PlannedLayer} {resolved : ResolvedLayer} :
    strictLayer applicationKappa objects layer = .ok resolved ↔
      ∃ object provider, objects.lookup layer.contentKappa = some object ∧
        layer.provider = .available provider ∧ resolved = {
          position := layer.position, kind := layer.kind, contentKappa := layer.contentKappa
          entry := layer.entry, aux := layer.aux, primary := layer.primary
          content := object.bytes, resolutionSource := object.source, provider } := by
  unfold strictLayer
  cases hobject : objects.lookup layer.contentKappa with
  | none => simp
  | some object =>
    cases hprovider : layer.provider with
    | unchecked => simp
    | unavailable reason => simp
    | available provider => simp [eq_comm]

theorem strictLayers_available {layers : List PlannedLayer}
    (h : strictLayers applicationKappa layers objects = .ok resolved) :
    layers.all (·.provider.isAvailable) = true := by
  rw [List.all_eq_true]
  intro layer hlayer
  obtain ⟨_, _, hstrict⟩ := exists_of_mem_list (mapM_ok h) hlayer
  obtain ⟨_, provider, _, hprovider, _⟩ := strictLayer_ok.mp hstrict
  rw [hprovider]
  rfl

end Strict

/-- Only layers whose content was found have a provider. -/
def Provided (objects : Objects) (layers : List PlannedLayer) : Prop :=
  ∀ layer ∈ layers, layer.provider.isAvailable = true →
    ∃ object, objects.lookup layer.contentKappa = some object

def PendingChildAdmission.Answerable (objects : Objects) (child : PendingChildAdmission) : Prop :=
  (∃ capabilities, child.requestedCapabilities = some capabilities) ∧
    Provided objects child.layers

/-- What a report without blockers has kept for the strict plan. -/
structure ApplicationPlanReport.Answerable (upstream : Upstream) (report : ApplicationPlanReport) :
    Prop where
  requested : ∃ capabilities, report.requestedCapabilities = some capabilities
  layers : Provided report.objects report.layers
  children : ∀ child ∈ report.childAdmissions, child.Answerable report.objects
  addressed : ∀ kappa object, report.objects.lookup kappa = some object →
    upstream.addressBytes object.bytes = kappa

namespace ApplicationPlanReport
variable {upstream : Upstream} {report : ApplicationPlanReport}

/-- An explained report has kept what was requested, and asked no provider yet. -/
structure Fresh (upstream : Upstream) (report : ApplicationPlanReport) : Prop where
  requested : ∃ capabilities, report.requestedCapabilities = some capabilities
  layers : ∀ layer ∈ report.layers, layer.provider.isAvailable = false
  children : ∀ child ∈ report.childAdmissions,
    (∃ capabilities, child.requestedCapabilities = some capabilities) ∧
    ∀ layer ∈ child.layers, layer.provider.isAvailable = false
  addressed : ∀ kappa object, report.objects.lookup kappa = some object →
    upstream.addressBytes object.bytes = kappa

theorem evaluateLayerSet_found (evaluate : Evaluator) {layers : List PlannedLayer}
    {objects : Objects} (evaluated : Nat) (blockers : List PlanBlocker)
    (h : Provided objects layers) :
    Provided objects (evaluateLayerSet evaluate applicationKappa layerCount objects layers
      evaluated blockers).1 := by
  induction layers generalizing evaluated blockers with
  | nil => exact h
  | cons first rest ih =>
    have hrest := fun evaluated blockers => ih evaluated blockers fun layer hlayer =>
      h layer (List.mem_cons_of_mem _ hlayer)
    intro layer hlayer havailable
    unfold evaluateLayerSet at hlayer
    cases hobject : objects.lookup first.contentKappa with
    | none =>
      rw [hobject] at hlayer
      rcases List.mem_cons.mp hlayer with rfl | hlater
      · exact h _ List.mem_cons_self havailable
      · exact hrest _ _ layer hlater havailable
    | some object =>
      rw [hobject] at hlayer
      rcases List.mem_cons.mp hlayer with rfl | hlater
      · exact ⟨object, hobject⟩
      · exact hrest _ _ layer hlater havailable

theorem evaluateAdmissions_found (evaluate : Evaluator) {objects : Objects}
    {admissions : List PendingChildAdmission} (evaluated : Nat) (blockers : List PlanBlocker)
    (h : ∀ child ∈ admissions, child.Answerable objects) :
    ∀ child ∈ (evaluateAdmissions evaluate objects admissions evaluated blockers).1,
      child.Answerable objects := by
  induction admissions generalizing evaluated blockers with
  | nil => exact h
  | cons first rest ih =>
    intro child hchild
    obtain ⟨hrequested, hlayers⟩ := h first List.mem_cons_self
    rcases List.mem_cons.mp hchild with rfl | hlater
    · exact ⟨hrequested, evaluateLayerSet_found evaluate _ _ hlayers⟩
    · exact ih _ _ (fun other hother => h other (List.mem_cons_of_mem _ hother)) child hlater

theorem Answerable.evaluate (h : report.Answerable upstream) (evaluate : Evaluator) :
    (report.evaluateProviders evaluate).Answerable upstream := by
  exact ⟨h.requested, evaluateLayerSet_found evaluate _ _ h.layers,
    evaluateAdmissions_found evaluate _ _ h.children, h.addressed⟩

theorem Fresh.asked (h : report.Fresh upstream) (hplan : report.intoApplicationPlan = .ok plan) :
    plan.asked = [] := by
  have hnone : ∀ {applicationKappa : String} {layers : List PlannedLayer}
      {resolved : List ResolvedLayer}, (∀ layer ∈ layers, layer.provider.isAvailable = false) →
      strictLayers applicationKappa layers report.objects = .ok resolved → resolved = [] := by
    intro applicationKappa layers resolved hunavailable hresolved
    cases resolved with
    | nil => rfl
    | cons first rest =>
      obtain ⟨layer, hlayer, _⟩ := exists_of_mem_results (mapM_ok hresolved) List.mem_cons_self
      have := List.all_eq_true.mp (strictLayers_available hresolved) layer hlayer
      rw [hunavailable layer hlayer] at this
      cases this
  obtain ⟨_, layers, children, _, _, hlayers, hchildren, rfl⟩ := intoApplicationPlan_ok hplan
  obtain rfl := hnone h.layers hlayers
  simp only [ApplicationPlan.asked, Plan.asked, List.map_nil, List.nil_append,
    List.flatMap_eq_nil_iff, List.map_eq_nil_iff]
  intro child hchild
  obtain ⟨admission, hadmission, hok⟩ := exists_of_mem_results (mapM_ok hchildren) hchild
  obtain ⟨_, childLayers, _, hchildLayers, rfl⟩ := strictChild_ok hok
  exact hnone (h.children admission hadmission).2 hchildLayers

end ApplicationPlanReport

/-- What the layers of a plan carry after the last evaluation, if there was one. -/
structure ApplicationPlan.Carries (upstream : Upstream) (last : Option Evaluator)
    (plan : ApplicationPlan) : Prop where
  content : ∀ layer ∈ plan.layers ++ plan.children.flatMap (·.layers),
    upstream.addressBytes layer.content = layer.contentKappa
  providers : match last with
    | some evaluate => Answers evaluate 0 plan.asked
    | none => plan.asked = []

end HologramLive.Plan
