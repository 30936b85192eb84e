import HologramLive.Plan.Explain

namespace HologramLive.Plan
open Lib.Result

/-- What a host says of a layer's provider. It may answer equal contexts
differently: it is also told how many layers were evaluated before. -/
abbrev Evaluator := Nat → ProviderContext → ProviderAvailability

def evaluateLayerSet (evaluate : Evaluator) (applicationKappa : String) (layerCount : Nat)
    (objects : Objects) : List PlannedLayer → Nat → List PlanBlocker →
    List PlannedLayer × Nat × List PlanBlocker
  | [], evaluated, blockers => ([], evaluated, blockers)
  | layer :: rest, evaluated, blockers =>
    match objects.lookup layer.contentKappa with
    | none =>
      let (layers, evaluated, blockers) :=
        evaluateLayerSet evaluate applicationKappa layerCount objects rest evaluated blockers
      (layer :: layers, evaluated, blockers)
    | some object =>
      let availability := evaluate evaluated
        { applicationKappa
          position := layer.position
          kind := layer.kind
          entry := layer.entry
          aux := layer.aux
          primary := layer.primary
          layerCount
          content := object.bytes }
      let unavailable := match availability with
        | .unavailable reason =>
          [PlanBlocker.providerUnavailable applicationKappa layer.position
            (layerKindName layer.kind) layer.entry reason]
        | _ => []
      let (layers, evaluated, blockers) := evaluateLayerSet evaluate applicationKappa layerCount
        objects rest (evaluated + 1) (blockers ++ unavailable)
      ({ layer with provider := availability } :: layers, evaluated, blockers)

def evaluateAdmissions (evaluate : Evaluator) (objects : Objects) :
    List PendingChildAdmission → Nat → List PlanBlocker →
    List PendingChildAdmission × List PlanBlocker
  | [], _, blockers => ([], blockers)
  | child :: rest, evaluated, blockers =>
    let (layers, evaluated, blockers) := evaluateLayerSet evaluate child.applicationKappa
      child.layers.length objects child.layers evaluated blockers
    let (children, blockers) := evaluateAdmissions evaluate objects rest evaluated blockers
    ({ child with layers } :: children, blockers)

namespace ApplicationPlanReport

def evaluateProviders (report : ApplicationPlanReport) (evaluate : Evaluator) :
    ApplicationPlanReport :=
  let (layers, evaluated, blockers) := evaluateLayerSet evaluate report.identity.applicationKappa
    report.layers.length report.objects report.layers 0 report.blockers
  let (childAdmissions, blockers) :=
    evaluateAdmissions evaluate report.objects report.childAdmissions evaluated blockers
  { report with layers, childAdmissions, blockers }

end ApplicationPlanReport

def strictLayer (applicationKappa : String) (objects : Objects) (layer : PlannedLayer) :
    Except LiveError ResolvedLayer :=
  match objects.lookup layer.contentKappa with
  | none =>
    .error <| .conflict <|
      s!"planner lost resolved content {layer.contentKappa} for application " ++
      s!"{applicationKappa} layer {layer.position}"
  | some object =>
    match layer.provider with
    | .unchecked =>
      .error <| .capability <|
        s!"provider availability was not evaluated for application {applicationKappa} " ++
        s!"layer {layer.position}"
    | .unavailable reason => .error (.capability reason)
    | .available provider =>
      .ok
        { position := layer.position
          kind := layer.kind
          contentKappa := layer.contentKappa
          entry := layer.entry
          aux := layer.aux
          primary := layer.primary
          content := object.bytes
          resolutionSource := object.source
          provider }

def strictLayers (applicationKappa : String) (layers : List PlannedLayer) (objects : Objects) :
    Except LiveError (List ResolvedLayer) :=
  layers.mapM (strictLayer applicationKappa objects)

def strictChild (objects : Objects) (child : PendingChildAdmission) :
    Except LiveError ResolvedChild := do
  let layers ← strictLayers child.applicationKappa child.layers objects
  match child.requestedCapabilities with
  | none => .error (.conflict "planner lost decoded child requested capabilities")
  | some requestedCapabilities =>
    .ok
      { position := child.position
        parentApplicationIndex := child.parentApplicationIndex
        parentApplicationKappa := child.parentApplicationKappa
        applicationIndex := child.applicationIndex
        applicationKappa := child.applicationKappa
        delegatedCapabilities := child.delegatedCapabilities
        requestedCapabilities
        primaryLayer := child.primaryLayer
        layers }

def ApplicationPlanReport.intoApplicationPlan (report : ApplicationPlanReport) :
    Except LiveError ApplicationPlan :=
  match report.blockers with
  | blocker :: _ => .error (blocker.intoError report.identity.applicationKappa)
  | [] =>
    match report.requestedCapabilities with
    | none => .error (.conflict "planner lost decoded requested capabilities")
    | some requestedCapabilities => do
      let layers ← strictLayers report.identity.applicationKappa report.layers report.objects
      let children ← report.childAdmissions.mapM (strictChild report.objects)
      .ok
        { identity := report.identity
          primaryLayer := report.primaryLayer
          requiresKappa := report.requiresKappa
          requestedCapabilities
          layers
          children
          objects := report.objects
          manifest := report.manifest }

/-- The numbering of a report's admissions. -/
structure ApplicationPlanReport.Indexed (report : ApplicationPlanReport) : Prop where
  numbered : report.childAdmissions.map (·.applicationIndex) =
    List.range' 1 report.childAdmissions.length
  parents : ∀ child ∈ report.childAdmissions, child.parentApplicationIndex < child.applicationIndex

/-- What strict planning relies on: nothing it looks up is lost. -/
structure ApplicationPlanReport.Kept (report : ApplicationPlanReport) : Prop where
  indexed : report.Indexed
  requested : ∃ capabilities, report.requestedCapabilities = some capabilities
  layers : ∀ layer ∈ report.layers, ∃ object, report.objects.lookup layer.contentKappa = some object
  children : ∀ child ∈ report.childAdmissions,
    (∃ capabilities, child.requestedCapabilities = some capabilities) ∧
    ∀ layer ∈ child.layers, ∃ object, report.objects.lookup layer.contentKappa = some object

theorem evaluateLayerSet_blockers (evaluate : Evaluator) (applicationKappa : String)
    (layerCount : Nat) (objects : Objects) (layers : List PlannedLayer) (evaluated : Nat)
    (blockers : List PlanBlocker) :
    blockers <+: (evaluateLayerSet evaluate applicationKappa layerCount objects layers evaluated
      blockers).2.2 := by
  induction layers generalizing evaluated blockers with
  | nil => exact List.prefix_refl _
  | cons layer rest ih =>
    unfold evaluateLayerSet
    split
    · exact ih _ _
    · exact (List.prefix_append _ _).trans (ih _ _)

theorem evaluateAdmissions_blockers (evaluate : Evaluator) (objects : Objects)
    (children : List PendingChildAdmission) (evaluated : Nat) (blockers : List PlanBlocker) :
    blockers <+: (evaluateAdmissions evaluate objects children evaluated blockers).2 := by
  induction children generalizing evaluated blockers with
  | nil => exact List.prefix_refl _
  | cons child rest ih => exact (evaluateLayerSet_blockers _ _ _ _ _ _ _).trans (ih _ _)

theorem evaluateLayerSet_kappas (evaluate : Evaluator) (applicationKappa : String)
    (layerCount : Nat) (objects : Objects) (layers : List PlannedLayer) (evaluated : Nat)
    (blockers : List PlanBlocker) :
    (evaluateLayerSet evaluate applicationKappa layerCount objects layers evaluated blockers).1.map
      (·.contentKappa) = layers.map (·.contentKappa) := by
  induction layers generalizing evaluated blockers with
  | nil => rfl
  | cons layer rest ih =>
    unfold evaluateLayerSet
    split <;> simp [ih]

/-- Evaluation touches a child's layers only, and keeps what they contain. -/
theorem evaluateAdmissions_children (evaluate : Evaluator) (objects : Objects)
    (children : List PendingChildAdmission) (evaluated : Nat) (blockers : List PlanBlocker) :
    List.Forall₂ (fun child after => ∃ layers, after = { child with layers } ∧
        layers.map (·.contentKappa) = child.layers.map (·.contentKappa))
      children (evaluateAdmissions evaluate objects children evaluated blockers).1 := by
  induction children generalizing evaluated blockers with
  | nil => exact .nil
  | cons child rest ih =>
    exact .cons ⟨_, rfl, evaluateLayerSet_kappas _ _ _ _ _ _ _⟩ (ih _ _)

theorem known_of_kappas {objects : Objects} {layers layers' : List PlannedLayer}
    (hsame : layers'.map (·.contentKappa) = layers.map (·.contentKappa))
    (h : ∀ layer ∈ layers, ∃ object, objects.lookup layer.contentKappa = some object) :
    ∀ layer ∈ layers', ∃ object, objects.lookup layer.contentKappa = some object := by
  intro layer hlayer
  have hmem := List.mem_map_of_mem (f := (·.contentKappa)) hlayer
  rw [hsame] at hmem
  obtain ⟨known, hknown, heq⟩ := List.mem_map.mp hmem
  rw [← heq]
  exact h known hknown

namespace ApplicationPlanReport

/-- Evaluation only adds blockers. -/
theorem evaluateProviders_blockers (report : ApplicationPlanReport) (evaluate : Evaluator) :
    report.blockers <+: (report.evaluateProviders evaluate).blockers :=
  (evaluateLayerSet_blockers evaluate report.identity.applicationKappa report.layers.length
    report.objects report.layers 0 report.blockers).trans (evaluateAdmissions_blockers _ _ _ _ _)

theorem evaluateProviders_children (report : ApplicationPlanReport) (evaluate : Evaluator) :
    List.Forall₂ (fun child after => ∃ layers, after = { child with layers } ∧
        layers.map (·.contentKappa) = child.layers.map (·.contentKappa))
      report.childAdmissions (report.evaluateProviders evaluate).childAdmissions :=
  evaluateAdmissions_children evaluate report.objects report.childAdmissions _ _

theorem Indexed.evaluate {report : ApplicationPlanReport} (h : report.Indexed)
    (evaluate : Evaluator) : (report.evaluateProviders evaluate).Indexed := by
  have hchildren := report.evaluateProviders_children evaluate
  refine ⟨?_, fun after hafter => ?_⟩
  · rw [← map_eq_of_pointwise hchildren fun _ _ ⟨_, heq, _⟩ => by rw [heq], h.numbered]
    congr 1
    exact hchildren.length_eq
  · obtain ⟨child, hchild, layers, rfl, _⟩ := exists_of_mem_results hchildren hafter
    exact h.parents child hchild

theorem Kept.evaluate {report : ApplicationPlanReport} (h : report.Kept) (evaluate : Evaluator) :
    (report.evaluateProviders evaluate).Kept := by
  have hlayers := evaluateLayerSet_kappas evaluate report.identity.applicationKappa
    report.layers.length report.objects report.layers 0 report.blockers
  refine ⟨h.indexed.evaluate evaluate, h.requested, known_of_kappas hlayers h.layers,
    fun after hafter => ?_⟩
  obtain ⟨child, hchild, layers, rfl, hsame⟩ :=
    exists_of_mem_results (report.evaluateProviders_children evaluate) hafter
  obtain ⟨hrequested, hknown⟩ := h.children child hchild
  exact ⟨hrequested, known_of_kappas hsame hknown⟩

theorem strictLayers_error {objects : Objects} {layers : List PlannedLayer}
    (hknown : ∀ layer ∈ layers, ∃ object, objects.lookup layer.contentKappa = some object)
    (h : strictLayers applicationKappa layers objects = .error error) :
    ∃ text, error = .capability text := by
  obtain ⟨layer, hlayer, hfails⟩ := mapM_error h
  obtain ⟨object, hobject⟩ := hknown layer hlayer
  unfold strictLayer at hfails
  rw [hobject] at hfails
  dsimp only at hfails
  split at hfails <;> cases hfails <;> exact ⟨_, rfl⟩

theorem strictChild_error {objects : Objects}
    (hrequested : ∃ capabilities, child.requestedCapabilities = some capabilities)
    (hknown : ∀ layer ∈ child.layers, ∃ object, objects.lookup layer.contentKappa = some object)
    (h : strictChild objects child = .error error) : ∃ text, error = .capability text := by
  obtain ⟨capabilities, hcapabilities⟩ := hrequested
  unfold strictChild at h
  rw [hcapabilities] at h
  cases hlayers : strictLayers child.applicationKappa child.layers objects with
  | error failure =>
    rw [hlayers] at h
    cases h
    exact strictLayers_error hknown hlayers
  | ok layers =>
    rw [hlayers] at h
    cases h

/-- Strict planning of a report that kept everything never loses anything. -/
theorem Kept.no_conflict {report : ApplicationPlanReport} (h : report.Kept) (text : String) :
    report.intoApplicationPlan ≠ .error (.conflict text) := by
  intro hconflict
  obtain ⟨requested, hrequested⟩ := h.requested
  unfold intoApplicationPlan at hconflict
  split at hconflict
  · rename_i blocker rest hblockers
    cases blocker <;> simp [PlanBlocker.intoError, PlanBlocker.errorCode] at hconflict
  rw [hrequested] at hconflict
  dsimp only at hconflict
  cases hlayers : strictLayers report.identity.applicationKappa report.layers report.objects with
  | error error =>
    rw [hlayers] at hconflict
    cases hconflict
    obtain ⟨_, hcapability⟩ := strictLayers_error h.layers hlayers
    cases hcapability
  | ok layers =>
    rw [hlayers, ok_bind] at hconflict
    cases hchildren : report.childAdmissions.mapM (strictChild report.objects) with
    | error error =>
      rw [hchildren] at hconflict
      cases hconflict
      obtain ⟨child, hchild, hfails⟩ := mapM_error hchildren
      obtain ⟨hrequested', hknown⟩ := h.children child hchild
      obtain ⟨_, hcapability⟩ := strictChild_error hrequested' hknown hfails
      cases hcapability
    | ok children =>
      rw [hchildren] at hconflict
      cases hconflict

theorem strictChild_ok {objects : Objects} {child : PendingChildAdmission}
    {resolved : ResolvedChild} (h : strictChild objects child = .ok resolved) :
    ∃ requestedCapabilities layers,
      child.requestedCapabilities = some requestedCapabilities ∧
      strictLayers child.applicationKappa child.layers objects = .ok layers ∧ resolved = {
        position := child.position
        parentApplicationIndex := child.parentApplicationIndex
        parentApplicationKappa := child.parentApplicationKappa
        applicationIndex := child.applicationIndex
        applicationKappa := child.applicationKappa
        delegatedCapabilities := child.delegatedCapabilities
        requestedCapabilities
        primaryLayer := child.primaryLayer
        layers } := by
  obtain ⟨layers, hlayers, h⟩ := bind_ok.mp h
  split at h
  · cases h
  · rename_i requestedCapabilities hrequested
    exact ⟨requestedCapabilities, layers, hrequested, hlayers, (Except.ok.inj h).symm⟩

theorem intoApplicationPlan_ok {report : ApplicationPlanReport} {plan : ApplicationPlan}
    (h : report.intoApplicationPlan = .ok plan) :
    ∃ requestedCapabilities layers children, report.blockers = [] ∧
      report.requestedCapabilities = some requestedCapabilities ∧
      strictLayers report.identity.applicationKappa report.layers report.objects = .ok layers ∧
      report.childAdmissions.mapM (strictChild report.objects) = .ok children ∧ plan = {
        identity := report.identity
        primaryLayer := report.primaryLayer
        requiresKappa := report.requiresKappa
        requestedCapabilities
        layers
        children
        objects := report.objects
        manifest := report.manifest } := by
  unfold intoApplicationPlan at h
  split at h
  · cases h
  · rename_i hclear
    split at h
    · cases h
    · rename_i requestedCapabilities hrequested
      obtain ⟨layers, hlayers, h⟩ := bind_ok.mp h
      obtain ⟨children, hchildren, h⟩ := bind_ok.mp h
      exact ⟨requestedCapabilities, layers, children, hclear, hrequested, hlayers, hchildren,
        (Except.ok.inj h).symm⟩

/-- The plans of indexed reports are numbered. -/
theorem Indexed.ordered {report : ApplicationPlanReport} (h : report.Indexed)
    (hplan : report.intoApplicationPlan = .ok plan) : plan.Ordered := by
  obtain ⟨_, layers, children, _, _, _, hchildren, rfl⟩ := intoApplicationPlan_ok hplan
  have hpointwise := mapM_ok hchildren
  have hresolved : ∀ admission child, strictChild report.objects admission = .ok child →
      admission.applicationIndex = child.applicationIndex ∧
        admission.parentApplicationIndex = child.parentApplicationIndex := by
    intro admission child hchild
    obtain ⟨_, _, _, _, rfl⟩ := strictChild_ok hchild
    exact ⟨rfl, rfl⟩
  refine ⟨?_, fun child hchild => ?_⟩
  · rw [← map_eq_of_pointwise hpointwise fun _ _ hab => (hresolved _ _ hab).1, h.numbered]
    congr 1
    exact hpointwise.length_eq
  · obtain ⟨admission, hadmission, hstrict⟩ := exists_of_mem_results hpointwise hchild
    obtain ⟨hindex, hparent⟩ := hresolved _ _ hstrict
    rw [← hindex, ← hparent]
    exact h.parents admission hadmission

end ApplicationPlanReport

end HologramLive.Plan
