import HologramLive.Plan.Sound

namespace HologramLive.Plan
open Lib.Result

/-- The reports planning hands out: an explained archive's, evaluated any number
of times. -/
inductive Reported (upstream : Upstream) : ApplicationPlanReport → Prop where
  | explained (h : explainApplication upstream archive limits resolver = .ok report) :
    Reported upstream report
  | evaluated (h : Reported upstream report) (evaluate : Evaluator) :
    Reported upstream (report.evaluateProviders evaluate)

/-- Every relation of a plan holds, read off the grants it would give. -/
structure Permitted (upstream : Upstream) (plan : ApplicationPlan)
    (effectiveGrant : EffectiveGrant) : Prop where
  root : upstream.admits effectiveGrant.capabilities plan.requestedCapabilities.capabilities = true
  children : ∀ child ∈ plan.children, ∃ parentGrant,
    grantOf plan effectiveGrant child.parentApplicationIndex = some parentGrant ∧
    upstream.admits parentGrant.capabilities child.delegatedCapabilities.capabilities = true ∧
    upstream.admits child.delegatedCapabilities.capabilities
      child.requestedCapabilities.capabilities = true

def AdmitsTransitive (upstream : Upstream) : Prop :=
  ∀ wide middle narrow, upstream.admits wide middle = true → upstream.admits middle narrow = true →
    upstream.admits wide narrow = true

/-- Grants that only shrink on the way down from the effective grant. -/
structure Attenuated (upstream : Upstream) (plan : ApplicationPlan)
    (effectiveGrant : EffectiveGrant) (grants : Grants) : Prop where
  nodup : (grants.map Prod.fst).Nodup
  indices : (grants.map Prod.fst).Perm (0 :: plan.children.map (·.applicationIndex))
  root : grants.lookup 0 = some effectiveGrant
  child : ∀ child ∈ plan.children,
    grants.lookup child.applicationIndex = some (.fromDelegation child.delegatedCapabilities)
  edges : ∀ child ∈ plan.children, ∃ parentGrant,
    grants.lookup child.parentApplicationIndex = some parentGrant ∧
    upstream.admits parentGrant.capabilities child.delegatedCapabilities.capabilities = true ∧
    upstream.admits child.delegatedCapabilities.capabilities
      child.requestedCapabilities.capabilities = true
  bounded : AdmitsTransitive upstream → ∀ index grant, grants.lookup index = some grant →
    grant = effectiveGrant ∨
      upstream.admits effectiveGrant.capabilities grant.capabilities = true

/-- The decisions an admission was observed to make agree with its result. -/
def Admission.Evidenced (admission : Admission) (relations : List Relation) : Prop :=
  match admission.result with
  | .ok _ => admission.observed = relations.map (·.decision true)
  | .error error => ∃ before relation after, relations = before ++ relation :: after ∧
      error = relation.refusal ∧ (∃ text, error = .authorization text) ∧
      admission.observed = before.map (·.decision true) ++ [relation.decision false]

section Attenuation
variable {upstream : Upstream} {plan : ApplicationPlan} {effectiveGrant : EffectiveGrant}

theorem Reported.indexed (h : Reported upstream report) (hclear : report.blockers = []) :
    report.Indexed := by
  induction h with
  | explained h =>
    obtain ⟨source, walk, children, _, rfl, _, hcomplete⟩ := explain_complete h hclear
    exact reportOf_indexed hcomplete
  | @evaluated report _ evaluate ih =>
    have hbefore := report.evaluateProviders_blockers evaluate
    rw [hclear] at hbefore
    exact (ih (List.prefix_nil.mp hbefore)).evaluate evaluate

theorem ApplicationPlanReport.intoApplicationPlan_clear {report : ApplicationPlanReport}
    (h : report.intoApplicationPlan = .ok plan) : report.blockers = [] := by
  obtain ⟨_, _, _, hclear, _⟩ := intoApplicationPlan_ok h
  exact hclear

theorem Reported.ordered (h : Reported upstream report)
    (hplan : report.intoApplicationPlan = .ok plan) : plan.Ordered :=
  (h.indexed (ApplicationPlanReport.intoApplicationPlan_clear hplan)).ordered hplan

/-- A relation is evidenced with the outcome it was decided with. -/
theorem relation_outcome (h : relation ∈ relations plan effectiveGrant) (allowed : Bool) :
    (relation.decision allowed).outcome = decisionOutcome allowed := by
  rcases mem_relations h with rfl | ⟨child, _, parentGrant, _, rfl | rfl⟩ <;> rfl

/-- On a numbered plan every parent has a grant before its children are reached. -/
theorem grantOf_parent (hordered : plan.Ordered) (effectiveGrant : EffectiveGrant)
    (hchild : child ∈ plan.children) :
    ∃ parentGrant, grantOf plan effectiveGrant child.parentApplicationIndex = some parentGrant := by
  have hparent := hordered.parents child hchild
  have hindex := List.mem_map_of_mem (f := (·.applicationIndex)) hchild
  rw [hordered.numbered, List.mem_range'_1] at hindex
  unfold grantOf
  split
  · exact ⟨_, rfl⟩
  · have hmem : child.parentApplicationIndex ∈ plan.children.map (·.applicationIndex) := by
      rw [hordered.numbered, List.mem_range'_1]
      omega
    obtain ⟨parent, hmem, heq⟩ := List.mem_map.mp hmem
    have hfound : (plan.children.find? fun other =>
        other.applicationIndex = child.parentApplicationIndex).isSome := by
      rw [List.find?_isSome]
      exact ⟨parent, hmem, by simpa using heq⟩
    obtain ⟨found, hfind⟩ := Option.isSome_iff_exists.mp hfound
    exact ⟨_, by rw [hfind]; rfl⟩

theorem relations_length (hordered : plan.Ordered) (effectiveGrant : EffectiveGrant) :
    (relations plan effectiveGrant).length = 2 * plan.children.length + 1 := by
  have hpairs : ∀ child ∈ plan.children,
      (childRelations plan effectiveGrant child).length = 2 := by
    intro child hchild
    obtain ⟨parentGrant, hgrant⟩ := grantOf_parent hordered effectiveGrant hchild
    rw [childRelations_eq hgrant]
    rfl
  rw [relations, List.length_cons, List.length_flatMap, List.map_congr_left hpairs]
  simp [Nat.mul_comm]

theorem permitted_iff (hordered : plan.Ordered) (effectiveGrant : EffectiveGrant) :
    Permitted upstream plan effectiveGrant ↔
      ∀ relation ∈ relations plan effectiveGrant, relation.Holds upstream := by
  constructor
  · intro h relation hrelation
    rcases mem_relations hrelation with rfl | ⟨child, hchild, parentGrant, hgrant, hkind⟩
    · exact h.root
    · obtain ⟨parentGrant', hgrant', hdelegation, hrequest⟩ := h.children child hchild
      obtain rfl := Option.some.inj (hgrant.symm.trans hgrant')
      rcases hkind with rfl | rfl
      · exact hdelegation
      · exact hrequest
  · intro h
    refine ⟨h _ List.mem_cons_self, fun child hchild => ?_⟩
    obtain ⟨parentGrant, hgrant⟩ := grantOf_parent hordered effectiveGrant hchild
    have hpair : ∀ relation ∈ childRelations plan effectiveGrant child,
        relation.Holds upstream := fun relation hrelation =>
      h relation (List.mem_cons_of_mem _ (List.mem_flatMap.mpr ⟨child, hchild, hrelation⟩))
    rw [childRelations_eq hgrant] at hpair
    exact ⟨parentGrant, hgrant, hpair (delegationRelation parentGrant child) (by simp),
      hpair (requestRelation child) (by simp)⟩

/-- Under a transitive order every delegation below the root stays within the
effective grant. The induction is on the index: a parent's is smaller. -/
theorem Permitted.bounded (hordered : plan.Ordered) (htransitive : AdmitsTransitive upstream)
    (h : Permitted upstream plan effectiveGrant) (index : Nat) :
    ∀ child ∈ plan.children, child.applicationIndex = index →
      upstream.admits effectiveGrant.capabilities child.delegatedCapabilities.capabilities =
        true := by
  induction index using Nat.strong_induction_on with
  | _ index ih =>
    rintro child hchild rfl
    obtain ⟨parentGrant, hgrant, hdelegation, _⟩ := h.children child hchild
    unfold grantOf at hgrant
    split at hgrant
    · obtain rfl := Option.some.inj hgrant
      exact hdelegation
    · obtain ⟨parent, hfind, rfl⟩ := Option.map_eq_some_iff.mp hgrant
      have hparent := List.mem_of_find?_eq_some hfind
      have hindex : parent.applicationIndex = child.parentApplicationIndex := by
        simpa using List.find?_some hfind
      have hbelow := hordered.parents child hchild
      exact htransitive _ _ _ (ih _ hbelow parent hparent hindex) hdelegation

theorem GrantsOf.attenuated (hordered : plan.Ordered)
    (hpermitted : Permitted upstream plan effectiveGrant)
    (h : GrantsOf plan effectiveGrant plan.children.length grants) :
    Attenuated upstream plan effectiveGrant grants := by
  have hindices : 0 :: plan.children.map (·.applicationIndex) =
      List.range (plan.children.length + 1) := by
    rw [hordered.numbered, List.range_eq_range', List.range'_succ]
  have hbelow : ∀ child ∈ plan.children, child.applicationIndex ≤ plan.children.length := by
    intro child hchild
    have hmem := List.mem_map_of_mem (f := (·.applicationIndex)) hchild
    rw [hordered.numbered, List.mem_range'_1] at hmem
    omega
  refine
    { nodup := h.indices.nodup_iff.mpr List.nodup_range
      indices := by rw [hindices]; exact h.indices
      root := by rw [h.lookup 0 (Nat.zero_le _)]; rfl
      child := fun child hchild => ?_
      edges := fun child hchild => ?_
      bounded := fun htransitive index grant hgrant => ?_ }
  · rw [h.lookup _ (hbelow child hchild), grantOf_child hordered effectiveGrant hchild]
  · obtain ⟨parentGrant, hgrant, hheld⟩ := hpermitted.children child hchild
    have hparent := hordered.parents child hchild
    have hle := hbelow child hchild
    exact ⟨parentGrant, by rw [h.lookup _ (by omega), hgrant], hheld⟩
  · have hmem : index ∈ grants.map Prod.fst := by
      obtain ⟨before, after, hsplit, _⟩ := List.lookup_eq_some_iff.mp hgrant
      simp [hsplit]
    have hle : index ≤ plan.children.length :=
      Nat.lt_succ_iff.mp (List.mem_range.mp (h.indices.subset hmem))
    rw [h.lookup index hle] at hgrant
    rw [h.indices.mem_iff, ← hindices, List.mem_cons, List.mem_map] at hmem
    rcases hmem with rfl | ⟨child, hchild, rfl⟩
    · exact .inl (Option.some.inj hgrant).symm
    · rw [grantOf_child hordered effectiveGrant hchild] at hgrant
      obtain rfl := Option.some.inj hgrant
      exact .inr (hpermitted.bounded hordered htransitive _ child hchild rfl)

/-- An admission succeeds exactly when every relation of its plan holds; its grants
then only shrink, and what it was observed to decide is what it did. -/
theorem admitted_grants_attenuate (h : Reported upstream report)
    (hplan : report.intoApplicationPlan = .ok plan) (effectiveGrant : EffectiveGrant) :
    ((∃ grants, (plan.admittedGrantsWith upstream effectiveGrant).result = .ok grants) ↔
      Permitted upstream plan effectiveGrant) ∧
    (∀ grants, (plan.admittedGrantsWith upstream effectiveGrant).result = .ok grants →
      Attenuated upstream plan effectiveGrant grants) ∧
    (plan.admittedGrantsWith upstream effectiveGrant).Evidenced (relations plan effectiveGrant) ∧
    (relations plan effectiveGrant).length = 2 * plan.children.length + 1 ∧
    ∀ relation ∈ relations plan effectiveGrant, ∀ allowed,
      (relation.decision allowed).outcome = decisionOutcome allowed := by
  have hordered := h.ordered hplan
  refine ⟨⟨fun ⟨grants, hok⟩ => ?_, fun hpermitted => ?_⟩, fun grants hok => ?_, ?_,
    relations_length hordered effectiveGrant, fun relation hrelation => relation_outcome hrelation⟩
  · exact (permitted_iff hordered effectiveGrant).mpr (admittedGrantsWith_ok hordered hok).1
  · cases hresult : (plan.admittedGrantsWith upstream effectiveGrant).result with
    | ok grants => exact ⟨grants, rfl⟩
    | error error =>
      obtain ⟨before, relation, after, hsplit, _, hfails, _⟩ :=
        admittedGrantsWith_error hordered hresult
      exact absurd ((permitted_iff hordered effectiveGrant).mp hpermitted relation
        (by simp [hsplit])) hfails
  · obtain ⟨hholds, hgrants, _⟩ := admittedGrantsWith_ok hordered hok
    exact hgrants.attenuated hordered ((permitted_iff hordered effectiveGrant).mpr hholds)
  · unfold Admission.Evidenced
    cases hresult : (plan.admittedGrantsWith upstream effectiveGrant).result with
    | ok grants => exact (admittedGrantsWith_ok hordered hresult).2.2
    | error error =>
      obtain ⟨before, relation, after, hsplit, _, _, rfl, hobserved⟩ :=
        admittedGrantsWith_error hordered hresult
      have hmem : relation ∈ relations plan effectiveGrant := by simp [hsplit]
      exact ⟨before, relation, after, hsplit, rfl, relation_refusal hmem, hobserved⟩

end Attenuation

/-- The composed fixture under a host that offers one provider for everything. -/
theorem admitted_grants_attenuate_sample : ∃ report plan,
    Reported composedCatalog.upstream report ∧ report.intoApplicationPlan = .ok plan ∧
    plan.children.length = 1 ∧
    ∃ grants, (plan.admittedGrantsWith composedCatalog.upstream
        ⟨"grant", [], {}, .localBaseline⟩).result = .ok grants ∧
      Attenuated composedCatalog.upstream plan ⟨"grant", [], {}, .localBaseline⟩ grants := by
  have hrun : ((explainApplication composedCatalog.upstream [72, 79, 76, 79, 4, 0] {}
      spellingStore).toOption.bind fun report =>
        (report.evaluateProviders fun _ _ => .available "host").intoApplicationPlan.toOption.map
          fun plan => (plan.children.length,
            (plan.admittedGrantsWith composedCatalog.upstream
              ⟨"grant", [], {}, .localBaseline⟩).result.toOption.isSome)) =
      some (1, true) := by decide
  cases hreport : explainApplication composedCatalog.upstream [72, 79, 76, 79, 4, 0] {}
      spellingStore with
  | error error =>
    rw [hreport] at hrun
    cases hrun
  | ok report =>
    rw [hreport] at hrun
    have hreported := (Reported.explained hreport).evaluated fun _ _ => .available "host"
    cases hplan : (report.evaluateProviders fun _ _ => .available "host").intoApplicationPlan with
    | error error =>
      simp [hplan, Except.toOption] at hrun
    | ok plan =>
      obtain ⟨hiff, hattenuated, _⟩ := admitted_grants_attenuate hreported hplan
        ⟨"grant", [], {}, .localBaseline⟩
      simp only [hplan, Except.toOption, Option.bind_some, Option.map_some, Option.some.injEq,
        Prod.mk.injEq] at hrun
      cases hresult : (plan.admittedGrantsWith composedCatalog.upstream
          ⟨"grant", [], {}, .localBaseline⟩).result with
      | error error =>
        rw [hresult] at hrun
        exact absurd hrun.2 (by simp)
      | ok grants => exact ⟨_, plan, hreported, hplan, hrun.1, grants, hresult, hattenuated _ hresult⟩

end HologramLive.Plan
