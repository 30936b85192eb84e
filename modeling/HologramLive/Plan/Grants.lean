import HologramLive.Lib.Lookup
import HologramLive.Plan.Types

namespace HologramLive.Plan
open Lib Lib.Result

/-- Grants by application index, each index at most once. -/
abbrev Grants := List (Nat × EffectiveGrant)

def Grants.insert (grants : Grants) (index : Nat) (grant : EffectiveGrant) : Grants :=
  (index, grant) :: grants.filter fun entry => entry.1 ≠ index

/-- What an admission returned, with the decisions it was observed to make. -/
structure Admission where
  observed : List CapabilityDecision
  result : Except LiveError Grants

section Admission
variable (upstream : Upstream)

def admitChildren : List ResolvedChild → Grants → List CapabilityDecision → Admission
  | [], grants, observed => ⟨observed, .ok grants⟩
  | child :: rest, grants, observed =>
    match grants.lookup child.parentApplicationIndex with
    | none =>
      ⟨observed, .error <| .conflict <|
        s!"planner lost parent application {child.parentApplicationKappa} for child " ++
        s!"{child.applicationKappa}"⟩
    | some parentGrant =>
      let delegationAllowed :=
        upstream.admits parentGrant.capabilities child.delegatedCapabilities.capabilities
      let observed := observed ++ [.childDelegation child.parentApplicationKappa
        child.applicationKappa child.delegatedCapabilities parentGrant delegationAllowed]
      let observed :=
        if delegationAllowed then
          let childGrant := EffectiveGrant.fromDelegation child.delegatedCapabilities
          let requestAllowed :=
            upstream.admits childGrant.capabilities child.requestedCapabilities.capabilities
          observed ++ [.applicationRequest child.applicationKappa
            (some child.parentApplicationKappa) child.requestedCapabilities childGrant
            requestAllowed]
        else observed
      match authorizeChildDelegation upstream child.parentApplicationKappa parentGrant.kappa
          parentGrant.capabilities child.applicationKappa child.delegatedCapabilities
          child.requestedCapabilities with
      | .error error => ⟨observed, .error error⟩
      | .ok () =>
        admitChildren rest (Grants.insert grants child.applicationIndex
          (.fromDelegation child.delegatedCapabilities)) observed

def ApplicationPlan.admittedGrantsWith (plan : ApplicationPlan) (effectiveGrant : EffectiveGrant) :
    Admission :=
  let rootAllowed :=
    upstream.admits effectiveGrant.capabilities plan.requestedCapabilities.capabilities
  let observed := [.applicationRequest plan.identity.applicationKappa none
    plan.requestedCapabilities effectiveGrant rootAllowed]
  match effectiveGrant.authorize upstream plan.identity.applicationKappa
      plan.requestedCapabilities with
  | .error error => ⟨observed, .error error⟩
  | .ok () => admitChildren upstream plan.children [(0, effectiveGrant)] observed

end Admission

/-- One capability relation of a plan: the sets it compares, the evidence it
leaves and the error it is refused with. -/
structure Relation where
  granted : Capabilities
  wanted : Capabilities
  decision : Bool → CapabilityDecision
  refusal : LiveError

def Relation.Holds (upstream : Upstream) (relation : Relation) : Prop :=
  upstream.admits relation.granted relation.wanted = true

section Relations
variable (plan : ApplicationPlan) (effectiveGrant : EffectiveGrant)

/-- The grant an application runs under: the root under the effective grant, a
child under what its edge delegates. -/
def grantOf (index : Nat) : Option EffectiveGrant :=
  if index = 0 then some effectiveGrant
  else
    (plan.children.find? fun child => child.applicationIndex = index).map fun child =>
      .fromDelegation child.delegatedCapabilities

def rootRelation : Relation where
  granted := effectiveGrant.capabilities
  wanted := plan.requestedCapabilities.capabilities
  decision := .applicationRequest plan.identity.applicationKappa none plan.requestedCapabilities
    effectiveGrant
  refusal := effectiveGrant.refusal plan.identity.applicationKappa plan.requestedCapabilities

def delegationRelation (parentGrant : EffectiveGrant) (child : ResolvedChild) : Relation where
  granted := parentGrant.capabilities
  wanted := child.delegatedCapabilities.capabilities
  decision := .childDelegation child.parentApplicationKappa child.applicationKappa
    child.delegatedCapabilities parentGrant
  refusal := delegationRefusal child.parentApplicationKappa parentGrant.kappa
    parentGrant.capabilities child.applicationKappa child.delegatedCapabilities

def requestRelation (child : ResolvedChild) : Relation where
  granted := child.delegatedCapabilities.capabilities
  wanted := child.requestedCapabilities.capabilities
  decision := .applicationRequest child.applicationKappa (some child.parentApplicationKappa)
    child.requestedCapabilities (.fromDelegation child.delegatedCapabilities)
  refusal := childRequestRefusal child.parentApplicationKappa child.applicationKappa
    child.delegatedCapabilities child.requestedCapabilities

def childRelations (child : ResolvedChild) : List Relation :=
  (grantOf plan effectiveGrant child.parentApplicationIndex).toList.flatMap fun parentGrant =>
    [delegationRelation parentGrant child, requestRelation child]

/-- Every relation of a plan, in plan order. -/
def relations : List Relation :=
  rootRelation plan effectiveGrant :: plan.children.flatMap (childRelations plan effectiveGrant)

/-- The grants of the applications planned up to a count. -/
structure GrantsOf (count : Nat) (grants : Grants) : Prop where
  indices : (grants.map Prod.fst).Perm (List.range (count + 1))
  lookup : ∀ index ≤ count, grants.lookup index = grantOf plan effectiveGrant index

end Relations

/-- Judging relations in order: all hold and are evidenced as allowed, or the
first that does not is evidenced as denied and ends the judgement. -/
inductive Judged (upstream : Upstream) (relations : List Relation) :
    List CapabilityDecision → Option LiveError → Prop where
  | allowed (holds : ∀ relation ∈ relations, relation.Holds upstream) :
    Judged upstream relations (relations.map (·.decision true)) none
  | denied (split : relations = (before : List Relation) ++ relation :: after)
    (holds : ∀ relation ∈ before, Relation.Holds upstream relation)
    (fails : ¬ Relation.Holds upstream relation) :
    Judged upstream relations (before.map (·.decision true) ++ [relation.decision false])
      (some relation.refusal)

theorem Judged.cons (h : Judged upstream rest observed refusal) (hholds : relation.Holds upstream) :
    Judged upstream (relation :: rest) (relation.decision true :: observed) refusal := by
  cases h with
  | allowed holds => exact .allowed (List.forall_mem_cons.mpr ⟨hholds, holds⟩)
  | @denied before failing after split holds fails =>
    have hjudged : Judged upstream (relation :: rest)
        ((relation :: before).map (·.decision true) ++ [failing.decision false])
        (some failing.refusal) :=
      .denied (by rw [split, List.cons_append]) (List.forall_mem_cons.mpr ⟨hholds, holds⟩) fails
    exact hjudged

theorem Judged.first (hfails : ¬ relation.Holds upstream) (rest : List Relation) :
    Judged upstream (relation :: rest) [relation.decision false] (some relation.refusal) :=
  .denied (List.nil_append _).symm (by simp) hfails

theorem Grants.lookup_insert (grants : Grants) (index key : Nat) (grant : EffectiveGrant) :
    (Grants.insert grants key grant).lookup index =
      if index = key then some grant else grants.lookup index := by
  unfold Grants.insert
  by_cases hkey : index = key
  · simp [hkey]
  · rw [Lookup.lookup_cons_ne hkey, Lookup.lookup_filter_ne, if_neg hkey, if_neg hkey]

section Ordered
variable {upstream : Upstream} {plan : ApplicationPlan} {effectiveGrant : EffectiveGrant}

/-- On a numbered plan an index finds its own child. -/
theorem grantOf_child (hordered : plan.Ordered) (effectiveGrant : EffectiveGrant)
    (hchild : child ∈ plan.children) : grantOf plan effectiveGrant child.applicationIndex =
      some (.fromDelegation child.delegatedCapabilities) := by
  have hnodup : (plan.children.map (·.applicationIndex)).Nodup := by
    rw [hordered.numbered]
    exact List.nodup_range'
  have hindex := List.mem_map_of_mem (f := (·.applicationIndex)) hchild
  rw [hordered.numbered, List.mem_range'_1] at hindex
  have hne : child.applicationIndex ≠ 0 := by omega
  unfold grantOf
  rw [if_neg hne]
  cases hfind : plan.children.find? fun other =>
      other.applicationIndex = child.applicationIndex with
  | none =>
    have hmissing := List.find?_eq_none.mp hfind child hchild
    simp at hmissing
  | some found =>
    have hsame : found.applicationIndex = child.applicationIndex := by
      simpa using List.find?_some hfind
    obtain rfl := List.inj_on_of_nodup_map hnodup (List.mem_of_find?_eq_some hfind) hchild hsame
    rfl

theorem GrantsOf.insert (hordered : plan.Ordered)
    (hsplit : plan.children = done ++ child :: rest)
    (h : GrantsOf plan effectiveGrant done.length grants) :
    child.applicationIndex = done.length + 1 ∧
      grantOf plan effectiveGrant child.applicationIndex =
        some (.fromDelegation child.delegatedCapabilities) ∧
      GrantsOf plan effectiveGrant (done ++ [child]).length
        (Grants.insert grants child.applicationIndex
          (.fromDelegation child.delegatedCapabilities)) := by
  have hindices := hordered.numbered
  rw [hsplit, List.map_append, List.map_cons] at hindices
  have hindex : child.applicationIndex = done.length + 1 := by
    have hget := congrArg (fun list => list[done.length]?) hindices
    simp only [List.length_append, List.length_cons] at hget
    rw [List.getElem?_append_right (by simp), List.getElem?_range' (by omega)] at hget
    simpa [Nat.add_comm] using hget
  have hgrant : grantOf plan effectiveGrant child.applicationIndex =
      some (.fromDelegation child.delegatedCapabilities) :=
    grantOf_child hordered effectiveGrant (by simp [hsplit])
  refine ⟨hindex, hgrant, ?_, ?_⟩
  · have hkept : (grants.filter fun entry => entry.1 ≠ child.applicationIndex) = grants := by
      rw [List.filter_eq_self]
      intro entry hentry
      have hmem := h.indices.subset (List.mem_map_of_mem hentry)
      rw [List.mem_range] at hmem
      simp only [ne_eq, decide_eq_true_eq]
      omega
    rw [Grants.insert, hkept, List.map_cons, List.length_append, List.length_singleton,
      List.range_succ, hindex]
    exact (List.perm_append_singleton _ _).symm.trans (h.indices.append_right _)
  · intro index hle
    rw [Grants.lookup_insert]
    split
    · rename_i hsame
      rw [hsame, hgrant]
    · refine h.lookup index ?_
      rw [List.length_append, List.length_singleton] at hle
      omega

theorem GrantsOf.known (h : GrantsOf plan effectiveGrant count grants) (hle : index ≤ count) :
    ∃ grant, grants.lookup index = some grant ∧
      grantOf plan effectiveGrant index = some grant := by
  have hmem : index ∈ grants.map Prod.fst :=
    h.indices.symm.subset (List.mem_range.mpr (Nat.lt_succ_of_le hle))
  have hsome : (grants.lookup index).isSome := by
    rw [Option.isSome_iff_ne_none]
    intro hnone
    obtain ⟨entry, hentry, rfl⟩ := List.mem_map.mp hmem
    exact absurd (List.lookup_eq_none_iff.mp hnone entry hentry) (by simp)
  obtain ⟨grant, hgrant⟩ := Option.isSome_iff_exists.mp hsome
  exact ⟨grant, hgrant, by rw [← h.lookup index hle, hgrant]⟩

/-- How an admission ends: with every grant of the plan, or with a refusal. -/
def Admission.Concludes (plan : ApplicationPlan) (effectiveGrant : EffectiveGrant)
    (admission : Admission) : Option LiveError → Prop
  | none => ∃ grants, admission.result = .ok grants ∧
      GrantsOf plan effectiveGrant plan.children.length grants
  | some error => admission.result = .error error

theorem childRelations_eq (h : grantOf plan effectiveGrant child.parentApplicationIndex =
    some parentGrant) :
    childRelations plan effectiveGrant child =
      [delegationRelation parentGrant child, requestRelation child] := by
  simp [childRelations, h]

theorem admitChildren_judged (hordered : plan.Ordered) (rest done : List ResolvedChild)
    (hsplit : plan.children = done ++ rest) (grants : Grants)
    (hgrants : GrantsOf plan effectiveGrant done.length grants)
    (before : List CapabilityDecision) :
    ∃ observed refusal,
      Judged upstream (rest.flatMap (childRelations plan effectiveGrant)) observed refusal ∧
      (admitChildren upstream rest grants before).observed = before ++ observed ∧
      (admitChildren upstream rest grants before).Concludes plan effectiveGrant refusal := by
  induction rest generalizing done grants before with
  | nil =>
    rw [List.append_nil] at hsplit
    refine ⟨[], none, .allowed (by simp), by simp [admitChildren], grants, rfl, ?_⟩
    rwa [hsplit]
  | cons child rest ih =>
    obtain ⟨hindex, _, hgrants'⟩ := hgrants.insert hordered hsplit
    have hparent := hordered.parents child (by rw [hsplit]; simp)
    have hknown : child.parentApplicationIndex ≤ done.length := by omega
    obtain ⟨parentGrant, hlookup, hgrant⟩ := hgrants.known hknown
    rw [List.flatMap_cons, childRelations_eq hgrant]
    by_cases hdelegation : (delegationRelation parentGrant child).Holds upstream
    · have hadmits : upstream.admits parentGrant.capabilities
          child.delegatedCapabilities.capabilities = true := hdelegation
      by_cases hrequest : (requestRelation child).Holds upstream
      · have hadmitted : upstream.admits child.delegatedCapabilities.capabilities
            child.requestedCapabilities.capabilities = true := hrequest
        have hrun : admitChildren upstream (child :: rest) grants before =
            admitChildren upstream rest (Grants.insert grants child.applicationIndex
              (.fromDelegation child.delegatedCapabilities))
              (before ++ [(delegationRelation parentGrant child).decision true] ++
                [(requestRelation child).decision true]) := by
          simp [admitChildren, hlookup, authorizeChildDelegation, hadmits, hadmitted,
            EffectiveGrant.fromDelegation, delegationRelation, requestRelation]
        rw [hrun]
        obtain ⟨observed, refusal, hjudged, hobserved, hconcludes⟩ := ih (done ++ [child])
          (by simpa using hsplit) _ hgrants' _
        refine ⟨_, refusal, (hjudged.cons hrequest).cons hdelegation, ?_, hconcludes⟩
        rw [hobserved]
        simp
      · have hrefused : upstream.admits child.delegatedCapabilities.capabilities
            child.requestedCapabilities.capabilities = false := by
          simpa [Relation.Holds, requestRelation] using hrequest
        have hrun : admitChildren upstream (child :: rest) grants before =
            ⟨before ++ [(delegationRelation parentGrant child).decision true] ++
              [(requestRelation child).decision false], .error (requestRelation child).refusal⟩ := by
          simp [admitChildren, hlookup, authorizeChildDelegation, hadmits, hrefused,
            EffectiveGrant.fromDelegation, delegationRelation, requestRelation]
        rw [hrun]
        exact ⟨_, _, (Judged.first hrequest _).cons hdelegation, by simp, rfl⟩
    · have hrefused : upstream.admits parentGrant.capabilities
          child.delegatedCapabilities.capabilities = false := by
        simpa [Relation.Holds, delegationRelation] using hdelegation
      have hrun : admitChildren upstream (child :: rest) grants before =
          ⟨before ++ [(delegationRelation parentGrant child).decision false],
            .error (delegationRelation parentGrant child).refusal⟩ := by
        simp [admitChildren, hlookup, authorizeChildDelegation, hrefused, delegationRelation]
      rw [hrun]
      exact ⟨_, _, Judged.first hdelegation _, rfl, rfl⟩

/-- An admission judges the relations of its plan in plan order. -/
theorem admittedGrantsWith_judged (hordered : plan.Ordered) (effectiveGrant : EffectiveGrant) :
    ∃ refusal,
      Judged upstream (relations plan effectiveGrant)
        (plan.admittedGrantsWith upstream effectiveGrant).observed refusal ∧
      (plan.admittedGrantsWith upstream effectiveGrant).Concludes plan effectiveGrant refusal := by
  by_cases hroot : (rootRelation plan effectiveGrant).Holds upstream
  · have hadmits : upstream.admits effectiveGrant.capabilities
        plan.requestedCapabilities.capabilities = true := hroot
    have hrun : plan.admittedGrantsWith upstream effectiveGrant =
        admitChildren upstream plan.children [(0, effectiveGrant)]
          [(rootRelation plan effectiveGrant).decision true] := by
      simp [ApplicationPlan.admittedGrantsWith, EffectiveGrant.authorize, hadmits, rootRelation]
    have hstart : GrantsOf plan effectiveGrant ([] : List ResolvedChild).length
        [(0, effectiveGrant)] := by
      refine ⟨List.Perm.refl _, fun index hle => ?_⟩
      obtain rfl : index = 0 := by simpa using hle
      simp [grantOf]
    obtain ⟨observed, refusal, hjudged, hobserved, hconcludes⟩ := admitChildren_judged hordered
      plan.children [] rfl _ hstart [(rootRelation plan effectiveGrant).decision true]
    rw [hrun]
    refine ⟨refusal, ?_, hconcludes⟩
    rw [hobserved]
    exact hjudged.cons hroot
  · have hrefused : upstream.admits effectiveGrant.capabilities
        plan.requestedCapabilities.capabilities = false := by
      simpa [Relation.Holds, rootRelation] using hroot
    have hrun : plan.admittedGrantsWith upstream effectiveGrant =
        ⟨[(rootRelation plan effectiveGrant).decision false],
          .error (rootRelation plan effectiveGrant).refusal⟩ := by
      simp [ApplicationPlan.admittedGrantsWith, EffectiveGrant.authorize, hrefused, rootRelation]
    rw [hrun]
    exact ⟨_, Judged.first hroot _, rfl⟩

theorem mem_relations (h : relation ∈ relations plan effectiveGrant) :
    relation = rootRelation plan effectiveGrant ∨
      ∃ child ∈ plan.children, ∃ parentGrant,
        grantOf plan effectiveGrant child.parentApplicationIndex = some parentGrant ∧
        (relation = delegationRelation parentGrant child ∨ relation = requestRelation child) := by
  simp only [relations, List.mem_cons, List.mem_flatMap, childRelations, Option.mem_toList,
    List.not_mem_nil, or_false] at h
  rcases h with h | ⟨child, hchild, parentGrant, hgrant, h⟩
  · exact .inl h
  · exact .inr ⟨child, hchild, parentGrant, hgrant, h⟩

theorem relation_refusal (h : relation ∈ relations plan effectiveGrant) :
    ∃ text, relation.refusal = .authorization text := by
  rcases mem_relations h with rfl | ⟨child, _, parentGrant, _, rfl | rfl⟩ <;> exact ⟨_, rfl⟩

/-- Where an admission fails, it is for the first relation that does not hold. -/
theorem admittedGrantsWith_error (hordered : plan.Ordered)
    (h : (plan.admittedGrantsWith upstream effectiveGrant).result = .error error) :
    ∃ (before : List Relation) (relation : Relation) (after : List Relation),
      relations plan effectiveGrant = before ++ relation :: after ∧
      (∀ earlier ∈ before, earlier.Holds upstream) ∧ ¬ relation.Holds upstream ∧
      error = relation.refusal ∧
      (plan.admittedGrantsWith upstream effectiveGrant).observed =
        before.map (·.decision true) ++ [relation.decision false] := by
  obtain ⟨refusal, hjudged, hconcludes⟩ :=
    @admittedGrantsWith_judged upstream plan hordered effectiveGrant
  generalize plan.admittedGrantsWith upstream effectiveGrant = admission at h hjudged hconcludes
  obtain ⟨observed, result⟩ := admission
  cases hjudged with
  | allowed holds =>
    obtain ⟨grants, hok, _⟩ := hconcludes
    rw [h] at hok
    cases hok
  | @denied before relation after split holds fails =>
    obtain rfl := Except.error.inj (h.symm.trans hconcludes)
    exact ⟨before, relation, after, split, holds, fails, rfl, rfl⟩

theorem admittedGrantsWith_ok (hordered : plan.Ordered)
    (h : (plan.admittedGrantsWith upstream effectiveGrant).result = .ok grants) :
    (∀ relation ∈ relations plan effectiveGrant, relation.Holds upstream) ∧
      GrantsOf plan effectiveGrant plan.children.length grants ∧
      (plan.admittedGrantsWith upstream effectiveGrant).observed =
        (relations plan effectiveGrant).map (·.decision true) := by
  obtain ⟨refusal, hjudged, hconcludes⟩ :=
    @admittedGrantsWith_judged upstream plan hordered effectiveGrant
  generalize plan.admittedGrantsWith upstream effectiveGrant = admission at h hjudged hconcludes
  obtain ⟨observed, result⟩ := admission
  cases hjudged with
  | allowed holds =>
    obtain ⟨grants', hok, hgrants⟩ := hconcludes
    obtain rfl := Except.ok.inj (h.symm.trans hok)
    exact ⟨holds, hgrants, rfl⟩
  | denied split holds fails =>
    cases h.symm.trans hconcludes

/-- On a numbered plan an admission never loses a parent. -/
theorem admittedGrantsWith_no_conflict (hordered : plan.Ordered) (effectiveGrant : EffectiveGrant)
    (text : String) :
    (plan.admittedGrantsWith upstream effectiveGrant).result ≠ .error (.conflict text) := by
  intro h
  obtain ⟨before, relation, after, hsplit, _, _, herror, _⟩ := admittedGrantsWith_error hordered h
  have hmem : relation ∈ relations plan effectiveGrant := by simp [hsplit]
  obtain ⟨refused, hrefusal⟩ := relation_refusal hmem
  rw [hrefusal] at herror
  cases herror

end Ordered

end HologramLive.Plan
