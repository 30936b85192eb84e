import HologramLive.Plan.Explain

namespace HologramLive.Plan
open Lib Lib.Result ClosureResolver

/-- Blockers the planner records beside those of a resolution, with what it saw. -/
inductive Incident (upstream : Upstream) (named : String → Prop) (closure : ClosureResolver) :
    PlanBlocker → Prop where
  | capabilities : Incident upstream named closure (.invalidCapabilitySet kappa reason)
  | cycle : Incident upstream named closure (.childCycle path)
  | limit : Incident upstream named closure (.limitExceeded limit maximum actual edge)
  | manifest (hnamed : named kappa) (hobject : closure.objects.lookup kappa = some object)
    (hdecode : decodeChildManifest upstream object = .error reason) :
    Incident upstream named closure (.invalidChildManifest kappa edge reason)

/-- A property of the resolver that planning manifests which name only the given
kappas cannot break. -/
structure Keeps (upstream : Upstream) (resolver : Resolver) (named : String → Prop)
    (P : ClosureResolver → Prop) : Prop where
  resolve : ∀ {closure kappa edge outcome after}, named kappa → P closure →
    closure.resolve upstream resolver kappa edge = .ok (outcome, after) → P after
  block : ∀ {closure blocker}, P closure → Incident upstream named closure blocker →
    P (closure.block blocker)

section Keeps
variable {upstream : Upstream} {resolver : Resolver} {limits : PlanLimits}
  {named : String → Prop} {P : ClosureResolver → Prop}

theorem Walk.resolve_ok {walk : Walk} :
    walk.resolve upstream resolver kappa edge = .ok (outcome, walk') ↔
      ∃ closure, walk.closure.resolve upstream resolver kappa edge = .ok (outcome, closure) ∧
        walk' = walk.withClosure closure := by
  unfold Walk.resolve
  cases walk.closure.resolve upstream resolver kappa edge with
  | error error => simp
  | ok found => simp [eq_comm, Prod.ext_iff]

theorem Walk.updateAdmission_closure (walk : Walk) (index : Option Nat)
    (update : PendingChildAdmission → PendingChildAdmission) :
    (walk.updateAdmission index update).closure = walk.closure := by
  cases index <;> rfl

/-- What an update of an admission keeps is kept of all of them. -/
theorem Walk.updateAdmission_map {f : PendingChildAdmission → α}
    {update : PendingChildAdmission → PendingChildAdmission} (walk : Walk) (index : Option Nat)
    (hsame : ∀ admission, f (update admission) = f admission) :
    (walk.updateAdmission index update).childAdmissions.map f = walk.childAdmissions.map f := by
  cases index with
  | none => rfl
  | some index =>
    refine List.ext_getElem? fun place => ?_
    simp only [Walk.updateAdmission, List.getElem?_map, List.getElem?_modify]
    cases walk.childAdmissions[place]? with
    | none => rfl
    | some admission =>
      by_cases hplace : index = place <;> simp [hplace, hsame]

theorem Walk.require_closure (walk : Walk) (application : PendingApplication)
    (capabilities : RequestedCapabilities) :
    (walk.require application capabilities).closure = walk.closure := by
  unfold Walk.require
  split
  · rfl
  · exact Walk.updateAdmission_closure _ _ _

theorem Walk.enter_closure (walk : Walk) (application : PendingApplication) :
    (walk.enter application).closure = walk.closure :=
  Walk.updateAdmission_closure _ _ _

variable (hkeeps : Keeps upstream resolver named P)
include hkeeps

theorem planRequires_keeps {walk : Walk} (hp : P walk.closure)
    (hnamed : named application.manifest.requires)
    (h : planRequires upstream resolver application walk = .ok walk') : P walk'.closure := by
  obtain ⟨⟨outcome, resolved⟩, hresolve, h⟩ := bind_ok.mp h
  obtain ⟨closure, hclosure, rfl⟩ := Walk.resolve_ok.mp hresolve
  have hp' := hkeeps.resolve hnamed hp hclosure
  dsimp only at h
  split at h
  · cases h
    exact hp'
  split at h
  · cases h
    rw [Walk.require_closure]
    exact hp'
  · cases h
    exact hkeeps.block hp' .capabilities

theorem planLayers_keeps {walk : Walk} (layers : List (Layer × Nat)) (hp : P walk.closure)
    (hnamed : ∀ layer ∈ layers, named layer.1.content)
    (h : planLayers upstream resolver application layers walk = .ok walk') : P walk'.closure := by
  induction layers generalizing walk with
  | nil =>
    cases h
    exact hp
  | cons layer rest ih =>
    obtain ⟨hlayer, hrest⟩ := List.forall_mem_cons.mp hnamed
    obtain ⟨⟨outcome, resolved⟩, hresolve, h⟩ := bind_ok.mp h
    obtain ⟨closure, hclosure, rfl⟩ := Walk.resolve_ok.mp hresolve
    exact ih (hkeeps.resolve hlayer hp hclosure) hrest h

theorem planDelegated_keeps {walk : Walk} (hp : P walk.closure) (hnamed : named kappa)
    (h : planDelegated upstream resolver kappa edge walk = .ok (outcome, walk')) :
    P walk'.closure := by
  obtain ⟨⟨found, resolved⟩, hresolve, h⟩ := bind_ok.mp h
  obtain ⟨closure, hclosure, rfl⟩ := Walk.resolve_ok.mp hresolve
  have hp' := hkeeps.resolve hnamed hp hclosure
  dsimp only at h
  split at h
  · cases h
    exact hp'
  split at h
  · cases h
    exact hp'
  · cases h
    exact hkeeps.block hp' .capabilities

theorem admitChild_keeps {walk : Walk} (hp : P walk.closure) (hchild : named childKappa)
    (hcapabilities : named capabilitiesKappa)
    (h : admitChild upstream resolver application position childKappa capabilitiesKappa walk =
      .ok walk') : P walk'.closure := by
  obtain ⟨⟨delegated, planned⟩, hdelegated, h⟩ := bind_ok.mp h
  have hnumbered : P (walk.number application).closure := hp
  have hplanned := planDelegated_keeps hkeeps hnumbered hcapabilities hdelegated
  obtain ⟨⟨outcome, resolved⟩, hresolve, h⟩ := bind_ok.mp h
  obtain ⟨closure, hclosure, rfl⟩ := Walk.resolve_ok.mp hresolve
  have hp' := hkeeps.resolve hchild hplanned hclosure
  dsimp only at h
  split at h
  · cases h
    exact hp'
  split at h
  · rename_i reason hdecode
    cases h
    exact hkeeps.block hp' (.manifest hchild (resolve_found hclosure) hdecode)
  · cases h
    exact hp'

theorem planChild_keeps {walk : Walk} (hp : P walk.closure) (hchild : named childKappa)
    (hcapabilities : named capabilitiesKappa)
    (h : planChild upstream resolver limits application position childKappa capabilitiesKappa
      walk = .ok walk') : P walk'.closure := by
  have hreferred : P (walk.refer application position childKappa capabilitiesKappa).closure := hp
  dsimp only [planChild] at h
  split at h
  · cases h
    exact hkeeps.block hp .cycle
  split at h
  · cases h
    exact hkeeps.block hp .limit
  split at h
  · cases h
    exact hp
  split at h
  · cases h
    exact hkeeps.block hp .limit
  · exact admitChild_keeps hkeeps hreferred hchild hcapabilities h

theorem planChildren_keeps {walk : Walk} (children : List ((String × String) × Nat))
    (hp : P walk.closure) (hnamed : ∀ child ∈ children, named child.1.1 ∧ named child.1.2)
    (h : planChildren upstream resolver limits application children walk = .ok walk') :
    P walk'.closure := by
  induction children generalizing walk with
  | nil =>
    cases h
    exact hp
  | cons child rest ih =>
    obtain ⟨⟨hchild, hcapabilities⟩, hrest⟩ := List.forall_mem_cons.mp hnamed
    obtain ⟨planned, hplanned, h⟩ := bind_ok.mp h
    exact ih (planChild_keeps hkeeps hp hchild hcapabilities hplanned) hrest h

/-- One turn of the loop keeps what its manifest's kappas cannot break. -/
theorem planApplication_keeps {walk : Walk} (hp : P walk.closure)
    (hnamed : ∀ kappa ∈ application.manifest.names, named kappa)
    (h : planApplication upstream resolver limits application walk = .ok (broke, walk')) :
    P walk'.closure := by
  have hentered : P (walk.enter application).closure := by rwa [Walk.enter_closure]
  dsimp only [planApplication] at h
  split at h
  · cases h
    exact hkeeps.block hentered .limit
  · obtain ⟨required, hrequired, h⟩ := bind_ok.mp h
    obtain ⟨layered, hlayered, h⟩ := bind_ok.mp h
    have hp' := planLayers_keeps hkeeps _
      (planRequires_keeps hkeeps hentered (hnamed _ AppManifest.requires_names) hrequired)
      (fun layer hlayer => hnamed _
        (AppManifest.layer_names (List.fst_mem_of_mem_zipIdx hlayer))) hlayered
    split at h
    · cases h
      exact hp'
    · obtain ⟨planned, hplanned, h⟩ := bind_ok.mp h
      cases h
      refine planChildren_keeps hkeeps _ hp' (fun child hchild => ?_) hplanned
      have hmem := List.fst_mem_of_mem_zipIdx hchild
      exact ⟨hnamed _ (AppManifest.child_names hmem).1, hnamed _ (AppManifest.child_names hmem).2⟩

/-- The whole loop keeps what no kappa can break. -/
theorem planLoop_keeps (hall : ∀ kappa, named kappa) (fuel : Nat) {walk : Walk} (hp : P walk.closure)
    (h : planLoop upstream resolver limits fuel walk = .ok walk') : P walk'.closure := by
  induction fuel generalizing walk with
  | zero =>
    unfold planLoop at h
    split at h
    · cases h
      exact hp
    · cases h
  | succ fuel ih =>
    unfold planLoop at h
    split at h
    · cases h
      exact hp
    · rename_i application rest hpending
      obtain ⟨⟨broke, turned⟩, hturn, h⟩ := bind_ok.mp h
      have hpopped : P ({ walk with pending := rest } : Walk).closure := hp
      have hturned := planApplication_keeps hkeeps hpopped (fun kappa _ => hall kappa) hturn
      dsimp only at h
      split at h
      · cases h
        exact hturned
      · exact ih hturned h

end Keeps

section Clean
variable {upstream : Upstream} {resolver : Resolver} {limits : PlanLimits}

theorem keeps_grows (named : String → Prop) (before : ClosureResolver) :
    Keeps upstream resolver named fun closure => closure.Valid upstream ∧ before.Grows closure where
  resolve := by
    rintro closure kappa edge outcome after _ ⟨hvalid, hgrows⟩ h
    cases resolve_resolved hvalid h with
    | found h => exact ⟨h.valid, hgrows.trans h.grows⟩
    | blocked valid grows => exact ⟨valid, hgrows.trans grows⟩
  block := fun ⟨hvalid, hgrows⟩ _ => ⟨hvalid.block _, hgrows.trans (grows_block _ _)⟩

theorem resolve_clean {walk : Walk} (hvalid : walk.closure.Valid upstream)
    (h : walk.resolve upstream resolver kappa edge = .ok (outcome, walk'))
    (hclean : walk'.closure.Clean) :
    ∃ object closure, outcome = some object ∧ Found upstream walk.closure kappa object closure ∧
      walk' = walk.withClosure closure := by
  obtain ⟨closure, hresolve, rfl⟩ := Walk.resolve_ok.mp h
  obtain ⟨object, rfl, hfound⟩ := (resolve_resolved hvalid hresolve).clean hclean
  exact ⟨object, closure, rfl, hfound, rfl⟩

theorem planRequires_clean {walk : Walk} (hvalid : walk.closure.Valid upstream)
    (h : planRequires upstream resolver application walk = .ok walk')
    (hclean : walk'.closure.Clean) :
    ∃ object closure, Found upstream walk.closure application.manifest.requires object closure ∧
      ((∃ capabilities, RequestedCapabilities.decode upstream application.manifest.requires
          object.bytes = .ok capabilities ∧
          walk' = (walk.withClosure closure).require application capabilities) ∨
        ∃ reason, walk' = (walk.withClosure closure).block
          (.invalidCapabilitySet application.manifest.requires reason)) := by
  obtain ⟨⟨outcome, resolved⟩, hresolve, h⟩ := bind_ok.mp h
  dsimp only at h
  have hresolved : resolved.closure.Clean := by
    split at h
    · cases h
      exact hclean
    split at h
    · cases h
      rwa [Walk.require_closure] at hclean
    · cases h
      exact (grows_block _ _).clean hclean
  obtain ⟨object, closure, rfl, hfound, rfl⟩ := resolve_clean hvalid hresolve hresolved
  refine ⟨object, closure, hfound, ?_⟩
  rw [← hfound.kappa_eq]
  dsimp only at h
  split at h
  · rename_i capabilities hdecode
    cases h
    exact .inl ⟨capabilities, hdecode, rfl⟩
  · rename_i error hdecode
    cases h
    exact .inr ⟨error.message, rfl⟩

theorem planLayers_clean {walk : Walk} (layers : List (Layer × Nat))
    (hvalid : walk.closure.Valid upstream)
    (h : planLayers upstream resolver application layers walk = .ok walk')
    (hclean : walk'.closure.Clean) :
    ∃ closure, closure.Valid upstream ∧ walk.closure.Grows closure ∧
      closure.blockers = walk.closure.blockers ∧
      (∀ layer ∈ layers, ∃ object, closure.objects.lookup layer.1.content = some object) ∧
      walk' = walk.withClosure closure := by
  induction layers generalizing walk with
  | nil =>
    cases h
    exact ⟨_, hvalid, .refl _, rfl, by simp, rfl⟩
  | cons layer rest ih =>
    obtain ⟨⟨outcome, resolved⟩, hresolve, h⟩ := bind_ok.mp h
    obtain ⟨middle, hmiddle, rfl⟩ := Walk.resolve_ok.mp hresolve
    have hresolved := resolve_resolved hvalid hmiddle
    have hrest := planLayers_keeps (keeps_grows (fun _ => True) middle) rest
      ⟨hresolved.valid, .refl middle⟩ (fun _ _ => trivial) h
    obtain ⟨object, rfl, hfound⟩ := hresolved.clean (hrest.2.clean hclean)
    obtain ⟨closure, hvalid', hgrows, hblockers, hlayers, rfl⟩ := ih hfound.valid h
    refine ⟨closure, hvalid', hfound.grows.trans hgrows, hblockers.trans hfound.blockers,
      List.forall_mem_cons.mpr ⟨⟨object, hgrows.objects _ _ hfound.kept⟩, hlayers⟩, rfl⟩

theorem planDelegated_clean {walk : Walk} (hvalid : walk.closure.Valid upstream)
    (h : planDelegated upstream resolver kappa edge walk = .ok (delegated, walk'))
    (hclean : walk'.closure.Clean) :
    ∃ object closure children, Found upstream walk.closure kappa object closure ∧
      ((∃ capabilities, DelegatedCapabilities.decode upstream kappa object.bytes =
          .ok capabilities ∧ delegated = some capabilities ∧
          walk' = { walk with closure, children }) ∨
        ∃ reason, delegated = none ∧ walk' = { walk with
          closure := closure.block (.invalidCapabilitySet kappa reason), children }) := by
  obtain ⟨⟨outcome, resolved⟩, hresolve, h⟩ := bind_ok.mp h
  dsimp only at h
  have hresolved : resolved.closure.Clean := by
    split at h
    · cases h
      exact hclean
    split at h
    · cases h
      exact hclean
    · cases h
      exact (grows_block resolved.closure _).clean hclean
  obtain ⟨object, closure, rfl, hfound, rfl⟩ := resolve_clean hvalid hresolve hresolved
  refine ⟨object, closure, walk'.children, hfound, ?_⟩
  rw [← hfound.kappa_eq]
  dsimp only at h
  split at h
  · rename_i capabilities hdecode
    cases h
    exact .inl ⟨capabilities, hdecode, rfl, rfl⟩
  · rename_i error hdecode
    cases h
    exact .inr ⟨error.message, rfl, rfl⟩

/-- The state a child is queued from: numbered, with what resolving it added. -/
def Walk.numbered (walk : Walk) (closure : ClosureResolver) (children : List ChildReference)
    (maxDepth : Nat) : Walk :=
  { walk with closure, children, maxDepth, applicationCount := walk.applicationCount + 1 }

/-- What a child edge comes to while nothing closing is met. -/
inductive ChildPlanned (upstream : Upstream) (application : PendingApplication) (position : Nat)
    (childKappa capabilitiesKappa : String) (walk : Walk) : Walk → Prop where
  | cycle (known : childKappa ∈ application.path) :
    ChildPlanned upstream application position childKappa capabilitiesKappa walk
      { walk with closure := walk.closure.block (.childCycle path), children }
  | admitted {closure : ClosureResolver} (fresh : childKappa ∉ application.path)
    (valid : closure.Valid upstream)
    (grows : walk.closure.Grows closure)
    (delegates : closure.objects.lookup capabilitiesKappa = some capabilitiesObject)
    (names : closure.objects.lookup childKappa = some object)
    (decodes : decodeChildManifest upstream object = .ok manifest)
    (decided : (∃ capabilities, DelegatedCapabilities.decode upstream capabilitiesKappa
        capabilitiesObject.bytes = .ok capabilities ∧ delegated = some capabilities ∧
        closure.blockers = walk.closure.blockers) ∨ delegated = none ∧ closure.blockers ≠ []) :
    ChildPlanned upstream application position childKappa capabilitiesKappa walk
      ((walk.numbered closure children maxDepth).enqueue application walk.applicationCount position
        childKappa manifest delegated)

theorem admitChild_clean {walk : Walk} (hvalid : walk.closure.Valid upstream)
    (fresh : childKappa ∉ application.path)
    (h : admitChild upstream resolver application position childKappa capabilitiesKappa walk =
      .ok walk') (hclean : walk'.closure.Clean) :
    ChildPlanned upstream application position childKappa capabilitiesKappa walk walk' := by
  obtain ⟨⟨delegated, planned⟩, hdelegated, h⟩ := bind_ok.mp h
  obtain ⟨⟨outcome, resolved⟩, hresolve, h⟩ := bind_ok.mp h
  dsimp only at h
  have hnumbered : (walk.number application).closure.Valid upstream := hvalid
  obtain ⟨after, hafter, rfl⟩ := Walk.resolve_ok.mp hresolve
  have hplanned := planDelegated_keeps (keeps_grows (fun _ => True) _)
    ⟨hnumbered, .refl _⟩ trivial hdelegated
  have hresolved := resolve_resolved hplanned.1 hafter
  have hafterClean : after.Clean := by
    split at h
    · cases h
      exact hclean
    split at h
    · cases h
      exact (grows_block after _).clean hclean
    · cases h
      exact hclean
  obtain ⟨object, rfl, hfound⟩ := hresolved.clean hafterClean
  obtain ⟨capabilitiesObject, closure, children, hdelegates, hdecided⟩ :=
    planDelegated_clean hnumbered hdelegated (hfound.grows.clean hafterClean)
  have hobject : object.kappa = childKappa := hfound.kappa_eq
  dsimp only at h
  split at h
  · cases h
    exact absurd (hclean _ (List.mem_append_right _ List.mem_cons_self)) (by simp [PlanBlocker.closing])
  · rename_i manifest hdecode
    cases h
    rw [hobject]
    rcases hdecided with ⟨capabilities, hcapabilities, rfl, rfl⟩ | ⟨reason, rfl, rfl⟩
    · exact .admitted fresh hfound.valid (hdelegates.grows.trans hfound.grows)
        (hfound.grows.objects _ _ hdelegates.kept) hfound.kept hdecode
        (.inl ⟨capabilities, hcapabilities, rfl, hfound.blockers.trans hdelegates.blockers⟩)
    · have hblocked : after.blockers ≠ [] := by
        rw [hfound.blockers]
        simp [block]
      exact .admitted fresh hfound.valid
        (hdelegates.grows.trans ((grows_block closure _).trans hfound.grows))
        (hfound.grows.objects _ _ hdelegates.kept) hfound.kept hdecode (.inr ⟨rfl, hblocked⟩)

theorem childCyclePath_none : childCyclePath path kappa = none ↔ kappa ∉ path := by
  simp [childCyclePath]

theorem planChild_clean {walk : Walk} (hvalid : walk.closure.Valid upstream)
    (hopen : walk.applicationsLimited = false)
    (h : planChild upstream resolver limits application position childKappa capabilitiesKappa
      walk = .ok walk') (hclean : walk'.closure.Clean) :
    ChildPlanned upstream application position childKappa capabilitiesKappa walk walk' := by
  have hreferred : (walk.refer application position childKappa
      capabilitiesKappa).closure.Valid upstream := hvalid
  dsimp only [planChild] at h
  split at h
  · rename_i path hpath
    cases h
    refine .cycle ?_
    by_contra hfresh
    rw [childCyclePath_none.mpr hfresh] at hpath
    cases hpath
  rename_i hpath
  split at h
  · cases h
    exact absurd (hclean _ (List.mem_append_right _ List.mem_cons_self)) (by simp [PlanBlocker.closing])
  split at h
  · rename_i hlimited
    rw [Walk.refer, hopen] at hlimited
    cases hlimited
  split at h
  · cases h
    exact absurd (hclean _ (List.mem_append_right _ List.mem_cons_self)) (by simp [PlanBlocker.closing])
  · have hplanned := admitChild_clean hreferred (childCyclePath_none.mp hpath) h hclean
    cases hplanned with
    | cycle known => exact .cycle known
    | admitted fresh valid grows delegates names decodes decided =>
      exact .admitted fresh valid grows delegates names decodes decided

end Clean

end HologramLive.Plan
