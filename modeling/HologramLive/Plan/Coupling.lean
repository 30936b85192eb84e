import HologramLive.Plan.Steps

namespace HologramLive.Plan
open Lib Lib.Result ClosureResolver

/-- Two outcomes that are one, or that split apart: then whatever the second one ends in
shows it. -/
def Coupled (splits : Prop) (Shows : ClosureResolver → Prop) (closure : α → ClosureResolver)
    (first second : Except LiveError α) : Prop :=
  first = second ∨ splits ∧ ∀ value, second = .ok value → Shows (closure value)

/-- Two resolvers that answer alike where `Holds`, until they split apart. -/
structure Couples (upstream : Upstream) (first second : Resolver) (splits : Prop)
    (Holds Shows : ClosureResolver → Prop) : Prop where
  holds : Keeps upstream second (fun _ => True) Holds
  shows : Keeps upstream second (fun _ => True) Shows
  resolve : ∀ {closure : ClosureResolver} {kappa edge}, Holds closure →
    Coupled splits Shows Prod.snd (closure.resolve upstream first kappa edge)
      (closure.resolve upstream second kappa edge)

section Coupled
variable {splits : Prop} {Shows : ClosureResolver → Prop}

theorem Coupled.same {closure : α → ClosureResolver} (outcome : Except LiveError α) :
    Coupled splits Shows closure outcome outcome := .inl rfl

theorem Coupled.bind {α β : Type} {view : α → ClosureResolver} {view' : β → ClosureResolver}
    {first second : Except LiveError α} {next next' : α → Except LiveError β}
    (h : Coupled splits Shows view first second)
    (hsame : ∀ value, second = .ok value → Coupled splits Shows view' (next value) (next' value))
    (hsplit : ∀ value ended, second = .ok value → Shows (view value) →
      next' value = .ok ended → Shows (view' ended)) :
    Coupled splits Shows view' (first >>= next) (second >>= next') := by
  rcases h with rfl | ⟨hsplits, hshows⟩
  · cases first with
    | error error => exact .same _
    | ok value => exact hsame value rfl
  · refine .inr ⟨hsplits, fun ended hended => ?_⟩
    obtain ⟨value, hvalue, hended⟩ := bind_ok.mp hended
    exact hsplit value ended hvalue (hshows value hvalue) hended

end Coupled

section Planner
variable {upstream : Upstream} {first second : Resolver} {limits : PlanLimits} {splits : Prop}
  {Holds Shows : ClosureResolver → Prop}
  (hcouples : Couples upstream first second splits Holds Shows)
include hcouples

theorem Walk.resolve_coupled {walk : Walk} (hholds : Holds walk.closure) :
    Coupled splits Shows (fun found => found.2.closure)
      (walk.resolve upstream first kappa edge) (walk.resolve upstream second kappa edge) := by
  apply Coupled.bind (hcouples.resolve hholds)
  · intro value _
    exact .same _
  · rintro ⟨object, closure⟩ ended _ hshows hended
    cases hended
    exact hshows

/-- What follows a resolution stays coupled with itself. -/
theorem Walk.resolve_then {α : Type} {view : α → ClosureResolver} {walk : Walk}
    {next next' : Option ResolvedObject × Walk → Except LiveError α} (hholds : Holds walk.closure)
    (hsame : ∀ outcome walk', Holds walk'.closure →
      Coupled splits Shows view (next (outcome, walk')) (next' (outcome, walk')))
    (hsplit : ∀ outcome walk' ended,
      (∀ object, outcome = some object → walk'.closure.objects.lookup kappa = some object) →
      Shows walk'.closure → next' (outcome, walk') = .ok ended → Shows (view ended)) :
    Coupled splits Shows view (walk.resolve upstream first kappa edge >>= next)
      (walk.resolve upstream second kappa edge >>= next') := by
  apply Coupled.bind (Walk.resolve_coupled hcouples hholds)
  · rintro ⟨outcome, walk'⟩ hvalue
    obtain ⟨closure, hclosure, rfl⟩ := Walk.resolve_ok.mp hvalue
    exact hsame _ _ (hcouples.holds.resolve trivial hholds hclosure)
  · rintro ⟨outcome, walk'⟩ ended hvalue hshows hended
    obtain ⟨closure, hclosure, rfl⟩ := Walk.resolve_ok.mp hvalue
    refine hsplit _ _ _ (fun object hobject => ?_) hshows hended
    subst hobject
    exact resolve_found hclosure

theorem planRequires_coupled {walk : Walk} (hholds : Holds walk.closure) :
    Coupled splits Shows Walk.closure (planRequires upstream first application walk)
      (planRequires upstream second application walk) := by
  apply Walk.resolve_then hcouples hholds
  · intro outcome walk' _
    exact .same _
  · intro outcome walk' ended _ hshows hended
    dsimp only at hended
    split at hended
    · cases hended
      exact hshows
    split at hended
    · cases hended
      rwa [Walk.require_closure]
    · cases hended
      exact hcouples.shows.block hshows .capabilities

theorem planLayers_coupled {walk : Walk} (layers : List (Layer × Nat))
    (hholds : Holds walk.closure) :
    Coupled splits Shows Walk.closure (planLayers upstream first application layers walk)
      (planLayers upstream second application layers walk) := by
  induction layers generalizing walk with
  | nil => exact .same _
  | cons layer rest ih =>
    apply Walk.resolve_then hcouples hholds
    · intro outcome walk' hholds'
      exact ih hholds'
    · intro outcome walk' ended _ hshows hended
      exact planLayers_keeps hcouples.shows rest hshows (fun _ _ => trivial) hended

theorem planDelegated_coupled {walk : Walk} (hholds : Holds walk.closure) :
    Coupled splits Shows (fun delegated => delegated.2.closure)
      (planDelegated upstream first kappa edge walk)
      (planDelegated upstream second kappa edge walk) := by
  apply Walk.resolve_then hcouples hholds
  · intro outcome walk' _
    exact .same _
  · intro outcome walk' ended _ hshows hended
    dsimp only at hended
    split at hended
    · cases hended
      exact hshows
    split at hended
    · cases hended
      exact hshows
    · cases hended
      exact hcouples.shows.block hshows .capabilities

theorem admitChild_coupled {walk : Walk} (hholds : Holds walk.closure) :
    Coupled splits Shows Walk.closure
      (admitChild upstream first application position childKappa capabilitiesKappa walk)
      (admitChild upstream second application position childKappa capabilitiesKappa walk) := by
  have hnumbered : Holds (walk.number application).closure := hholds
  apply Coupled.bind (planDelegated_coupled hcouples hnumbered)
  · rintro ⟨delegated, planned⟩ hplanned
    apply Walk.resolve_then hcouples (planDelegated_keeps hcouples.holds hnumbered trivial hplanned)
    · intro outcome walk' _
      exact .same _
    · intro outcome walk' ended hobject hshows hended
      dsimp only at hended
      split at hended
      · cases hended
        exact hshows
      split at hended
      · rename_i reason hdecode
        cases hended
        exact hcouples.shows.block hshows (.manifest trivial (hobject _ rfl) hdecode)
      · cases hended
        exact hshows
  · rintro ⟨delegated, planned⟩ ended _ hshows hended
    obtain ⟨⟨outcome, resolved⟩, hresolve, hended⟩ := bind_ok.mp hended
    obtain ⟨closure, hclosure, rfl⟩ := Walk.resolve_ok.mp hresolve
    have hresolved := hcouples.shows.resolve trivial hshows hclosure
    dsimp only at hended
    split at hended
    · cases hended
      exact hresolved
    split at hended
    · rename_i reason hdecode
      cases hended
      exact hcouples.shows.block hresolved (.manifest trivial (resolve_found hclosure) hdecode)
    · cases hended
      exact hresolved

theorem planChild_coupled {walk : Walk} (hholds : Holds walk.closure) :
    Coupled splits Shows Walk.closure
      (planChild upstream first limits application position childKappa capabilitiesKappa walk)
      (planChild upstream second limits application position childKappa capabilitiesKappa walk) := by
  have hreferred : Holds (walk.refer application position childKappa capabilitiesKappa).closure :=
    hholds
  dsimp only [planChild]
  split
  · exact .same _
  split
  · exact .same _
  split
  · exact .same _
  split
  · exact .same _
  · exact admitChild_coupled hcouples hreferred

theorem planChildren_coupled {walk : Walk} (children : List ((String × String) × Nat))
    (hholds : Holds walk.closure) :
    Coupled splits Shows Walk.closure (planChildren upstream first limits application children walk)
      (planChildren upstream second limits application children walk) := by
  induction children generalizing walk with
  | nil => exact .same _
  | cons child rest ih =>
    apply Coupled.bind (planChild_coupled hcouples hholds)
    · intro planned hplanned
      exact ih (planChild_keeps hcouples.holds hholds trivial trivial hplanned)
    · intro planned ended _ hshows hended
      exact planChildren_keeps hcouples.shows rest hshows (fun _ _ => ⟨trivial, trivial⟩) hended

theorem planReferences_coupled {walk : Walk} (hholds : Holds walk.closure) :
    Coupled splits Shows (fun turned => turned.2.closure)
      (planReferences upstream first limits application walk)
      (planReferences upstream second limits application walk) := by
  apply Coupled.bind (planRequires_coupled hcouples hholds)
  · intro required hrequired
    have hrequired' := planRequires_keeps hcouples.holds hholds trivial hrequired
    apply Coupled.bind (planLayers_coupled hcouples _ hrequired')
    · intro layered hlayered
      have hlayered' := planLayers_keeps hcouples.holds _ hrequired' (fun _ _ => trivial) hlayered
      split
      · exact .same _
      · apply Coupled.bind (planChildren_coupled hcouples _ hlayered')
        · intro planned _
          exact .same _
        · intro planned ended _ hshows hended
          cases hended
          exact hshows
    · intro layered ended _ hshows hended
      split at hended
      · cases hended
        exact hshows
      · obtain ⟨planned, hplanned, hended⟩ := bind_ok.mp hended
        cases hended
        exact planChildren_keeps hcouples.shows _ hshows (fun _ _ => ⟨trivial, trivial⟩) hplanned
  · intro required ended _ hshows hended
    obtain ⟨layered, hlayered, hended⟩ := bind_ok.mp hended
    have hlayered' := planLayers_keeps hcouples.shows _ hshows (fun _ _ => trivial) hlayered
    split at hended
    · cases hended
      exact hlayered'
    · obtain ⟨planned, hplanned, hended⟩ := bind_ok.mp hended
      cases hended
      exact planChildren_keeps hcouples.shows _ hlayered' (fun _ _ => ⟨trivial, trivial⟩) hplanned

theorem planApplication_coupled {walk : Walk} (hholds : Holds walk.closure) :
    Coupled splits Shows (fun turned => turned.2.closure)
      (planApplication upstream first limits application walk)
      (planApplication upstream second limits application walk) := by
  have hentered : Holds (walk.enter application).closure := by rwa [Walk.enter_closure]
  dsimp only [planApplication]
  split
  · exact .same _
  · exact planReferences_coupled hcouples hentered

/-- The loop is run alike over both resolvers, or ends in a state that shows the split. -/
theorem planLoop_coupled (fuel : Nat) {walk : Walk} (hholds : Holds walk.closure) :
    Coupled splits Shows Walk.closure (planLoop upstream first limits fuel walk)
      (planLoop upstream second limits fuel walk) := by
  induction fuel generalizing walk with
  | zero =>
    unfold planLoop
    exact .same _
  | succ fuel ih =>
    unfold planLoop
    split
    · exact .same _
    · rename_i application rest hpending
      have hpopped : Holds ({ walk with pending := rest } : Walk).closure := hholds
      apply Coupled.bind (planApplication_coupled hcouples hpopped)
      · rintro ⟨broke, turned⟩ hturned
        have hturned' := planApplication_keeps hcouples.holds hpopped (fun _ _ => trivial) hturned
        dsimp only
        split
        · exact .same _
        · exact ih hturned'
      · rintro ⟨broke, turned⟩ ended _ hshows hended
        dsimp only at hended
        split at hended
        · cases hended
          exact hshows
        · exact planLoop_keeps hcouples.shows (fun _ => trivial) fuel hshows hended

end Planner

end HologramLive.Plan
