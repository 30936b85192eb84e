import HologramLive.Plan.Tree

namespace HologramLive.Plan
open Lib Lib.Result

/-- A resolver with an answer, be it that there is nothing, to every kappa that a
manifest can name. -/
structure Responds (upstream : Upstream) (resolver : Resolver) (named : String → Prop) : Prop where
  names : ∀ bytes manifest, upstream.decodeManifest bytes = .ok manifest →
    ∀ kappa ∈ manifest.names, named kappa
  answers : ∀ history kappa, named kappa → ∃ bytes, resolver history kappa = .ok bytes

/-- The manifests that wait for their turn name only such kappas. -/
def Walk.Queued (named : String → Prop) (walk : Walk) : Prop :=
  ∀ application ∈ walk.pending, ∀ kappa ∈ application.manifest.names, named kappa

section Total
variable {upstream : Upstream} {resolver : Resolver} {limits : PlanLimits}
  {named : String → Prop} (hresponds : Responds upstream resolver named)

theorem Walk.Queued.follow {walk walk' : Walk} (h : walk.Queued named)
    (hfollows : walk.Follows walk') : walk'.Queued named := by
  intro application happlication
  rw [hfollows.pending] at happlication
  exact h application happlication

theorem Walk.Queued.enter {walk : Walk} (h : walk.Queued named) (application : PendingApplication) :
    (walk.enter application).Queued named := by
  unfold Walk.enter
  cases application.admissionIndex <;> exact h

theorem Walk.Queued.pop {walk : Walk} (h : walk.Queued named)
    (hpending : walk.pending = application :: rest) :
    (∀ kappa ∈ application.manifest.names, named kappa) ∧
      ({ walk with pending := rest } : Walk).Queued named := by
  unfold Walk.Queued at h
  rw [hpending] at h
  exact List.forall_mem_cons.mp h

theorem Walk.Queued.enqueue {walk : Walk} (h : walk.Queued named) {manifest : AppManifest}
    (hnamed : ∀ kappa ∈ manifest.names, named kappa) (application : PendingApplication)
    (applicationIndex position : Nat) (kappa : String) (delegated : Option DelegatedCapabilities) :
    (walk.enqueue application applicationIndex position kappa manifest delegated).Queued named := by
  intro queued hqueued
  rcases List.mem_append.mp hqueued with hbefore | hlast
  · exact h queued hbefore
  · obtain rfl := List.mem_singleton.mp hlast
    exact hnamed

include hresponds

theorem Walk.resolve_total (walk : Walk) {kappa : String} (hnamed : named kappa)
    (edge : ManifestEdge) : ∃ outcome walk',
    walk.resolve upstream resolver kappa edge = .ok (outcome, walk') := by
  have hfetch : ∀ closure : ClosureResolver, ∃ fetched,
      closure.fetch resolver kappa = .ok fetched := by
    intro closure
    unfold ClosureResolver.fetch
    cases closure.embedded.lookup kappa with
    | some bytes => exact ⟨_, rfl⟩
    | none =>
      obtain ⟨bytes, hbytes⟩ := hresponds.answers closure.asked kappa hnamed
      rw [hbytes]
      exact ⟨_, rfl⟩
  have hresolve : ∃ ended, walk.closure.resolve upstream resolver kappa edge = .ok ended := by
    unfold ClosureResolver.resolve
    split
    · exact ⟨_, rfl⟩
    split
    · exact ⟨_, rfl⟩
    split
    · exact ⟨_, rfl⟩
    split
    · exact ⟨_, rfl⟩
    · rename_i counted _
      obtain ⟨fetched, hfetched⟩ := hfetch counted
      rw [hfetched]
      exact ⟨_, rfl⟩
  obtain ⟨⟨outcome, closure⟩, hclosure⟩ := hresolve
  exact ⟨outcome, _, Walk.resolve_ok.mpr ⟨closure, hclosure, rfl⟩⟩

theorem planRequires_total (walk : Walk) (hnamed : named application.manifest.requires) :
    ∃ walk', planRequires upstream resolver application walk = .ok walk' := by
  unfold planRequires
  obtain ⟨outcome, resolved, hresolve⟩ := walk.resolve_total hresponds hnamed
    (if application.depth = 0 then .requiredCapabilities
      else .childRequiredCapabilities application.applicationKappa)
  dsimp only
  rw [hresolve, ok_bind]
  dsimp only
  split
  · exact ⟨_, rfl⟩
  split <;> exact ⟨_, rfl⟩

theorem planLayers_total (layers : List (Layer × Nat)) (walk : Walk)
    (hnamed : ∀ layer ∈ layers, named layer.1.content) :
    ∃ walk', planLayers upstream resolver application layers walk = .ok walk' := by
  induction layers generalizing walk with
  | nil => exact ⟨_, rfl⟩
  | cons layer rest ih =>
    obtain ⟨hlayer, hrest⟩ := List.forall_mem_cons.mp hnamed
    obtain ⟨outcome, resolved, hresolve⟩ := walk.resolve_total hresponds hlayer
      (layerEdge application layer.2)
    unfold planLayers
    rw [hresolve, ok_bind]
    exact ih resolved hrest

theorem planDelegated_total (walk : Walk) (hnamed : named kappa) (edge : ManifestEdge) :
    ∃ delegated walk', planDelegated upstream resolver kappa edge walk = .ok (delegated, walk') := by
  obtain ⟨outcome, resolved, hresolve⟩ := walk.resolve_total hresponds hnamed edge
  unfold planDelegated
  rw [hresolve, ok_bind]
  dsimp only
  split
  · exact ⟨_, _, rfl⟩
  split <;> exact ⟨_, _, rfl⟩

theorem admitChild_total {walk : Walk} (hqueued : walk.Queued named) (hchild : named childKappa)
    (hcapabilities : named capabilitiesKappa) :
    ∃ walk', admitChild upstream resolver application position childKappa capabilitiesKappa walk =
      .ok walk' ∧ walk'.Queued named := by
  obtain ⟨delegated, planned, hdelegated⟩ := planDelegated_total hresponds (walk.number application)
    hcapabilities (.delegatedCapabilities application.applicationKappa position)
  obtain ⟨outcome, resolved, hresolve⟩ := planned.resolve_total hresponds hchild
    (.childApplication application.applicationKappa position)
  have hresolved : resolved.Queued named := by
    have hnumbered : (walk.number application).Queued named := hqueued
    exact hnumbered.follow ((planDelegated_follows hdelegated).trans (Walk.resolve_follows hresolve))
  unfold admitChild
  dsimp only
  rw [hdelegated, ok_bind]
  dsimp only
  rw [hresolve, ok_bind]
  dsimp only
  split
  · exact ⟨_, rfl, hresolved⟩
  split
  · exact ⟨_, rfl, hresolved⟩
  · rename_i manifest hdecode
    have hnames := hresponds.names _ _ (decodeChildManifest_ok.mp hdecode).1
    refine ⟨_, rfl, Walk.Queued.enqueue ?_ hnames _ _ _ _ _⟩
    exact hresolved

theorem planChild_total {walk : Walk} (hqueued : walk.Queued named) (hchild : named childKappa)
    (hcapabilities : named capabilitiesKappa) :
    ∃ walk', planChild upstream resolver limits application position childKappa capabilitiesKappa
      walk = .ok walk' ∧ walk'.Queued named := by
  have hreferred : (walk.refer application position childKappa capabilitiesKappa).Queued named :=
    hqueued
  unfold planChild
  dsimp only
  split
  · exact ⟨_, rfl, hqueued⟩
  split
  · exact ⟨_, rfl, hqueued⟩
  split
  · exact ⟨_, rfl, hqueued⟩
  split
  · exact ⟨_, rfl, hqueued⟩
  · exact admitChild_total hresponds hreferred hchild hcapabilities

theorem planChildren_total (children : List ((String × String) × Nat)) {walk : Walk}
    (hqueued : walk.Queued named)
    (hnamed : ∀ child ∈ children, named child.1.1 ∧ named child.1.2) :
    ∃ walk', planChildren upstream resolver limits application children walk = .ok walk' ∧
      walk'.Queued named := by
  induction children generalizing walk with
  | nil => exact ⟨_, rfl, hqueued⟩
  | cons child rest ih =>
    obtain ⟨⟨hchild, hcapabilities⟩, hrest⟩ := List.forall_mem_cons.mp hnamed
    obtain ⟨planned, hplanned, hafter⟩ := planChild_total hresponds hqueued hchild hcapabilities
    unfold planChildren
    rw [hplanned, ok_bind]
    exact ih hafter hrest

/-- A turn on a manifest that names only what the resolver answers does not fail. -/
theorem planApplication_total {walk : Walk} (hqueued : walk.Queued named)
    (hnamed : ∀ kappa ∈ application.manifest.names, named kappa) :
    ∃ broke walk', planApplication upstream resolver limits application walk = .ok (broke, walk') ∧
      walk'.Queued named := by
  have hentered := hqueued.enter application
  unfold planApplication
  dsimp only
  split
  · exact ⟨_, _, rfl, hentered⟩
  obtain ⟨required, hrequired⟩ := planRequires_total hresponds (walk.enter application)
    (hnamed _ AppManifest.requires_names)
  obtain ⟨layered, hlayered⟩ := @planLayers_total _ _ _ hresponds application
    application.manifest.layers.zipIdx required fun layer hlayer =>
      hnamed _ (AppManifest.layer_names (List.fst_mem_of_mem_zipIdx hlayer))
  have hafter := hentered.follow
    ((planRequires_follows hrequired).trans (planLayers_follows _ hlayered))
  unfold planReferences
  rw [hrequired, ok_bind, hlayered, ok_bind]
  split
  · exact ⟨_, _, rfl, hafter⟩
  · obtain ⟨planned, hplanned, hend⟩ := @planChildren_total _ _ limits _ hresponds application
      application.manifest.children.zipIdx layered hafter fun child hchild =>
        AppManifest.child_names (List.fst_mem_of_mem_zipIdx hchild) |>.imp (hnamed _) (hnamed _)
    rw [hplanned]
    exact ⟨_, _, rfl, hend⟩

theorem Loop.total {walk : Walk} (hqueued : walk.Queued named)
    (hloop : Loop upstream resolver limits walk count outcome) : ∃ walk', outcome = .ok walk' := by
  induction hloop with
  | drained queue => exact ⟨_, rfl⟩
  | broken queue turn => exact ⟨_, rfl⟩
  | failed queue turn =>
    obtain ⟨happlication, hrest⟩ := hqueued.pop queue
    obtain ⟨broke, walk', hturn, -⟩ :=
      @planApplication_total _ _ limits _ hresponds _ _ hrest happlication
    rw [hturn] at turn
    cases turn
  | turned queue turn later ih =>
    obtain ⟨happlication, hrest⟩ := hqueued.pop queue
    obtain ⟨broke, walk', hturn, hafter⟩ :=
      @planApplication_total _ _ limits _ hresponds _ _ hrest happlication
    obtain ⟨-, rfl⟩ := Prod.mk.inj (Except.ok.inj (hturn.symm.trans turn))
    exact ih hafter

/-- Planning fails only over the archive it reads, never over its resolver. -/
theorem explain_total (archive : Bytes) :
    (∃ report, explainApplication upstream archive limits resolver = .ok report) ↔
      ∃ source, readSource upstream archive = .ok source := by
  unfold explainApplication
  constructor
  · rintro ⟨report, hreport⟩
    obtain ⟨source, hsource, -⟩ := bind_ok.mp hreport
    exact ⟨source, hsource⟩
  · rintro ⟨source, hsource⟩
    rw [hsource, ok_bind]
    have hroot : (startWalk source limits).Queued named := by
      have hdecode := (readSource_read hsource).root
      unfold startWalk
      split
      · simp [Walk.Queued]
      · intro application happlication
        obtain rfl := List.mem_singleton.mp happlication
        exact hresponds.names _ _ hdecode
    obtain ⟨count, -, hloop⟩ := (planLoop_loop limits.maxApplications (startWalk_within source)
      (startWalk_fuel source)).1
    obtain ⟨walk, hwalk⟩ := hloop.total hresponds hroot
    rw [hwalk]
    exact ⟨_, rfl⟩

end Total
end HologramLive.Plan
