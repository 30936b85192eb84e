import HologramLive.Plan.Tree
import Mathlib.Order.WellFounded

/-! Applications of which everything they name is there, at every depth. -/

namespace HologramLive.Plan
open Lib Lib.Result

/-- A kappa under which there is the object it is the address of. -/
structure Held (upstream : Upstream) (content : String → Option Bytes) (kappa : String)
    (bytes : Bytes) : Prop where
  found : content kappa = some bytes
  address : upstream.addressBytes bytes = kappa

/-- Bytes that are the one encoding of a valid manifest. -/
structure Encodes (upstream : Upstream) (manifest : AppManifest) (bytes : Bytes) : Prop where
  decodes : upstream.decodeManifest bytes = .ok manifest
  valid : upstream.validateManifest manifest = .ok ()
  canonical : upstream.canonicalizeManifest manifest = bytes

/-- Everything a manifest names is there, and is what it is named as. -/
structure Supplied (upstream : Upstream) (content : String → Option Bytes)
    (manifest : AppManifest) : Prop where
  requires : ∃ bytes, Held upstream content manifest.requires bytes ∧
    ∃ capabilities, decodeCanonical upstream bytes = .ok capabilities
  layers : ∀ layer ∈ manifest.layers, ∃ bytes, Held upstream content layer.content bytes
  delegated : ∀ child ∈ manifest.children, ∃ bytes, Held upstream content child.2 bytes ∧
    ∃ capabilities, decodeCanonical upstream bytes = .ok capabilities
  children : ∀ child ∈ manifest.children, ∃ bytes below,
    Held upstream content child.1 bytes ∧ Encodes upstream below bytes

/-- The manifests of an application's children. -/
def Below (upstream : Upstream) (content : String → Option Bytes)
    (below manifest : AppManifest) : Prop :=
  ∃ child ∈ manifest.children, ∃ bytes,
    content child.1 = some bytes ∧ upstream.decodeManifest bytes = .ok below

/-- An application supplied at every depth, which is finite. -/
inductive Whole (upstream : Upstream) (content : String → Option Bytes) : AppManifest → Prop where
  | intro (supplied : Supplied upstream content manifest)
    (children : ∀ below, Below upstream content below manifest →
      Whole upstream content below) :
    Whole upstream content manifest

section
variable {upstream : Upstream} {content more : String → Option Bytes} {manifest : AppManifest}

theorem Held.mono (h : Held upstream content kappa bytes)
    (hmore : ∀ kappa bytes, content kappa = some bytes → more kappa = some bytes) :
    Held upstream more kappa bytes :=
  ⟨hmore _ _ h.found, h.address⟩

theorem Supplied.mono (h : Supplied upstream content manifest)
    (hmore : ∀ kappa bytes, content kappa = some bytes → more kappa = some bytes) :
    Supplied upstream more manifest where
  requires := h.requires.imp fun _ ⟨hheld, hset⟩ => ⟨hheld.mono hmore, hset⟩
  layers layer hlayer := (h.layers layer hlayer).imp fun _ hheld => hheld.mono hmore
  delegated child hchild := (h.delegated child hchild).imp
    fun _ ⟨hheld, hset⟩ => ⟨hheld.mono hmore, hset⟩
  children child hchild := by
    obtain ⟨bytes, below, hheld, hencodes⟩ := h.children child hchild
    exact ⟨bytes, below, hheld.mono hmore, hencodes⟩

theorem Whole.supplied (h : Whole upstream content manifest) :
    Supplied upstream content manifest := by
  cases h with
  | intro supplied children => exact supplied

theorem Whole.child {child : AppManifest} (h : Whole upstream content manifest)
    (hchild : Below upstream content child manifest) : Whole upstream content child := by
  cases h with
  | intro supplied children => exact children child hchild

/-- Content that is added takes nothing away: what is found stays what is found. -/
theorem Whole.mono (h : Whole upstream content manifest)
    (hmore : ∀ kappa bytes, content kappa = some bytes → more kappa = some bytes) :
    Whole upstream more manifest := by
  induction h with
  | @intro manifest supplied children ih =>
    refine .intro (supplied.mono hmore) fun below hbelow => ?_
    obtain ⟨child, hchild, bytes, hbytes, hdecode⟩ := hbelow
    obtain ⟨given, named, hheld, hencodes⟩ := supplied.children child hchild
    obtain rfl := Option.some.inj ((hmore _ _ hheld.found).symm.trans hbytes)
    exact ih below ⟨child, hchild, given, hheld.found, hdecode⟩

theorem Whole.acc (h : Whole upstream content manifest) :
    Acc (Below upstream content) manifest := by
  induction h with
  | intro supplied children ih => exact .intro _ ih

/-- No application is among its own ancestors. -/
theorem Whole.acyclic (h : Whole upstream content manifest) :
    ¬ Relation.TransGen (Below upstream content) manifest manifest := by
  intro hcycle
  have hacc : Acc (Relation.TransGen (Below upstream content)) manifest := h.acc.transGen
  induction hacc with
  | intro manifest _ ih => exact ih manifest hcycle h hcycle

end

/-- The archive and the store answer alike, and always, where there is content. -/
structure Furnishes (embedded : List (String × Bytes)) (resolver : Resolver)
    (content : String → Option Bytes) : Prop where
  found : ∀ kappa bytes, content kappa = some bytes → embedded.lookup kappa = some bytes ∨
    embedded.lookup kappa = none ∧ ∀ history, resolver history kappa = .ok (some bytes)

/-- A blocker that stands for a limit and nothing else. -/
def PlanBlocker.Limits (blocker : PlanBlocker) : Prop :=
  ∃ limit maximum actual edge, blocker = .limitExceeded limit maximum actual edge

namespace ClosureResolver

/-- Resolving has found the content so far, up to the limits. -/
structure Served (embedded : List (String × Bytes)) (content : String → Option Bytes)
    (closure : ClosureResolver) : Prop where
  embedded : closure.embedded = embedded
  failures : closure.failures = []
  objects : ∀ kappa object, closure.objects.lookup kappa = some object →
    object.kappa = kappa ∧ content kappa = some object.bytes
  blockers : ∀ blocker ∈ closure.blockers, blocker.Limits

section
variable {upstream : Upstream} {resolver : Resolver} {content : String → Option Bytes}
  {embedded : List (String × Bytes)} {closure : ClosureResolver}

theorem Served.block (h : closure.Served embedded content) (limit : String)
    (maximum actual : Nat) (edge : Option ManifestEdge) :
    (closure.block (.limitExceeded limit maximum actual edge)).Served embedded content where
  embedded := h.embedded
  failures := h.failures
  objects := h.objects
  blockers := by
    refine List.forall_mem_append.mpr ⟨h.blockers, ?_⟩
    simpa using ⟨limit, maximum, actual, edge, rfl⟩

theorem Served.frame {after : ClosureResolver} (h : closure.Served embedded content)
    (hembedded : after.embedded = closure.embedded) (hfailures : after.failures = closure.failures)
    (hobjects : after.objects = closure.objects) (hblockers : after.blockers = closure.blockers) :
    after.Served embedded content where
  embedded := hembedded.trans h.embedded
  failures := hfailures.trans h.failures
  objects := hobjects ▸ h.objects
  blockers := hblockers ▸ h.blockers

/-- What a resolution of something that is there comes to. -/
def Outcome (kappa : String) (bytes : Bytes) (outcome : Option ResolvedObject) : Prop :=
  ∀ object, outcome = some object → object.kappa = kappa ∧ object.bytes = bytes

theorem Served.keep (h : closure.Served embedded content)
    (hheld : Held upstream content kappa bytes) (edge : ManifestEdge) (source : ResolutionSource) :
    (closure.keep upstream kappa edge (some bytes) source).2.Served embedded content ∧
      Outcome kappa bytes (closure.keep upstream kappa edge (some bytes) source).1 := by
  unfold ClosureResolver.keep
  simp only [hheld.address, ne_eq, not_true_eq_false, ↓reduceIte]
  split
  · refine ⟨(h.block "resolved_bytes" _ _ _).frame rfl rfl rfl rfl, ?_⟩
    rintro object ⟨⟩
  · refine ⟨⟨h.embedded, h.failures, fun other object hobject => ?_, h.blockers⟩, ?_⟩
    · rw [List.lookup_cons] at hobject
      split at hobject
      · rename_i hsame
        cases hobject
        obtain rfl := LawfulBEq.eq_of_beq hsame
        exact ⟨rfl, hheld.found⟩
      · exact h.objects other object hobject
    · rintro object ⟨⟩
      exact ⟨rfl, rfl⟩

theorem Served.fetch (h : closure.Served embedded content)
    (hfurnishes : Furnishes embedded resolver content) (hfound : content kappa = some bytes) :
    ∃ source fetched, closure.fetch resolver kappa = .ok (some bytes, source, fetched) ∧
      fetched.Served embedded content := by
  have hanswered := hfurnishes.found _ _ hfound
  rw [← h.embedded] at hanswered
  unfold ClosureResolver.fetch
  rcases hanswered with hinside | ⟨houtside, hanswer⟩
  · rw [hinside]
    exact ⟨_, _, rfl, h⟩
  · rw [houtside]
    dsimp only
    rw [hanswer, ok_bind]
    exact ⟨_, _, rfl, h.frame rfl rfl rfl rfl⟩

/-- What is there is resolved to, unless a limit stands against it. -/
theorem Served.resolve (h : closure.Served embedded content)
    (hfurnishes : Furnishes embedded resolver content) (hheld : Held upstream content kappa bytes)
    (edge : ManifestEdge) : ∃ ended,
      closure.resolve upstream resolver kappa edge = .ok ended ∧
      ended.2.Served embedded content ∧ Outcome kappa bytes ended.1 := by
  have hnone : Outcome kappa bytes none := by rintro object ⟨⟩
  unfold ClosureResolver.resolve
  split
  · rename_i found hfound
    obtain ⟨hkappa, hcontent⟩ := h.objects _ _ hfound
    refine ⟨_, rfl, h, ?_⟩
    rintro object ⟨⟩
    exact ⟨hkappa, Option.some.inj (hcontent.symm.trans hheld.found)⟩
  rw [h.failures]
  dsimp only [List.lookup_nil]
  split
  · exact ⟨_, rfl, h, hnone⟩
  split
  · exact ⟨_, rfl, (h.block "resolved_objects" _ _ _).frame rfl rfl rfl rfl, hnone⟩
  · rename_i counted hcounted
    have hserved : counted.Served embedded content := by
      obtain ⟨referenced, count, rfl⟩ := refer_eq hcounted
      exact h.frame rfl rfl rfl rfl
    obtain ⟨source, fetched, hfetch, hfetched⟩ := hserved.fetch hfurnishes hheld.found
    rw [hfetch, ok_bind]
    exact ⟨_, rfl, hfetched.keep hheld edge source⟩

end
end ClosureResolver

/-- A kappa that can only be read as one application. -/
def Fixed (upstream : Upstream) (content : String → Option Bytes) (kappa : String)
    (manifest : AppManifest) : Prop :=
  ∀ bytes found, content kappa = some bytes → upstream.decodeManifest bytes = .ok found →
    found = manifest

/-- An application in the queue is whole, and its path spells its ancestors. -/
structure PendingApplication.Ready (upstream : Upstream) (content : String → Option Bytes)
    (application : PendingApplication) : Prop where
  whole : Whole upstream content application.manifest
  path : ∀ kappa ∈ application.path, ∃ ancestor, Fixed upstream content kappa ancestor ∧
    Relation.ReflTransGen (Below upstream content) application.manifest ancestor

/-- The planner's state over content that is all there. -/
structure Walk.Served (upstream : Upstream) (embedded : List (String × Bytes))
    (content : String → Option Bytes) (walk : Walk) : Prop where
  closure : walk.closure.Served embedded content
  pending : ∀ application ∈ walk.pending, application.Ready upstream content

section Served
variable {upstream : Upstream} {resolver : Resolver} {limits : PlanLimits}
  {content : String → Option Bytes} {embedded : List (String × Bytes)}
  {application : PendingApplication} {walk : Walk}

theorem Walk.Served.frame {walk' : Walk} (h : walk.Served upstream embedded content)
    (hclosure : walk'.closure = walk.closure) (hpending : walk'.pending = walk.pending) :
    walk'.Served upstream embedded content :=
  ⟨hclosure ▸ h.closure, hpending ▸ h.pending⟩

theorem Walk.Served.block (h : walk.Served upstream embedded content) (limit : String)
    (maximum actual : Nat) (edge : Option ManifestEdge) :
    (walk.block (.limitExceeded limit maximum actual edge)).Served upstream embedded content :=
  ⟨h.closure.block limit maximum actual edge, h.pending⟩

theorem Walk.Served.enter (h : walk.Served upstream embedded content)
    (application : PendingApplication) :
    (walk.enter application).Served upstream embedded content :=
  h.frame (walk.enter_closure application) (walk.enter_queue application).1

theorem Walk.Served.require (h : walk.Served upstream embedded content)
    (application : PendingApplication) (capabilities : RequestedCapabilities) :
    (walk.require application capabilities).Served upstream embedded content := by
  refine h.frame (walk.require_closure application capabilities) ?_
  unfold Walk.require Walk.updateAdmission
  split
  · rfl
  · split <;> rfl

/-- A child of an application in the queue is none of its ancestors, and is ready. -/
theorem PendingApplication.Ready.queue (h : application.Ready upstream content)
    {child : String × String} (hchild : child ∈ application.manifest.children)
    (hfound : content child.1 = some bytes) (hdecode : upstream.decodeManifest bytes = .ok below)
    (applicationIndex : Nat) (admissionIndex : Option Nat) :
    (application.child applicationIndex admissionIndex child.1 below).Ready upstream content := by
  have hbelow : Below upstream content below application.manifest :=
    ⟨child, hchild, bytes, hfound, hdecode⟩
  refine ⟨h.whole.child hbelow, fun kappa hkappa => ?_⟩
  rcases List.mem_append.mp hkappa with hkappa | hkappa
  · obtain ⟨ancestor, hfixed, habove⟩ := h.path kappa hkappa
    exact ⟨ancestor, hfixed, .head hbelow habove⟩
  · obtain rfl := List.mem_singleton.mp hkappa
    refine ⟨below, fun given found hgiven hfoundDecode => ?_, .refl⟩
    obtain rfl := Option.some.inj (hfound.symm.trans hgiven)
    exact Except.ok.inj (hfoundDecode.symm.trans hdecode)

theorem PendingApplication.Ready.acyclic (h : application.Ready upstream content)
    {child : String × String} (hchild : child ∈ application.manifest.children)
    (hfound : content child.1 = some bytes) (hdecode : upstream.decodeManifest bytes = .ok below) :
    childCyclePath application.path child.1 = none := by
  refine childCyclePath_none.mpr fun hmem => ?_
  obtain ⟨ancestor, hfixed, habove⟩ := h.path _ hmem
  obtain rfl := hfixed _ _ hfound hdecode
  have hbelow : Below upstream content below application.manifest :=
    ⟨child, hchild, bytes, hfound, hdecode⟩
  exact (h.whole.child hbelow).acyclic (.head' hbelow habove)

/-- A set that is held decodes wherever it is found. -/
theorem Held.decodeObject (hheld : Held upstream content kappa bytes)
    (hset : decodeCanonical upstream bytes = .ok capabilities) (role : String)
    (houtcome : ClosureResolver.Outcome kappa bytes (some object)) : ∃ decoded,
      HologramLive.decodeObject upstream role object.kappa object.bytes = .ok decoded := by
  obtain ⟨hkappa, hbytes⟩ := houtcome object rfl
  rw [hkappa, hbytes]
  exact ⟨⟨kappa, bytes, capabilities⟩, decodeObject_ok.mpr ⟨hheld.address, hset, rfl, rfl⟩⟩

variable (hfurnishes : Furnishes embedded resolver content)
include hfurnishes

theorem Walk.Served.resolve (h : walk.Served upstream embedded content)
    (hheld : Held upstream content kappa bytes) (edge : ManifestEdge) : ∃ outcome walk',
      walk.resolve upstream resolver kappa edge = .ok (outcome, walk') ∧
      walk'.Served upstream embedded content ∧ ClosureResolver.Outcome kappa bytes outcome := by
  obtain ⟨⟨outcome, closure⟩, hresolve, hclosure, houtcome⟩ :=
    h.closure.resolve hfurnishes hheld edge
  exact ⟨outcome, walk.withClosure closure, Walk.resolve_ok.mpr ⟨closure, hresolve, rfl⟩,
    ⟨hclosure, h.pending⟩, houtcome⟩

theorem planRequires_served (h : walk.Served upstream embedded content)
    (hsupplied : Supplied upstream content application.manifest) : ∃ walk',
      planRequires upstream resolver application walk = .ok walk' ∧
      walk'.Served upstream embedded content := by
  obtain ⟨bytes, hheld, capabilities, hset⟩ := hsupplied.requires
  unfold planRequires
  dsimp only
  obtain ⟨outcome, resolved, hresolve, hresolved, houtcome⟩ := h.resolve hfurnishes hheld
    (if application.depth = 0 then .requiredCapabilities
      else .childRequiredCapabilities application.applicationKappa)
  rw [hresolve, ok_bind]
  cases outcome with
  | none => exact ⟨_, rfl, hresolved⟩
  | some object =>
    obtain ⟨decoded, hdecode⟩ := hheld.decodeObject hset "required" houtcome
    have hdecode' : RequestedCapabilities.decode upstream object.kappa object.bytes =
      .ok decoded := hdecode
    dsimp only
    rw [hdecode']
    exact ⟨_, rfl, hresolved.require application decoded⟩

theorem planLayers_served (layers : List (Layer × Nat))
    (h : walk.Served upstream embedded content)
    (hheld : ∀ layer ∈ layers, ∃ bytes, Held upstream content layer.1.content bytes) : ∃ walk',
      planLayers upstream resolver application layers walk = .ok walk' ∧
      walk'.Served upstream embedded content := by
  induction layers generalizing walk with
  | nil => exact ⟨_, rfl, h⟩
  | cons layer rest ih =>
    obtain ⟨⟨bytes, hlayer⟩, hrest⟩ := List.forall_mem_cons.mp hheld
    obtain ⟨outcome, resolved, hresolve, hresolved, -⟩ := h.resolve hfurnishes hlayer
      (layerEdge application layer.2)
    unfold planLayers
    rw [hresolve, ok_bind]
    exact ih hresolved hrest

theorem planDelegated_served (h : walk.Served upstream embedded content)
    (hheld : Held upstream content kappa bytes)
    (hset : decodeCanonical upstream bytes = .ok capabilities) (edge : ManifestEdge) :
    ∃ delegated walk', planDelegated upstream resolver kappa edge walk = .ok (delegated, walk') ∧
      walk'.Served upstream embedded content := by
  obtain ⟨outcome, resolved, hresolve, hresolved, houtcome⟩ := h.resolve hfurnishes hheld edge
  unfold planDelegated
  rw [hresolve, ok_bind]
  cases outcome with
  | none => exact ⟨_, _, rfl, hresolved⟩
  | some object =>
    obtain ⟨decoded, hdecode⟩ := hheld.decodeObject hset "delegated" houtcome
    have hdecode' : DelegatedCapabilities.decode upstream object.kappa object.bytes =
      .ok decoded := hdecode
    dsimp only
    rw [hdecode']
    exact ⟨_, _, rfl, hresolved.frame rfl rfl⟩

/-- The references of a child that is there are found, and it joins the queue. -/
theorem admitChild_served (h : walk.Served upstream embedded content)
    (hready : application.Ready upstream content) {child : String × String}
    (hchild : child ∈ application.manifest.children) (position : Nat) : ∃ walk',
      admitChild upstream resolver application position child.1 child.2 walk = .ok walk' ∧
      walk'.Served upstream embedded content := by
  obtain ⟨set, hsetHeld, capabilities, hset⟩ := hready.whole.supplied.delegated child hchild
  obtain ⟨bytes, below, hheld, hencodes⟩ := hready.whole.supplied.children child hchild
  have hnumbered : (walk.number application).Served upstream embedded content := h.frame rfl rfl
  obtain ⟨delegated, planned, hdelegated, hplanned⟩ := planDelegated_served hfurnishes hnumbered
    hsetHeld hset (.delegatedCapabilities application.applicationKappa position)
  obtain ⟨outcome, resolved, hresolve, hresolved, houtcome⟩ := hplanned.resolve hfurnishes hheld
    (.childApplication application.applicationKappa position)
  unfold admitChild
  dsimp only
  rw [hdelegated, ok_bind]
  dsimp only
  rw [hresolve, ok_bind]
  cases outcome with
  | none => exact ⟨_, rfl, hresolved⟩
  | some object =>
    obtain ⟨hkappa, hbytes⟩ := houtcome object rfl
    have hdecode : decodeChildManifest upstream object = .ok below := by
      rw [decodeChildManifest_ok, hbytes]
      exact ⟨hencodes.decodes, hencodes.valid, hencodes.canonical⟩
    dsimp only
    rw [hdecode, hkappa]
    refine ⟨_, rfl, hresolved.closure, ?_⟩
    refine List.forall_mem_append.mpr ⟨hresolved.pending, ?_⟩
    rw [List.forall_mem_singleton]
    exact hready.queue hchild hheld.found hencodes.decodes _ _

theorem planChild_served (h : walk.Served upstream embedded content)
    (hready : application.Ready upstream content) {child : String × String}
    (hchild : child ∈ application.manifest.children) (position : Nat) : ∃ walk',
      planChild upstream resolver limits application position child.1 child.2 walk = .ok walk' ∧
      walk'.Served upstream embedded content := by
  obtain ⟨bytes, below, hheld, hencodes⟩ := hready.whole.supplied.children child hchild
  have hreferred : (walk.refer application position child.1 child.2).Served upstream embedded
      content := h.frame rfl rfl
  unfold planChild
  rw [hready.acyclic hchild hheld.found hencodes.decodes]
  dsimp only
  split
  · exact ⟨_, rfl, hreferred.block _ _ _ _⟩
  split
  · exact ⟨_, rfl, hreferred⟩
  split
  · exact ⟨_, rfl, (hreferred.block "applications" limits.maxApplications
      (walk.applicationCount + 1) _).frame rfl rfl⟩
  · exact admitChild_served hfurnishes hreferred hready hchild position

theorem planChildren_served (children : List ((String × String) × Nat))
    (h : walk.Served upstream embedded content) (hready : application.Ready upstream content)
    (hchildren : ∀ child ∈ children, child.1 ∈ application.manifest.children) : ∃ walk',
      planChildren upstream resolver limits application children walk = .ok walk' ∧
      walk'.Served upstream embedded content := by
  induction children generalizing walk with
  | nil => exact ⟨_, rfl, h⟩
  | cons child rest ih =>
    obtain ⟨hchild, hrest⟩ := List.forall_mem_cons.mp hchildren
    obtain ⟨planned, hplanned, hserved⟩ := @planChild_served _ _ limits _ _ _ _ hfurnishes h hready
      _ hchild (clampU32 child.2)
    unfold planChildren
    rw [hplanned, ok_bind]
    exact ih hserved hrest

/-- One turn over a ready application meets nothing but limits. -/
theorem planApplication_served (h : walk.Served upstream embedded content)
    (hready : application.Ready upstream content) : ∃ broke walk',
      planApplication upstream resolver limits application walk = .ok (broke, walk') ∧
      walk'.Served upstream embedded content := by
  have hentered := h.enter application
  have hsupplied := hready.whole.supplied
  unfold planApplication
  dsimp only
  split
  · exact ⟨_, _, rfl, hentered.block "layers" _ _ _⟩
  obtain ⟨required, hrequires, hrequired⟩ := planRequires_served hfurnishes hentered hsupplied
  obtain ⟨layered, hlayers, hlayered⟩ := @planLayers_served _ _ _ _ application _ hfurnishes
    application.manifest.layers.zipIdx hrequired fun layer hlayer =>
      hsupplied.layers _ (List.fst_mem_of_mem_zipIdx hlayer)
  unfold planReferences
  rw [hrequires, ok_bind, hlayers, ok_bind]
  split
  · exact ⟨_, _, rfl, hlayered⟩
  · obtain ⟨planned, hplanned, hserved⟩ := @planChildren_served _ _ limits _ _ _ _ hfurnishes
      application.manifest.children.zipIdx hlayered hready fun child hchild =>
        List.fst_mem_of_mem_zipIdx hchild
    rw [hplanned]
    exact ⟨_, _, rfl, hserved⟩

omit hfurnishes in
theorem Walk.Served.pop (h : walk.Served upstream embedded content)
    (hpending : walk.pending = application :: rest) :
    application.Ready upstream content ∧
      ({ walk with pending := rest } : Walk).Served upstream embedded content := by
  have hready := h.pending
  rw [hpending] at hready
  obtain ⟨hfirst, hrest⟩ := List.forall_mem_cons.mp hready
  exact ⟨hfirst, h.closure, hrest⟩

/-- The loop over ready applications does not fail and meets nothing but limits. -/
theorem Loop.served (h : walk.Served upstream embedded content)
    (hloop : Loop upstream resolver limits walk count outcome) : ∃ walk', outcome = .ok walk' ∧
      walk'.Served upstream embedded content := by
  induction hloop with
  | drained queue => exact ⟨_, rfl, h⟩
  | broken queue turn =>
    obtain ⟨hready, hrest⟩ := h.pop queue
    obtain ⟨broke, walk', hturn, hserved⟩ :=
      @planApplication_served _ _ limits _ _ _ _ hfurnishes hrest hready
    obtain ⟨-, rfl⟩ := Prod.mk.inj (Except.ok.inj (hturn.symm.trans turn))
    exact ⟨_, rfl, hserved⟩
  | failed queue turn =>
    obtain ⟨hready, hrest⟩ := h.pop queue
    obtain ⟨broke, walk', hturn, -⟩ :=
      @planApplication_served _ _ limits _ _ _ _ hfurnishes hrest hready
    rw [hturn] at turn
    cases turn
  | turned queue turn later ih =>
    obtain ⟨hready, hrest⟩ := h.pop queue
    obtain ⟨broke, walk', hturn, hserved⟩ :=
      @planApplication_served _ _ limits _ _ _ _ hfurnishes hrest hready
    obtain ⟨-, rfl⟩ := Prod.mk.inj (Except.ok.inj (hturn.symm.trans turn))
    exact ih hserved

omit hfurnishes in
theorem startWalk_served {source : PlanSource} (hwhole : Whole upstream content source.root)
    (hfixed : Fixed upstream content source.identity.applicationKappa source.root) :
    (startWalk source limits).Served upstream source.embedded content := by
  have hstart : ClosureResolver.Served source.embedded content
      { embedded := source.embedded, limits } := ⟨rfl, rfl, by simp, by simp⟩
  unfold startWalk
  split
  · exact ⟨hstart.block "applications" _ _ _, by simp⟩
  · refine ⟨hstart, ?_⟩
    rw [List.forall_mem_singleton]
    refine ⟨hwhole, ?_⟩
    rw [List.forall_mem_singleton]
    exact ⟨source.root, hfixed, .refl⟩

end Served

section Explain
variable {upstream : Upstream} {resolver : Resolver} {content : String → Option Bytes}
  {source : PlanSource}

/-- An application that is whole plans, whatever the limits, and nothing but a limit or the
lack of a primary layer stands against it. -/
theorem explain_whole (hcanonical : upstream.Canonical)
    (hsource : readSource upstream archive = .ok source)
    (hwhole : Whole upstream content source.manifest)
    (hfixed : Fixed upstream content source.identity.applicationKappa source.manifest)
    (hfurnishes : Furnishes source.embedded resolver content) (limits : PlanLimits) : ∃ walk,
      explainApplication upstream archive limits resolver = .ok (reportOf source limits walk) ∧
      ∀ blocker ∈ (reportOf source limits walk).blockers,
        blocker.Limits ∨ blocker = .libraryArchive ∧ source.manifest.primary = none := by
  have hroot := (readSource_read hsource).root_eq hcanonical
  rw [← hroot] at hwhole hfixed
  have hstart : (startWalk source limits).Served upstream source.embedded content :=
    startWalk_served hwhole hfixed
  obtain ⟨turns, -, hloop⟩ := (planLoop_loop limits.maxApplications (startWalk_within source)
    (startWalk_fuel source)).1
  obtain ⟨walk, hwalk, hserved⟩ := Loop.served hfurnishes hstart hloop
  unfold explainApplication
  rw [hsource, ok_bind, hwalk, ok_bind]
  refine ⟨walk, rfl, fun blocker hblocker => ?_⟩
  rcases List.mem_append.mp hblocker with hblocker | hblocker
  · exact .inl (hserved.closure.blockers blocker hblocker)
  · split at hblocker
    · rename_i hlibrary
      exact .inr ⟨List.mem_singleton.mp hblocker, hlibrary⟩
    · cases hblocker

end Explain
end HologramLive.Plan
