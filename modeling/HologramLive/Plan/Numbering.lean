import HologramLive.Plan.Steps

namespace HologramLive.Plan
open Lib Lib.Result

/-- A child edge of the application tree: which application composes what, at
which place, and under which delegated set. -/
structure ChildEdge where
  parentApplicationIndex : Nat
  parentApplicationKappa : String
  position : Nat
  applicationKappa : String
  capabilitiesKappa : String

/-- The child edges of the application planned under an index. -/
def edgesOf (index : Nat) (kappa : String) (children : List ((String × String) × Nat)) :
    List ChildEdge :=
  children.map fun (child, position) => ⟨index, kappa, clampU32 position, child.1, child.2⟩

/-- The part of an admission that later turns leave alone. -/
structure Link where
  position : Nat
  parentApplicationIndex : Nat
  parentApplicationKappa : String
  applicationIndex : Nat
  applicationKappa : String
  delegatedCapabilities : DelegatedCapabilities

def PendingChildAdmission.link (admission : PendingChildAdmission) : Link where
  position := admission.position
  parentApplicationIndex := admission.parentApplicationIndex
  parentApplicationKappa := admission.parentApplicationKappa
  applicationIndex := admission.applicationIndex
  applicationKappa := admission.applicationKappa
  delegatedCapabilities := admission.delegatedCapabilities

def Link.edge (link : Link) : ChildEdge where
  parentApplicationIndex := link.parentApplicationIndex
  parentApplicationKappa := link.parentApplicationKappa
  position := link.position
  applicationKappa := link.applicationKappa
  capabilitiesKappa := link.delegatedCapabilities.kappa

/-- An application as the queue knows it. -/
structure Planned where
  kappa : String
  manifest : AppManifest

/-- The object an admitted child was planned from. -/
def Names (upstream : Upstream) (objects : Objects) (link : Link) (child : Planned) : Prop :=
  link.applicationKappa = child.kappa ∧ ∃ object, objects.lookup child.kappa = some object ∧
    decodeChildManifest upstream object = .ok child.manifest

def Delegates (upstream : Upstream) (objects : Objects) (link : Link) : Prop :=
  ∃ object, objects.lookup link.delegatedCapabilities.kappa = some object ∧
    DelegatedCapabilities.decode upstream link.delegatedCapabilities.kappa object.bytes =
      .ok link.delegatedCapabilities

/-- Links numbered in order, each below an earlier application, with the children
they admit. -/
structure Linked (upstream : Upstream) (objects : Objects) (children : List Planned)
    (edges : List ChildEdge) (links : List Link) : Prop where
  indices : links.map (·.applicationIndex) = List.range' 1 links.length
  parents : ∀ link ∈ links, link.parentApplicationIndex < link.applicationIndex
  edge : links.map Link.edge = edges
  delegated : ∀ link ∈ links, Delegates upstream objects link
  named : List.Forall₂ (Names upstream objects) links children

theorem Linked.grow {before after : ClosureResolver}
    (h : Linked upstream before.objects children edges links) (hgrows : before.Grows after) :
    Linked upstream after.objects children edges links where
  indices := h.indices
  parents := h.parents
  edge := h.edge
  delegated := fun link hlink =>
    let ⟨object, hobject, hdecode⟩ := h.delegated link hlink
    ⟨object, hgrows.objects _ _ hobject, hdecode⟩
  named := h.named.imp fun _ _ ⟨hkappa, object, hobject, hdecode⟩ =>
    ⟨hkappa, object, hgrows.objects _ _ hobject, hdecode⟩

theorem Linked.snoc (h : Linked upstream objects children edges links)
    (hindex : link.applicationIndex = links.length + 1)
    (hparent : link.parentApplicationIndex < link.applicationIndex)
    (hdelegated : Delegates upstream objects link) (hnamed : Names upstream objects link child) :
    Linked upstream objects (children ++ [child]) (edges ++ [link.edge]) (links ++ [link]) where
  indices := by
    rw [List.map_append, h.indices, List.length_append, List.length_singleton, List.range'_concat]
    simp [hindex, Nat.add_comm]
  parents := List.forall_mem_append.mpr ⟨h.parents, by simpa using hparent⟩
  edge := by simp [h.edge]
  delegated := List.forall_mem_append.mpr ⟨h.delegated, by simpa using hdelegated⟩
  named := List.rel_append h.named (.cons hnamed .nil)

/-- The queue between two turns: applications up to `next` are taken, the others
wait in the order of their indices, and the admissions taken so far follow the
given edges. -/
structure Numbered (upstream : Upstream) (root : Planned) (children : List Planned) (next : Nat)
    (edges : List ChildEdge) (walk : Walk) : Prop where
  valid : walk.closure.Valid upstream
  unblocked : walk.closure.blockers = []
  unlimited : walk.applicationsLimited = false
  count : walk.applicationCount = children.length + 1
  reached : next ≤ children.length + 1
  linked : Linked upstream walk.closure.objects children edges
    (walk.childAdmissions.map PendingChildAdmission.link)
  queue : walk.pending.map (fun application =>
      (application.applicationIndex, application.admissionIndex,
        (⟨application.applicationKappa, application.manifest⟩ : Planned))) =
    ((root :: children).zipIdx.drop next).map fun (planned, index) =>
      (index, if index = 0 then none else some (index - 1), planned)
  depths : ∀ application ∈ walk.pending, application.depth = 0 ↔ application.applicationIndex = 0

/-- What a turn leaves for its application. -/
structure Settled (upstream : Upstream) (walk : Walk) (index : Nat) (planned : Planned) : Prop where
  requires : ∃ object capabilities,
    walk.closure.objects.lookup planned.manifest.requires = some object ∧
    RequestedCapabilities.decode upstream planned.manifest.requires object.bytes =
      .ok capabilities ∧
    match index with
    | 0 => walk.requestedCapabilities = some capabilities
    | place + 1 => ∃ admission, walk.childAdmissions[place]? = some admission ∧
      admission.requestedCapabilities = some capabilities ∧
      admission.layers = plannedLayers planned.manifest
  layers : ∀ layer ∈ planned.manifest.layers,
    ∃ object, walk.closure.objects.lookup layer.content = some object

theorem Settled.frame (h : Settled upstream walk index planned)
    (hgrows : walk.closure.Grows walk'.closure)
    (hroot : index = 0 → walk'.requestedCapabilities = walk.requestedCapabilities)
    (hadmissions : ∀ place admission, place < index → walk.childAdmissions[place]? = some admission →
      walk'.childAdmissions[place]? = some admission) : Settled upstream walk' index planned where
  requires := by
    obtain ⟨object, capabilities, hobject, hdecode, hkept⟩ := h.requires
    refine ⟨object, capabilities, hgrows.objects _ _ hobject, hdecode, ?_⟩
    cases index with
    | zero => exact (hroot rfl).trans hkept
    | succ place =>
      obtain ⟨admission, hadmission, hkept⟩ := hkept
      exact ⟨admission, hadmissions place admission (Nat.lt_succ_self _) hadmission, hkept⟩
  layers := fun layer hlayer =>
    let ⟨object, hobject⟩ := h.layers layer hlayer
    ⟨object, hgrows.objects _ _ hobject⟩

/-- A turn only adds: to the closure, and to the admissions at their end. -/
structure Continues (before after : Walk) : Prop where
  grows : before.closure.Grows after.closure
  root : after.requestedCapabilities = before.requestedCapabilities
  admissions : before.childAdmissions <+: after.childAdmissions

theorem Continues.refl (walk : Walk) : Continues walk walk := ⟨.refl _, rfl, List.prefix_refl _⟩

theorem Continues.trans (h : Continues first second) (h' : Continues second third) :
    Continues first third :=
  ⟨h.grows.trans h'.grows, h'.root.trans h.root, h.admissions.trans h'.admissions⟩

theorem Settled.continues (h : Settled upstream walk index planned) (hcontinues : Continues walk walk') :
    Settled upstream walk' index planned :=
  h.frame hcontinues.grows (fun _ => hcontinues.root) fun place admission _ hadmission => by
    obtain ⟨added, hadded⟩ := hcontinues.admissions
    have hplace := (List.getElem?_eq_some_iff.mp hadmission).1
    rw [← hadded, List.getElem?_append_left hplace, hadmission]

theorem queue_snoc (hreached : next ≤ children.length + 1)
    (hqueue : queued = ((root :: children).zipIdx.drop next).map stamp) :
    queued ++ [stamp (child, children.length + 1)] =
      ((root :: (children ++ [child])).zipIdx.drop next).map stamp := by
  have hle : next ≤ ((root :: children).zipIdx).length := by simpa using hreached
  rw [← List.cons_append, List.zipIdx_append, List.drop_append_of_le_length hle, List.map_append,
    ← hqueue]
  simp [Nat.add_comm]

/-- Without blockers a child edge adds one application at the end of the queue. -/
theorem ChildPlanned.numbers (hnumbered : Numbered upstream root children next edges walk)
    (hparent : application.applicationIndex < walk.applicationCount)
    (h : ChildPlanned upstream application position childKappa capabilitiesKappa walk walk')
    (hclear : walk'.closure.blockers = []) :
    ∃ child, Numbered upstream root (children ++ [child]) next
        (edges ++ [⟨application.applicationIndex, application.applicationKappa, position, childKappa,
          capabilitiesKappa⟩]) walk' ∧ Continues walk walk' := by
  cases h with
  | cycle known => simp [ClosureResolver.block] at hclear
  | @admitted capabilitiesObject object manifest delegated references maxDepth closure fresh valid
      grows delegates names decodes decided =>
    obtain ⟨capabilities, hdecode, rfl, hblockers⟩ | ⟨_, hblocked⟩ := decided
    swap
    · exact absurd hclear hblocked
    have hkappa : capabilities.kappa = capabilitiesKappa := (decodeObject_ok.mp hdecode).2.2.1
    refine ⟨⟨childKappa, manifest⟩, ?_, grows, rfl, List.prefix_append _ _⟩
    have hlinks : walk.childAdmissions.length = children.length := by
      simpa using hnumbered.linked.named.length_eq
    let link := (application.admission walk.applicationCount position childKappa capabilities).link
    have hindex : link.applicationIndex =
        (walk.childAdmissions.map PendingChildAdmission.link).length + 1 := by
      rw [List.length_map, hlinks, ← hnumbered.count]
      rfl
    have hdelegates : Delegates upstream closure.objects link := by
      refine ⟨capabilitiesObject, ?_, ?_⟩ <;>
      · dsimp only [link, PendingChildAdmission.link, PendingApplication.admission]
        rwa [hkappa]
    have hlinked := (hnumbered.linked.grow grows).snoc hindex hparent hdelegates
      (⟨rfl, object, names, decodes⟩ : Names upstream closure.objects link ⟨childKappa, manifest⟩)
    have hedge : link.edge = ⟨application.applicationIndex, application.applicationKappa, position,
        childKappa, capabilitiesKappa⟩ := by
      rw [← hkappa]
      rfl
    rw [hedge] at hlinked
    have hlink : ((walk.numbered closure references maxDepth).enqueue application walk.applicationCount
        position childKappa manifest (some capabilities)).childAdmissions.map
          PendingChildAdmission.link = walk.childAdmissions.map PendingChildAdmission.link ++ [link] := by
      simp [Walk.enqueue, Walk.numbered, link]
    refine
      { valid
        unblocked := hclear
        unlimited := hnumbered.unlimited
        count := by simp [Walk.enqueue, Walk.numbered, hnumbered.count]
        reached := by
          have := hnumbered.reached
          simp only [List.length_append, List.length_singleton]
          omega
        linked := by
          rw [hlink]
          exact hlinked
        queue := ?_
        depths := ?_ }
    · rw [← queue_snoc hnumbered.reached hnumbered.queue]
      simp [Walk.enqueue, Walk.numbered, PendingApplication.child, hnumbered.count, hlinks]
    · intro queued hqueued
      rcases List.mem_append.mp hqueued with hold | hnew
      · exact hnumbered.depths queued hold
      · obtain rfl := List.mem_singleton.mp hnew
        simp [PendingApplication.child, hnumbered.count]

theorem Numbered.frame (h : Numbered upstream root children next edges walk)
    (hvalid : walk'.closure.Valid upstream) (hclear : walk'.closure.blockers = [])
    (hgrows : walk.closure.Grows walk'.closure)
    (hlimited : walk'.applicationsLimited = walk.applicationsLimited)
    (hcount : walk'.applicationCount = walk.applicationCount)
    (hpending : walk'.pending = walk.pending)
    (hlinks : walk'.childAdmissions.map PendingChildAdmission.link =
      walk.childAdmissions.map PendingChildAdmission.link) :
    Numbered upstream root children next edges walk' where
  valid := hvalid
  unblocked := hclear
  unlimited := hlimited.trans h.unlimited
  count := hcount.trans h.count
  reached := h.reached
  linked := by
    rw [hlinks]
    exact h.linked.grow hgrows
  queue := by
    rw [hpending]
    exact h.queue
  depths := by
    rw [hpending]
    exact h.depths

/-- The head of the queue is the next application to take. -/
theorem Numbered.pop (h : Numbered upstream root children next edges walk)
    (hpending : walk.pending = application :: rest) :
    ∃ planned, (root :: children)[next]? = some planned ∧
      application.applicationIndex = next ∧
      application.admissionIndex = (if next = 0 then none else some (next - 1)) ∧
      application.applicationKappa = planned.kappa ∧ application.manifest = planned.manifest ∧
      (application.depth = 0 ↔ next = 0) ∧
      Numbered upstream root children (next + 1) edges { walk with pending := rest } := by
  have hqueue := h.queue
  rw [hpending, List.map_cons] at hqueue
  have hnext : next < ((root :: children).zipIdx).length := by
    by_contra hge
    rw [List.drop_eq_nil_of_le (by omega)] at hqueue
    simp at hqueue
  rw [List.drop_eq_getElem_cons hnext, List.map_cons] at hqueue
  obtain ⟨hhead, htail⟩ := List.cons.inj hqueue
  simp only [List.getElem_zipIdx, Nat.zero_add, Prod.mk.injEq] at hhead
  obtain ⟨hindex, hadmission, hplanned⟩ := hhead
  have hlength : next < (root :: children).length := by simpa using hnext
  refine ⟨(root :: children)[next], List.getElem?_eq_getElem hlength, hindex, hadmission, ?_, ?_, ?_,
    { valid := h.valid
      unblocked := h.unblocked
      unlimited := h.unlimited
      count := h.count
      reached := by simpa [Nat.lt_succ_iff] using hlength
      linked := h.linked
      queue := htail
      depths := fun queued hqueued => h.depths queued (hpending ▸ List.mem_cons_of_mem _ hqueued) }⟩
  · exact congrArg Planned.kappa hplanned
  · exact congrArg Planned.manifest hplanned
  · rw [h.depths application (hpending ▸ List.mem_cons_self), hindex]

section Admissions
variable {update : PendingChildAdmission → PendingChildAdmission}

theorem updateAdmission_other (walk : Walk) (hne : index ≠ some place) :
    (walk.updateAdmission index update).childAdmissions[place]? = walk.childAdmissions[place]? := by
  cases index with
  | none => rfl
  | some index =>
    have hplace : index ≠ place := fun heq => hne (congrArg some heq)
    simp [Walk.updateAdmission, hplace]

theorem updateAdmission_same {walk : Walk} (h : walk.childAdmissions[place]? = some admission) :
    (walk.updateAdmission (some place) update).childAdmissions[place]? = some (update admission) := by
  simp [Walk.updateAdmission, h]

end Admissions

section Turn
variable {upstream : Upstream} {resolver : Resolver} {limits : PlanLimits}

theorem blockers_nil {before after : ClosureResolver} (h : before.Grows after)
    (hclear : after.blockers = []) : before.blockers = [] :=
  List.prefix_nil.mp (hclear ▸ h.blockers)

theorem clean_of_nil {closure : ClosureResolver} (hclear : closure.blockers = []) :
    closure.Clean := by
  simp [ClosureResolver.Clean, hclear]

theorem planChildren_numbers {walk : Walk} (list : List ((String × String) × Nat))
    (hnumbered : Numbered upstream root children next edges walk)
    (hparent : application.applicationIndex < walk.applicationCount)
    (h : planChildren upstream resolver limits application list walk = .ok walk')
    (hclear : walk'.closure.blockers = []) :
    ∃ more, Numbered upstream root (children ++ more) next
      (edges ++ edgesOf application.applicationIndex application.applicationKappa list) walk' ∧
      Continues walk walk' := by
  induction list generalizing walk children edges with
  | nil =>
    cases h
    exact ⟨[], by simpa [edgesOf] using hnumbered, .refl _⟩
  | cons item rest ih =>
    obtain ⟨⟨childKappa, capabilitiesKappa⟩, position⟩ := item
    obtain ⟨middle, hmiddle, h⟩ := bind_ok.mp h
    have hvalid := planChild_keeps (keeps_grows (fun _ => True) walk.closure)
      ⟨hnumbered.valid, .refl _⟩ trivial trivial hmiddle
    have hrest := planChildren_keeps (keeps_grows (fun _ => True) middle.closure) rest
      ⟨hvalid.1, .refl _⟩ (fun _ _ => ⟨trivial, trivial⟩) h
    have hmiddleClear := blockers_nil hrest.2 hclear
    obtain ⟨child, hnumbered', hcontinues⟩ :=
      (planChild_clean hnumbered.valid hnumbered.unlimited hmiddle
        (clean_of_nil hmiddleClear)).numbers hnumbered hparent hmiddleClear
    have hparent' : application.applicationIndex < middle.applicationCount := by
      rw [hnumbered.count] at hparent
      rw [hnumbered'.count, List.length_append]
      omega
    obtain ⟨more, hlast, hcontinues'⟩ := ih hnumbered' hparent' h
    refine ⟨child :: more, ?_, hcontinues.trans hcontinues'⟩
    rw [List.append_assoc, List.append_assoc] at hlast
    exact hlast

/-- The bookkeeping of a turn: what entering an application and keeping its
requirements leave, once its own objects are resolved. -/
theorem settle {walk : Walk} {closure : ClosureResolver}
    (hnumbered : Numbered upstream root children (next + 1) edges walk)
    (hplanned : (root :: children)[next]? = some planned)
    (hadmission : application.admissionIndex = if next = 0 then none else some (next - 1))
    (hdepth : application.depth = 0 ↔ next = 0)
    (hmanifest : application.manifest = planned.manifest)
    (hvalid : closure.Valid upstream) (hclear : closure.blockers = [])
    (hgrows : walk.closure.Grows closure)
    (hobject : closure.objects.lookup planned.manifest.requires = some object)
    (hdecode : RequestedCapabilities.decode upstream planned.manifest.requires object.bytes =
      .ok capabilities)
    (hlayers : ∀ layer ∈ planned.manifest.layers,
      ∃ object, closure.objects.lookup layer.content = some object)
    (hwalk' : walk' = (((walk.enter application).withClosure middle).require application
      capabilities).withClosure closure) :
    Numbered upstream root children (next + 1) edges walk' ∧
      Settled upstream walk' next planned ∧
      ∀ index earlier, index < next → Settled upstream walk index earlier →
        Settled upstream walk' index earlier := by
  subst hwalk'
  cases next with
  | zero =>
    have hnone : application.admissionIndex = none := by simpa using hadmission
    have hroot : application.depth = 0 := hdepth.mpr rfl
    have hwalk : ((((walk.enter application).withClosure middle).require application
        capabilities).withClosure closure) = { walk with
          closure
          totalLayers := walk.totalLayers + application.manifest.layers.length
          requestedCapabilities := some capabilities } := by
      simp [Walk.enter, Walk.require, Walk.withClosure, Walk.updateAdmission, hnone, hroot]
    rw [hwalk]
    refine ⟨hnumbered.frame hvalid hclear hgrows rfl rfl rfl rfl,
      ⟨⟨object, capabilities, hobject, hdecode, rfl⟩, hlayers⟩, ?_⟩
    intro index earlier hlt
    exact absurd hlt (Nat.not_lt_zero _)
  | succ place =>
    have hsome : application.admissionIndex = some place := by simpa using hadmission
    have hchild : application.depth ≠ 0 := fun h => by simpa using hdepth.mp h
    have hlength : place < walk.childAdmissions.length := by
      have hlinks : walk.childAdmissions.length = children.length := by
        simpa using hnumbered.linked.named.length_eq
      have := (List.getElem?_eq_some_iff.mp hplanned).1
      rw [List.length_cons] at this
      omega
    obtain ⟨admission, hold⟩ : ∃ admission, walk.childAdmissions[place]? = some admission :=
      ⟨_, List.getElem?_eq_getElem hlength⟩
    let complete := fun admission : PendingChildAdmission => { admission with
      primaryLayer := application.manifest.primary
      layers := plannedLayers application.manifest }
    let keep := fun admission : PendingChildAdmission =>
      { admission with requestedCapabilities := some capabilities }
    let updated := (walk.updateAdmission (some place) complete).updateAdmission (some place) keep
    have hwalk : ((((walk.enter application).withClosure middle).require application
        capabilities).withClosure closure) = { walk with
          closure
          totalLayers := walk.totalLayers + application.manifest.layers.length
          childAdmissions := updated.childAdmissions } := by
      simp [Walk.enter, Walk.require, Walk.withClosure, Walk.updateAdmission, hsome, hchild, updated,
        complete, keep]
    rw [hwalk]
    have hlinks : updated.childAdmissions.map PendingChildAdmission.link =
        walk.childAdmissions.map PendingChildAdmission.link := by
      have hcomplete : ∀ admission, (complete admission).link = admission.link := fun _ => rfl
      have hkeep : ∀ admission, (keep admission).link = admission.link := fun _ => rfl
      exact (Walk.updateAdmission_map _ _ hkeep).trans (Walk.updateAdmission_map _ _ hcomplete)
    have hnew : updated.childAdmissions[place]? = some (keep (complete admission)) :=
      updateAdmission_same (updateAdmission_same hold)
    refine ⟨hnumbered.frame hvalid hclear hgrows rfl rfl rfl hlinks,
      ⟨⟨object, capabilities, hobject, hdecode, _, hnew, rfl, by rw [← hmanifest]⟩, hlayers⟩, ?_⟩
    intro index earlier hlt hsettled
    refine hsettled.frame hgrows (fun _ => rfl) fun other admission hother hadmission => ?_
    have hne : some place ≠ some other := fun heq => by
      have := Option.some.inj heq
      omega
    exact (updateAdmission_other _ hne).trans ((updateAdmission_other _ hne).trans hadmission)

/-- A turn without blockers takes the next application, adds its child edges and
settles it. -/
theorem planApplication_numbers {walk : Walk}
    (hnumbered : Numbered upstream root children next edges walk)
    (hpending : walk.pending = application :: rest)
    (h : planApplication upstream resolver limits application { walk with pending := rest } =
      .ok (broke, walk')) (hclear : walk'.closure.blockers = []) :
    ∃ planned more, (root :: children)[next]? = some planned ∧ broke = false ∧
      Numbered upstream root (children ++ more) (next + 1)
        (edges ++ edgesOf next planned.kappa planned.manifest.children.zipIdx) walk' ∧
      Settled upstream walk' next planned ∧
      ∀ index earlier, index < next → Settled upstream walk index earlier →
        Settled upstream walk' index earlier := by
  obtain ⟨planned, hplanned, hindex, hadmission, hkappa, hmanifest, hdepth, hpopped⟩ :=
    hnumbered.pop hpending
  have hentered : ({ walk with pending := rest }.enter application).closure.Valid upstream := by
    rw [Walk.enter_closure]
    exact hpopped.valid
  dsimp only [planApplication] at h
  split at h
  · cases h
    simp [Walk.block, Walk.withClosure, ClosureResolver.block] at hclear
  obtain ⟨required, hrequired, h⟩ := bind_ok.mp h
  obtain ⟨layered, hlayered, h⟩ := bind_ok.mp h
  have hrequiredValid := planRequires_keeps (keeps_grows (fun _ => True) _)
    ⟨hentered, .refl _⟩ trivial hrequired
  have hlayeredValid := planLayers_keeps (keeps_grows (fun _ => True) required.closure) _
    ⟨hrequiredValid.1, .refl _⟩ (fun _ _ => trivial) hlayered
  have hlayeredClear : layered.closure.blockers = [] := by
    split at h
    · cases h
      exact hclear
    · obtain ⟨ended, hended, h⟩ := bind_ok.mp h
      cases h
      have hgrown := planChildren_keeps (keeps_grows (fun _ => True) layered.closure) _
        ⟨hlayeredValid.1, .refl _⟩ (fun _ _ => ⟨trivial, trivial⟩) hended
      exact blockers_nil hgrown.2 hclear
  have hrequiredClear := blockers_nil hlayeredValid.2 hlayeredClear
  obtain ⟨object, middle, hfound, hdecided⟩ :=
    planRequires_clean hentered hrequired (clean_of_nil hrequiredClear)
  rcases hdecided with ⟨capabilities, hdecode, rfl⟩ | ⟨reason, rfl⟩
  swap
  · simp [Walk.block, Walk.withClosure, ClosureResolver.block] at hrequiredClear
  obtain ⟨closure, hvalid, hgrows, hblockers, hlayers, rfl⟩ :=
    planLayers_clean _ hrequiredValid.1 hlayered (clean_of_nil hlayeredClear)
  rw [Walk.require_closure] at hgrows
  rw [hmanifest] at hfound hdecode hlayers
  have hclosureGrows : walk.closure.Grows closure := by
    have := hfound.grows.trans hgrows
    rwa [Walk.enter_closure] at this
  have hlayerObjects : ∀ layer ∈ planned.manifest.layers,
      ∃ object, closure.objects.lookup layer.content = some object := by
    intro layer hlayer
    obtain ⟨position, hposition⟩ := List.mem_iff_getElem?.mp hlayer
    exact hlayers (layer, position) (List.mk_mem_zipIdx_iff_getElem?.mpr hposition)
  obtain ⟨hnumbered', hsettled, hearlier⟩ := settle hpopped hplanned hadmission hdepth hmanifest
    hvalid hlayeredClear hclosureGrows (hgrows.objects _ _ hfound.kept) hdecode hlayerObjects rfl
  split at h
  · rename_i hhalted
    rw [(clean_of_nil hlayeredClear).running hvalid] at hhalted
    cases hhalted
  obtain ⟨ended, hended, h⟩ := bind_ok.mp h
  cases h
  have hparent : application.applicationIndex < children.length + 1 := by
    rw [hindex]
    simpa using (List.getElem?_eq_some_iff.mp hplanned).1
  obtain ⟨more, hlast, hcontinues⟩ := planChildren_numbers _ hnumbered'
    (by rwa [hnumbered'.count]) hended hclear
  rw [hindex, hkappa, hmanifest] at hlast
  refine ⟨planned, more, hplanned, (clean_of_nil hclear).running hlast.valid, hlast,
    hsettled.continues hcontinues, fun index earlier hlt hold => ?_⟩
  exact (hearlier index earlier hlt ⟨hold.requires, hold.layers⟩).continues hcontinues

/-- The child edges of the first applications, in planning order. -/
def treeEdges (applications : List Planned) (count : Nat) : List ChildEdge :=
  (applications.zipIdx.take count).flatMap fun (planned, index) =>
    edgesOf index planned.kappa planned.manifest.children.zipIdx

theorem treeEdges_succ {applications : List Planned} (h : applications[count]? = some planned)
    (more : List Planned) :
    treeEdges (applications ++ more) (count + 1) =
      treeEdges applications count ++
        edgesOf count planned.kappa planned.manifest.children.zipIdx := by
  have hlt : count < applications.zipIdx.length := by
    simpa using (List.getElem?_eq_some_iff.mp h).1
  have hgiven : applications.zipIdx[count]? = some (planned, count) := by simp [h]
  unfold treeEdges
  rw [List.zipIdx_append, List.take_append_of_le_length (by omega), List.take_add_one, hgiven,
    List.flatMap_append]
  simp

/-- Every application is taken, its child edges are admitted and its objects known. -/
structure Complete (upstream : Upstream) (root : Planned) (children : List Planned)
    (walk : Walk) : Prop where
  numbered : Numbered upstream root children (children.length + 1)
    (treeEdges (root :: children) (children.length + 1)) walk
  settled : ∀ index planned, (root :: children)[index]? = some planned →
    Settled upstream walk index planned

theorem Numbered.complete
    (h : Numbered upstream root children next (treeEdges (root :: children) next) walk)
    (hsettled : ∀ index planned, index < next → (root :: children)[index]? = some planned →
      Settled upstream walk index planned)
    (hpending : walk.pending = []) : Complete upstream root children walk := by
  have hqueue := h.queue
  rw [hpending, List.map_nil, eq_comm, List.map_eq_nil_iff, List.drop_eq_nil_iff] at hqueue
  have hnext : next = children.length + 1 := by
    have := h.reached
    simp only [List.length_zipIdx, List.length_cons] at hqueue
    omega
  subst hnext
  refine ⟨h, fun index planned hplanned => hsettled index planned ?_ hplanned⟩
  simpa using (List.getElem?_eq_some_iff.mp hplanned).1

/-- A loop that ends without blockers has taken every application. -/
theorem planLoop_complete (fuel : Nat) {walk : Walk}
    (hnumbered : Numbered upstream root children next (treeEdges (root :: children) next) walk)
    (hsettled : ∀ index planned, index < next → (root :: children)[index]? = some planned →
      Settled upstream walk index planned)
    (h : planLoop upstream resolver limits fuel walk = .ok walk')
    (hclear : walk'.closure.blockers = []) : ∃ all, Complete upstream root all walk' := by
  induction fuel generalizing walk next children with
  | zero =>
    unfold planLoop at h
    split at h
    · rename_i hpending
      cases h
      exact ⟨children, hnumbered.complete hsettled hpending⟩
    · cases h
  | succ fuel ih =>
    unfold planLoop at h
    split at h
    · rename_i hpending
      cases h
      exact ⟨children, hnumbered.complete hsettled hpending⟩
    rename_i application rest hpending
    obtain ⟨⟨broke, turned⟩, hturn, h⟩ := bind_ok.mp h
    have hpopped : ({ walk with pending := rest } : Walk).closure.Valid upstream := hnumbered.valid
    have hturned := planApplication_keeps (keeps_grows (fun _ => True) _)
      ⟨hpopped, .refl _⟩ (fun _ _ => trivial) hturn
    have hturnedClear : turned.closure.blockers = [] := by
      dsimp only at h
      split at h
      · cases h
        exact hclear
      · have hgrown := planLoop_keeps (keeps_grows (fun _ => True) turned.closure)
          (fun _ => trivial) fuel ⟨hturned.1, .refl _⟩ h
        exact blockers_nil hgrown.2 hclear
    obtain ⟨planned, more, hplanned, rfl, hnumbered', hnew, hearlier⟩ :=
      planApplication_numbers hnumbered hpending hturn hturnedClear
    rw [← treeEdges_succ hplanned more] at hnumbered'
    refine ih hnumbered' (fun index other hlt hother => ?_) h
    have hbound := (List.getElem?_eq_some_iff.mp hplanned).1
    have hother' : (root :: children)[index]? = some other := by
      rw [← List.cons_append, List.getElem?_append_left (by omega)] at hother
      exact hother
    rcases Nat.lt_succ_iff_lt_or_eq.mp hlt with hlt | rfl
    · exact hearlier index other hlt (hsettled index other hlt hother')
    · rw [hplanned] at hother'
      obtain rfl := Option.some.inj hother'
      exact hnew

end Turn

end HologramLive.Plan
