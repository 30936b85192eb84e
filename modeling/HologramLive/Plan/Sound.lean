import HologramLive.Lifecycle.Order
import HologramLive.Plan.Grants
import HologramLive.Plan.Numbering
import HologramLive.Plan.Strict

namespace HologramLive.Plan
open Lib Lib.Result

/-- The manifests a root composes, through the objects its children name. -/
inductive Composed (upstream : Upstream) (objects : Objects) (root : AppManifest) :
    AppManifest → Prop where
  | root : Composed upstream objects root root
  | child (parent : Composed upstream objects root manifest) (edge : child ∈ manifest.children)
    (object : objects.lookup child.1 = some found)
    (decodes : upstream.decodeManifest found.bytes = .ok below) :
    Composed upstream objects root below

namespace ApplicationPlanReport

/-- The application planned under an index. -/
def applicationAt (upstream : Upstream) (report : ApplicationPlanReport) : Nat → Option Planned
  | 0 => some ⟨report.identity.applicationKappa, report.manifest⟩
  | place + 1 => do
    let admission ← report.childAdmissions[place]?
    let object ← report.objects.lookup admission.applicationKappa
    let manifest ← (decodeChildManifest upstream object).toOption
    some ⟨admission.applicationKappa, manifest⟩

/-- The requested capabilities kept for an index. -/
def requestedAt (report : ApplicationPlanReport) : Nat → Option RequestedCapabilities
  | 0 => report.requestedCapabilities
  | place + 1 => report.childAdmissions[place]?.bind (·.requestedCapabilities)

/-- The child edges of the whole application tree, parents in planning order. -/
def childEdges (upstream : Upstream) (report : ApplicationPlanReport) : List ChildEdge :=
  (List.range report.applicationCount).flatMap fun index =>
    (report.applicationAt upstream index).toList.flatMap fun planned =>
      edgesOf index planned.kappa planned.manifest.children.zipIdx

/-- A report that holds the whole closure of its root manifest. -/
structure Closed (upstream : Upstream) (report : ApplicationPlanReport) : Prop where
  closed : ∀ manifest, Composed upstream report.objects report.manifest manifest →
    ∀ kappa ∈ manifest.names, ∃ object, report.objects.lookup kappa = some object
  addressed : ∀ kappa object, report.objects.lookup kappa = some object →
    upstream.addressBytes object.bytes = kappa
  edges : report.childAdmissions.map (fun admission => admission.link.edge) =
    report.childEdges upstream
  planned : ∀ index < report.applicationCount,
    ∃ planned, report.applicationAt upstream index = some planned
  indices : report.childAdmissions.map (·.applicationIndex) =
    List.range' 1 (report.applicationCount - 1)
  parents : ∀ admission ∈ report.childAdmissions,
    admission.parentApplicationIndex < admission.applicationIndex
  delegated : ∀ admission ∈ report.childAdmissions,
    Delegates upstream report.objects admission.link
  requested : ∀ index planned, report.applicationAt upstream index = some planned →
    ∃ object capabilities, report.objects.lookup planned.manifest.requires = some object ∧
      RequestedCapabilities.decode upstream planned.manifest.requires object.bytes =
        .ok capabilities ∧ report.requestedAt index = some capabilities

/-- Neither strict planning nor what runs on its plan can lose an application. -/
def NoneLost (upstream : Upstream) (report : ApplicationPlanReport) : Prop :=
  (∀ text, report.intoApplicationPlan ≠ .error (.conflict text)) ∧
    ∀ plan, report.intoApplicationPlan = .ok plan →
      (∀ grant text, (plan.admittedGrantsWith upstream grant).result ≠ .error (.conflict text)) ∧
      ∀ error, Lifecycle.lifecycleApplicationOrder plan ≠ .error error

end ApplicationPlanReport

section Sound
variable {upstream : Upstream} {resolver : Resolver} {limits : PlanLimits}

theorem startWalk_numbered (source : PlanSource) (h : (startWalk source limits).closure.blockers = []) :
    Numbered upstream ⟨source.identity.applicationKappa, source.root⟩ [] 0 []
      (startWalk source limits) := by
  unfold startWalk at h ⊢
  split
  · rename_i hlimit
    simp [hlimit, Walk.block, Walk.withClosure, ClosureResolver.block] at h
  · exact
      { valid := ⟨by simp, by simp⟩
        unblocked := rfl
        unlimited := rfl
        count := rfl
        reached := Nat.zero_le _
        linked := ⟨rfl, by simp, rfl, by simp, .nil⟩
        queue := rfl
        depths := by simp }

theorem startWalk_valid (source : PlanSource) :
    (startWalk source limits).closure.Valid upstream := by
  have hvalid : ({ embedded := source.embedded, limits } : ClosureResolver).Valid upstream :=
    ⟨by simp, by simp⟩
  unfold startWalk
  split
  · exact hvalid.block _
  · exact hvalid

theorem planLoop_clear
    (h : planLoop upstream resolver limits limits.maxApplications (startWalk source limits) =
      .ok walk) (hclear : walk.closure.blockers = []) :
    ∃ children, Complete upstream ⟨source.identity.applicationKappa, source.root⟩ children walk := by
  have hgrown := planLoop_keeps (keeps_grows (fun _ => True) (startWalk source limits).closure)
    (fun _ => trivial) _ ⟨startWalk_valid source, .refl _⟩ h
  exact planLoop_complete _ (startWalk_numbered source (blockers_nil hgrown.2 hclear)) (by simp) h
    hclear

/-- Planning that ends without blockers has completed its loop. -/
theorem explain_complete (h : explainApplication upstream archive limits resolver = .ok report)
    (hclear : report.blockers = []) :
    ∃ source walk children, readSource upstream archive = .ok source ∧
      report = reportOf source limits walk ∧ walk.closure.blockers = [] ∧
      Complete upstream ⟨source.identity.applicationKappa, source.root⟩ children walk := by
  obtain ⟨source, hsource, h⟩ := bind_ok.mp h
  obtain ⟨walk, hwalk, h⟩ := bind_ok.mp h
  cases h
  have hwalkClear : walk.closure.blockers = [] := (List.append_eq_nil_iff.mp hclear).1
  obtain ⟨children, hcomplete⟩ := planLoop_clear hwalk hwalkClear
  exact ⟨source, walk, children, hsource, rfl, hwalkClear, hcomplete⟩

/-- What reading an archive for planning has checked. -/
structure Read (upstream : Upstream) (archiveBytes : Bytes) (source : PlanSource) : Prop where
  loaded : ∃ archive manifestBytes blobs,
    upstream.load archiveBytes = .ok archive ∧ archive.appManifest = some manifestBytes ∧
    upstream.decodeManifest manifestBytes = .ok source.manifest ∧
    archive.contentBlobs = .ok blobs ∧ embeddedTable blobs [] = .ok source.embedded ∧
    ∃ directory directories,
      Directory.verifyRequired upstream source.manifest directories blobs = .ok directory
  valid : upstream.validateManifest source.manifest = .ok ()
  root : upstream.decodeManifest (upstream.canonicalizeManifest source.manifest) = .ok source.root

theorem readSource_read (h : readSource upstream archiveBytes = .ok source) :
    Read upstream archiveBytes source := by
  obtain ⟨_, _, h⟩ := bind_ok.mp h
  obtain ⟨archive, hload, h⟩ := bind_ok.mp h
  split at h
  · cases h
  rename_i manifestBytes hmanifestBytes
  obtain ⟨manifest, hmanifest, h⟩ := bind_ok.mp h
  obtain ⟨_, hvalidate, h⟩ := bind_ok.mp h
  obtain ⟨extensions, _, h⟩ := bind_ok.mp h
  obtain ⟨blobs, hblobs, h⟩ := bind_ok.mp h
  obtain ⟨directory, hdirectory, h⟩ := bind_ok.mp h
  obtain ⟨embedded, hembedded, h⟩ := bind_ok.mp h
  obtain ⟨root, hroot, h⟩ := bind_ok.mp h
  cases h
  exact ⟨⟨archive, manifestBytes, blobs, mapError_ok.mp hload, hmanifestBytes,
    mapError_ok.mp hmanifest, mapError_ok.mp hblobs, hembedded, directory, _, hdirectory⟩,
    mapError_ok.mp hvalidate, mapError_ok.mp hroot⟩

theorem Read.root_eq (hcanonical : upstream.Canonical)
    (h : Read upstream archiveBytes source) : source.root = source.manifest := by
  obtain ⟨_, manifestBytes, _, _, _, hmanifest, _⟩ := h.loaded
  have hroot := hcanonical manifestBytes source.manifest hmanifest h.valid
  rw [h.root] at hroot
  exact Except.ok.inj hroot

theorem flatMap_zipIdx (list : List α) (f : α × Nat → List β) :
    list.zipIdx.flatMap f = (List.range list.length).flatMap fun index =>
      list[index]?.toList.flatMap fun a => f (a, index) := by
  induction list using List.reverseRecOn with
  | nil => rfl
  | append_singleton front last ih =>
    have hfront : (List.range front.length).flatMap (fun index =>
        (front ++ [last])[index]?.toList.flatMap fun a => f (a, index)) =
        (List.range front.length).flatMap fun index =>
          front[index]?.toList.flatMap fun a => f (a, index) := by
      refine List.flatMap_congr fun index hindex => ?_
      rw [List.getElem?_append_left (List.mem_range.mp hindex)]
    rw [List.zipIdx_append, List.flatMap_append, ih, List.length_append, List.length_singleton,
      List.range_succ, List.flatMap_append, hfront]
    simp

/-- Every child edge of a taken application was admitted. -/
theorem Complete.child_link {index : Nat} {planned : Planned} {child : String × String}
    (h : Complete upstream root children walk)
    (hplanned : (root :: children)[index]? = some planned)
    (hchild : child ∈ planned.manifest.children) :
    ∃ (link : Link) (place : Nat),
      (walk.childAdmissions.map PendingChildAdmission.link)[place]? = some link ∧
      link.applicationKappa = child.1 ∧ link.delegatedCapabilities.kappa = child.2 := by
  obtain ⟨position, hposition⟩ := List.mem_iff_getElem?.mp hchild
  have hedge : (⟨index, planned.kappa, clampU32 position, child.1, child.2⟩ : ChildEdge) ∈
      treeEdges (root :: children) (children.length + 1) := by
    unfold treeEdges
    rw [List.take_of_length_le (by simp), List.mem_flatMap]
    exact ⟨(planned, index), List.mk_mem_zipIdx_iff_getElem?.mpr hplanned,
      List.mem_map.mpr ⟨(child, position), List.mk_mem_zipIdx_iff_getElem?.mpr hposition, rfl⟩⟩
  rw [← h.numbered.linked.edge] at hedge
  obtain ⟨link, hlink, heq⟩ := List.mem_map.mp hedge
  obtain ⟨place, hplace⟩ := List.mem_iff_getElem?.mp hlink
  exact ⟨link, place, hplace, congrArg ChildEdge.applicationKappa heq,
    congrArg ChildEdge.capabilitiesKappa heq⟩

/-- Every admitted link names the next application's object. -/
theorem Complete.named (h : Complete upstream root children walk)
    (hlink : (walk.childAdmissions.map PendingChildAdmission.link)[place]? = some link) :
    place < children.length ∧ ∃ planned : Planned, (root :: children)[place + 1]? = some planned ∧
      Names upstream walk.closure.objects link planned := by
  have hnamed := h.numbered.linked.named
  obtain ⟨hlength, hget⟩ := List.getElem?_eq_some_iff.mp hlink
  have hplace : place < children.length := by rwa [← hnamed.length_eq]
  refine ⟨hplace, children[place], by simp [hplace], ?_⟩
  have hat := hnamed.get hlength hplace
  rw [List.get_eq_getElem, hget] at hat
  exact hat

/-- Everything a planned application names is in the tables. -/
theorem Complete.closed {index : Nat} {planned : Planned}
    (h : Complete upstream root children walk)
    (hplanned : (root :: children)[index]? = some planned)
    (hkappa : kappa ∈ planned.manifest.names) :
    ∃ object, walk.closure.objects.lookup kappa = some object := by
  have hsettled := h.settled index planned hplanned
  rcases AppManifest.mem_names.mp hkappa with rfl | ⟨layer, hlayer, rfl⟩ | ⟨child, hchild, hname⟩
  · obtain ⟨object, _, hobject, _⟩ := hsettled.requires
    exact ⟨object, hobject⟩
  · exact hsettled.layers layer hlayer
  · obtain ⟨link, place, hlink, happlicationKappa, hcapabilities⟩ := h.child_link hplanned hchild
    rcases hname with rfl | rfl
    · obtain ⟨_, _, _, hsame, object, hobject, _⟩ := h.named hlink
      rw [← hsame, happlicationKappa] at hobject
      exact ⟨object, hobject⟩
    · obtain ⟨object, hobject, _⟩ :=
        h.numbered.linked.delegated link (List.mem_of_getElem? hlink)
      rw [hcapabilities] at hobject
      exact ⟨object, hobject⟩

section Report
variable {source : PlanSource} {walk : Walk} {children : List Planned}
  (hcomplete : Complete upstream ⟨source.identity.applicationKappa, source.root⟩ children walk)
  (hroot : source.root = source.manifest)
include hcomplete hroot

theorem reportOf_applicationAt (index : Nat) :
    (reportOf source limits walk).applicationAt upstream index =
      ((⟨source.identity.applicationKappa, source.root⟩ : Planned) :: children)[index]? := by
  cases index with
  | zero =>
    rw [List.getElem?_cons_zero, hroot]
    rfl
  | succ place =>
    have hnamed := hcomplete.numbered.linked.named
    have hlength := hnamed.length_eq
    rw [List.length_map] at hlength
    rw [List.getElem?_cons_succ]
    by_cases hplace : place < children.length
    · have hlt : place < walk.childAdmissions.length := by omega
      obtain ⟨hkappa, object, hobject, hdecode⟩ := hnamed.get (by simpa [hlength]) hplace
      simp only [List.get_eq_getElem, List.getElem_map] at hkappa hobject hdecode
      have hadmission : walk.childAdmissions[place]? = some walk.childAdmissions[place] :=
        List.getElem?_eq_getElem hlt
      simp only [PendingChildAdmission.link] at hkappa
      simp [ApplicationPlanReport.applicationAt, reportOf, hadmission, hkappa, hobject, hdecode,
        Except.toOption, List.getElem?_eq_getElem hplace]
    · simp [ApplicationPlanReport.applicationAt, reportOf, List.getElem?_eq_none (show
        walk.childAdmissions.length ≤ place by omega), List.getElem?_eq_none (show
        children.length ≤ place by omega)]

theorem reportOf_childEdges :
    (reportOf source limits walk).childAdmissions.map (fun admission => admission.link.edge) =
      (reportOf source limits walk).childEdges upstream := by
  have hedges := hcomplete.numbered.linked.edge
  have hcount := hcomplete.numbered.count
  rw [List.map_map] at hedges
  have hlinks : (reportOf source limits walk).childAdmissions.map
      (fun admission => admission.link.edge) =
      walk.childAdmissions.map (Link.edge ∘ PendingChildAdmission.link) := by
    simp [reportOf, Function.comp_def, PendingChildAdmission.link]
  rw [hlinks, hedges, treeEdges, List.take_of_length_le (by simp)]
  unfold ApplicationPlanReport.childEdges
  rw [flatMap_zipIdx]
  simp only [reportOf_applicationAt hcomplete hroot]
  rw [show (reportOf source limits walk).applicationCount = children.length + 1 from hcount,
    List.length_cons]

theorem composed_planned
    (h : Composed upstream (reportOf source limits walk).objects source.manifest manifest) :
    ∃ (index : Nat) (planned : Planned),
      ((⟨source.identity.applicationKappa, source.root⟩ : Planned) :: children)[index]? =
        some planned ∧ planned.manifest = manifest := by
  induction h with
  | root => exact ⟨0, _, rfl, hroot⟩
  | @child manifest child found below _ edge object decodes ih =>
    obtain ⟨index, planned, hplanned, rfl⟩ := ih
    obtain ⟨link, place, hlink, hkappa, _⟩ := hcomplete.child_link hplanned edge
    obtain ⟨_, named, hplace, hsame, kept, hkept, hdecode⟩ := hcomplete.named hlink
    rw [← hsame, hkappa] at hkept
    obtain rfl : kept = found := Option.some.inj (hkept.symm.trans object)
    have hmanifest := (decodeChildManifest_ok.mp hdecode).1
    rw [decodes] at hmanifest
    exact ⟨place + 1, named, hplace, (Except.ok.inj hmanifest).symm⟩

theorem reportOf_closed : (reportOf source limits walk).Closed upstream := by
  have hnumbered := hcomplete.numbered
  have hlinks : walk.childAdmissions.length = children.length := by
    simpa using hnumbered.linked.named.length_eq
  have happlication := fun index => @reportOf_applicationAt upstream limits _ _ _ hcomplete hroot index
  refine
    { closed := fun manifest hcomposed kappa hkappa => ?_
      addressed := fun kappa object hobject => (hnumbered.valid.addressed kappa object hobject).2
      edges := reportOf_childEdges hcomplete hroot
      planned := fun index hindex => ?_
      indices := ?_
      parents := fun admission hadmission => ?_
      delegated := fun admission hadmission => ?_
      requested := fun index planned hplanned => ?_ }
  · obtain ⟨index, planned, hplanned, rfl⟩ := composed_planned hcomplete hroot hcomposed
    exact hcomplete.closed hplanned hkappa
  · have hlt : index < children.length + 1 := by
      rw [← hnumbered.count]
      exact hindex
    rw [happlication]
    exact ⟨_, List.getElem?_eq_getElem (by simpa using hlt)⟩
  · have hindices := hnumbered.linked.indices
    have hcount : (reportOf source limits walk).applicationCount = children.length + 1 :=
      hnumbered.count
    rw [List.map_map, List.length_map, hlinks] at hindices
    rw [hcount, Nat.add_sub_cancel, ← hindices]
    simp [reportOf, Function.comp_def, PendingChildAdmission.link]
  · obtain ⟨kept, hkept, rfl⟩ := List.mem_map.mp hadmission
    exact hnumbered.linked.parents kept.link (List.mem_map_of_mem hkept)
  · obtain ⟨kept, hkept, rfl⟩ := List.mem_map.mp hadmission
    exact hnumbered.linked.delegated kept.link (List.mem_map_of_mem hkept)
  · rw [happlication] at hplanned
    obtain ⟨object, capabilities, hobject, hdecode, hkept⟩ :=
      (hcomplete.settled index planned hplanned).requires
    refine ⟨object, capabilities, hobject, hdecode, ?_⟩
    cases index with
    | zero => exact hkept
    | succ place =>
      obtain ⟨admission, hadmission, hrequested, _⟩ := hkept
      simp [ApplicationPlanReport.requestedAt, reportOf, hadmission, hrequested]

omit hroot in
theorem reportOf_indexed : (reportOf source limits walk).Indexed := by
  have hindices := hcomplete.numbered.linked.indices
  rw [List.map_map, List.length_map] at hindices
  refine ⟨?_, fun admission hadmission => ?_⟩
  · simpa [reportOf, Function.comp_def, PendingChildAdmission.link] using hindices
  · obtain ⟨kept, hkept, rfl⟩ := List.mem_map.mp hadmission
    exact hcomplete.numbered.linked.parents kept.link (List.mem_map_of_mem hkept)

theorem reportOf_kept : (reportOf source limits walk).Kept := by
  have hclosed := @reportOf_closed upstream limits _ _ _ hcomplete hroot
  have hlinks : walk.childAdmissions.length = children.length := by
    simpa using hcomplete.numbered.linked.named.length_eq
  obtain ⟨_, capabilities, _, _, hrequested⟩ := hclosed.requested 0 _ rfl
  refine ⟨reportOf_indexed hcomplete, ⟨capabilities, hrequested⟩, fun layer hlayer => ?_,
    fun child hchild => ?_⟩
  · obtain ⟨planned, hplanned, rfl⟩ := List.mem_map.mp hlayer
    obtain ⟨⟨given, position⟩, hgiven, rfl⟩ := List.mem_map.mp hplanned
    exact hclosed.closed _ .root _ (AppManifest.layer_names (List.fst_mem_of_mem_zipIdx hgiven))
  · obtain ⟨admission, hadmission, rfl⟩ := List.mem_map.mp hchild
    obtain ⟨place, hplace⟩ := List.mem_iff_getElem?.mp hadmission
    have hlt : place < children.length := by
      have := (List.getElem?_eq_some_iff.mp hplace).1
      omega
    have hsettled := hcomplete.settled (place + 1) children[place] (by simp [hlt])
    obtain ⟨_, capabilities, _, _, kept, hkept, hcapabilities, hlayers⟩ := hsettled.requires
    obtain rfl : kept = admission := Option.some.inj (hkept.symm.trans hplace)
    refine ⟨⟨capabilities, hcapabilities⟩, fun layer hlayer => ?_⟩
    rw [hlayers] at hlayer
    obtain ⟨planned, hplanned, rfl⟩ := List.mem_map.mp hlayer
    obtain ⟨⟨given, position⟩, hgiven, rfl⟩ := List.mem_map.mp hplanned
    exact hsettled.layers given (List.fst_mem_of_mem_zipIdx hgiven)

end Report

theorem Kept.none_lost {report : ApplicationPlanReport} (h : report.Kept) :
    report.NoneLost upstream := by
  refine ⟨h.no_conflict, fun plan hplan => ?_⟩
  have hordered := h.indexed.ordered hplan
  refine ⟨admittedGrantsWith_no_conflict hordered, fun error herror => ?_⟩
  obtain ⟨order, horder, _⟩ := Lifecycle.lifecycleApplicationOrder_visits (.of_ordered hordered)
  rw [horder] at herror
  cases herror

/-- Planning that reports no blocker has resolved the whole closure of its root, and
nothing downstream of it can lose an application. -/
theorem planning_sound (hcanonical : upstream.Canonical)
    (h : explainApplication upstream archive limits resolver = .ok report)
    (hclear : report.blockers = []) :
    report.Closed upstream ∧ report.NoneLost upstream ∧
      ∀ evaluate, (report.evaluateProviders evaluate).NoneLost upstream := by
  obtain ⟨source, walk, children, hsource, rfl, _, hcomplete⟩ := explain_complete h hclear
  have hroot := (readSource_read hsource).root_eq hcanonical
  have hkept := @reportOf_kept upstream limits _ _ _ hcomplete hroot
  exact ⟨reportOf_closed hcomplete hroot, Kept.none_lost hkept,
    fun evaluate => Kept.none_lost (hkept.evaluate evaluate)⟩

end Sound

/-- A thin archive of a rootfs root with one tensor child. -/
def composedCatalog : Catalog where
  archives :=
    [([72, 79, 76, 79, 4, 0],
      { fingerprint := [1]
        appManifest := some [97]
        extensions := .ok [(Directory.directoryExtensionKey, [101])]
        contentBlobs := .ok [] })]
  manifests :=
    [([97], ⟨some 0, "c", [⟨.rootfsImage, "d", "init", "x86_64"⟩], [("b", "c")]⟩),
     ([98], ⟨some 0, "c", [⟨.tensorPlan, "d", "model", ""⟩], []⟩)]
  capabilities := [([99], {})]
  directories :=
    [([101],
      { schemaVersion := 1
        primaryLayer := some 0
        requiresKappa := "c"
        layers := [⟨0, "rootfs", "d", "init", none, some "x86_64", none, none⟩]
        children := [{ position := 0, applicationKappa := "b", capabilitiesKappa := "c" }]
        blobs := [] })]

/-- A store that holds, at every address, the bytes the address spells. -/
def spellingStore : Resolver := fun _ kappa =>
  .ok (some (kappa.toList.map fun letter => UInt8.ofNat letter.toNat))

theorem planning_sound_sample : ∃ report,
    explainApplication composedCatalog.upstream [72, 79, 76, 79, 4, 0] {} spellingStore =
      .ok report ∧ report.applicationCount = 2 ∧ report.Closed composedCatalog.upstream ∧
      report.NoneLost composedCatalog.upstream := by
  have hrun : (explainApplication composedCatalog.upstream [72, 79, 76, 79, 4, 0] {}
      spellingStore).toOption.map (fun report => (report.blockers, report.applicationCount)) =
      some ([], 2) := by decide
  cases hreport : explainApplication composedCatalog.upstream [72, 79, 76, 79, 4, 0] {}
      spellingStore with
  | error error =>
    rw [hreport] at hrun
    cases hrun
  | ok report =>
    rw [hreport] at hrun
    obtain ⟨hclear, hcount⟩ := Prod.mk.inj (Option.some.inj hrun)
    obtain ⟨hclosed, hlost, _⟩ :=
      planning_sound (composedCatalog.canonical (by decide)) hreport hclear
    exact ⟨report, rfl, hcount, hclosed, hlost⟩

end HologramLive.Plan
