import HologramLive.Lib.Lineage
import HologramLive.Plan.Limits
import HologramLive.Plan.Sound

namespace HologramLive.Plan
open Lib Lib.Result

/-- The depths of the applications numbered so far. -/
structure Walk.Graded (limits : PlanLimits) (depths : List Nat) (walk : Walk) : Prop where
  numbered : depths.length = walk.applicationCount
  root : depths[0]? = some 0
  queued : ∀ application ∈ walk.pending,
    depths[application.applicationIndex]? = some application.depth
  admitted : ∀ edge ∈ walk.edges,
    ∃ depth, depths[edge.1]? = some depth ∧ depths[edge.2]? = some (depth + 1)
  bounded : ∀ depth ∈ depths, depth ≤ limits.maxDepth

section Graded
variable {upstream : Upstream} {resolver : Resolver} {limits : PlanLimits}

theorem Walk.Graded.frame {walk walk' : Walk} (h : walk.Graded limits depths)
    (hcount : walk'.applicationCount = walk.applicationCount)
    (hpending : walk'.pending = walk.pending) (hedges : walk'.edges = walk.edges) :
    walk'.Graded limits depths where
  numbered := h.numbered.trans hcount.symm
  root := h.root
  queued := hpending ▸ h.queued
  admitted := hedges ▸ h.admitted
  bounded := h.bounded

theorem Walk.Graded.follow {walk walk' : Walk} (h : walk.Graded limits depths)
    (hfollows : walk.Follows walk') : walk'.Graded limits depths :=
  h.frame hfollows.applicationCount hfollows.pending hfollows.edges

theorem Walk.enter_edges (walk : Walk) (application : PendingApplication) :
    (walk.enter application).edges = walk.edges :=
  walk.updateAdmission_map _ fun _ => rfl

theorem Walk.enter_queue (walk : Walk) (application : PendingApplication) :
    (walk.enter application).pending = walk.pending ∧
      (walk.enter application).applicationCount = walk.applicationCount := by
  unfold Walk.enter
  cases application.admissionIndex <;> exact ⟨rfl, rfl⟩

/-- A child is graded one deeper than its parent. -/
theorem Walk.Graded.number {walk : Walk} (h : walk.Graded limits depths)
    (hdepth : application.depth + 1 ≤ limits.maxDepth) :
    (walk.number application).Graded limits (depths ++ [application.depth + 1]) where
  numbered := by simp [Walk.number, h.numbered]
  root := by
    rw [List.getElem?_append_left (List.getElem?_eq_some_iff.mp h.root).1]
    exact h.root
  queued := fun waiting hwaiting => by
    have hgiven := h.queued waiting hwaiting
    rw [List.getElem?_append_left (List.getElem?_eq_some_iff.mp hgiven).1]
    exact hgiven
  admitted := fun edge hedge => by
    obtain ⟨depth, hparent, hchild⟩ := h.admitted edge hedge
    refine ⟨depth, ?_, ?_⟩
    · rw [List.getElem?_append_left (List.getElem?_eq_some_iff.mp hparent).1]
      exact hparent
    · rw [List.getElem?_append_left (List.getElem?_eq_some_iff.mp hchild).1]
      exact hchild
  bounded := List.forall_mem_append.mpr ⟨h.bounded, by simpa using hdepth⟩

theorem admitChild_graded {walk : Walk} (h : walk.Graded limits depths)
    (hgiven : depths[application.applicationIndex]? = some application.depth)
    (hdepth : application.depth + 1 ≤ limits.maxDepth)
    (hchild : admitChild upstream resolver application position childKappa capabilitiesKappa walk =
      .ok walk') : walk'.Graded limits (depths ++ [application.depth + 1]) := by
  obtain ⟨⟨delegated, planned⟩, hdelegated, hchild⟩ := bind_ok.mp hchild
  obtain ⟨⟨outcome, resolved⟩, hresolve, hchild⟩ := bind_ok.mp hchild
  have hgraded := (h.number hdepth).follow
    ((planDelegated_follows hdelegated).trans (Walk.resolve_follows hresolve))
  have hparent : (depths ++ [application.depth + 1])[application.applicationIndex]? =
      some application.depth := by
    rw [List.getElem?_append_left (List.getElem?_eq_some_iff.mp hgiven).1]
    exact hgiven
  have hnew : (depths ++ [application.depth + 1])[walk.applicationCount]? =
      some (application.depth + 1) := by
    rw [← h.numbered]
    simp
  dsimp only at hchild
  split at hchild
  · cases hchild
    exact hgraded
  split at hchild
  · cases hchild
    exact hgraded.frame rfl rfl rfl
  · rename_i manifest hdecode
    cases hchild
    refine ⟨hgraded.numbered, hgraded.root, ?_, ?_, hgraded.bounded⟩
    · intro waiting hwaiting
      rcases List.mem_append.mp hwaiting with hwaiting | hwaiting
      · exact hgraded.queued waiting hwaiting
      · rw [List.mem_singleton.mp hwaiting]
        exact hnew
    · intro edge hedge
      have hedges : edge ∈ resolved.edges ∨
          edge = (application.applicationIndex, walk.applicationCount) := by
        cases delegated with
        | none => exact .inl (by simpa [Walk.edges, Walk.enqueue, Walk.describe] using hedge)
        | some capabilities =>
          simpa [Walk.edges, Walk.enqueue, Walk.describe, PendingApplication.admission,
            or_comm, eq_comm] using hedge
      rcases hedges with hedge | rfl
      · exact hgraded.admitted edge hedge
      · exact ⟨_, hparent, hnew⟩

theorem planChild_graded {walk : Walk} (h : walk.Graded limits depths)
    (hgiven : depths[application.applicationIndex]? = some application.depth)
    (hchild : planChild upstream resolver limits application position childKappa capabilitiesKappa
      walk = .ok walk') : ∃ more, walk'.Graded limits (depths ++ more) := by
  have hsame : ∀ walk' : Walk, walk'.applicationCount = walk.applicationCount →
      walk'.pending = walk.pending → walk'.edges = walk.edges →
      ∃ more, walk'.Graded limits (depths ++ more) := by
    intro walk' hcount hpending hedges
    refine ⟨[], ?_⟩
    rw [List.append_nil]
    exact h.frame hcount hpending hedges
  dsimp only [planChild] at hchild
  split at hchild
  · cases hchild
    exact hsame _ rfl rfl rfl
  split at hchild
  · cases hchild
    exact hsame _ rfl rfl rfl
  rename_i hdepth
  split at hchild
  · cases hchild
    exact hsame _ rfl rfl rfl
  split at hchild
  · cases hchild
    exact hsame _ rfl rfl rfl
  · have hreferred : (walk.refer application position childKappa capabilitiesKappa).Graded limits
        depths := h.frame rfl rfl rfl
    exact ⟨_, admitChild_graded hreferred hgiven (not_lt.mp hdepth) hchild⟩

theorem planChildren_graded {walk : Walk} (children : List ((String × String) × Nat))
    (h : walk.Graded limits depths)
    (hgiven : depths[application.applicationIndex]? = some application.depth)
    (hchildren : planChildren upstream resolver limits application children walk = .ok walk') :
    ∃ more, walk'.Graded limits (depths ++ more) := by
  induction children generalizing walk depths with
  | nil =>
    cases hchildren
    exact ⟨[], by rwa [List.append_nil]⟩
  | cons child rest ih =>
    obtain ⟨planned, hplanned, hchildren⟩ := bind_ok.mp hchildren
    obtain ⟨more, hgraded⟩ := planChild_graded h hgiven hplanned
    have hgiven' : (depths ++ more)[application.applicationIndex]? = some application.depth := by
      rw [List.getElem?_append_left (List.getElem?_eq_some_iff.mp hgiven).1]
      exact hgiven
    obtain ⟨others, hlast⟩ := ih hgraded hgiven' hchildren
    exact ⟨more ++ others, by rwa [← List.append_assoc]⟩

theorem planApplication_graded {walk : Walk} (h : walk.Graded limits depths)
    (hgiven : depths[application.applicationIndex]? = some application.depth)
    (hturn : planApplication upstream resolver limits application walk = .ok (broke, walk')) :
    ∃ depths, walk'.Graded limits depths := by
  obtain ⟨hpending, hcount⟩ := walk.enter_queue application
  have hentered := h.frame hcount hpending (walk.enter_edges application)
  dsimp only [planApplication] at hturn
  split at hturn
  · cases hturn
    exact ⟨_, hentered.frame rfl rfl rfl⟩
  obtain ⟨required, hrequired, hturn⟩ := bind_ok.mp hturn
  obtain ⟨layered, hlayered, hturn⟩ := bind_ok.mp hturn
  have hgraded := hentered.follow
    ((planRequires_follows hrequired).trans (planLayers_follows _ hlayered))
  split at hturn
  · cases hturn
    exact ⟨_, hgraded⟩
  · obtain ⟨planned, hplanned, hturn⟩ := bind_ok.mp hturn
    cases hturn
    obtain ⟨more, hlast⟩ := planChildren_graded _ hgraded hgiven hplanned
    exact ⟨_, hlast⟩

theorem planLoop_graded (fuel : Nat) {walk : Walk} (h : walk.Graded limits depths)
    (hloop : planLoop upstream resolver limits fuel walk = .ok walk') :
    ∃ depths, walk'.Graded limits depths := by
  induction fuel generalizing walk depths with
  | zero =>
    unfold planLoop at hloop
    split at hloop
    · cases hloop
      exact ⟨_, h⟩
    · cases hloop
  | succ fuel ih =>
    unfold planLoop at hloop
    split at hloop
    · cases hloop
      exact ⟨_, h⟩
    rename_i application rest hpending
    obtain ⟨⟨broke, turned⟩, hturn, hloop⟩ := bind_ok.mp hloop
    have hpopped : ({ walk with pending := rest } : Walk).Graded limits depths :=
      ⟨h.numbered, h.root, fun waiting hwaiting => h.queued waiting (by simp [hpending, hwaiting]),
        h.admitted, h.bounded⟩
    obtain ⟨depths', hturned⟩ := planApplication_graded hpopped
      (h.queued application (by simp [hpending])) hturn
    dsimp only at hloop
    split at hloop
    · cases hloop
      exact ⟨_, hturned⟩
    · exact ih hturned hloop

end Graded

/-! The application tree, each path an application of its own. -/

/-- The applications below a root by the child positions that lead to them, over what
content there is under each kappa. -/
inductive Tree (upstream : Upstream) (content : String → Option Bytes) (root : AppManifest) :
    List Nat → AppManifest → Prop where
  | root : Tree upstream content root [] root
  | child (parent : Tree upstream content root path manifest)
    (edge : manifest.children[position]? = some child) (object : content child.1 = some bytes)
    (decodes : upstream.decodeManifest bytes = .ok below) :
    Tree upstream content root (path ++ [position]) below

/-- The kappas the tree names. -/
def Tree.Names (upstream : Upstream) (content : String → Option Bytes) (root : AppManifest)
    (kappa : String) : Prop :=
  ∃ path manifest, Tree upstream content root path manifest ∧ kappa ∈ manifest.names

/-- A full closure that exceeds none of the five limits. -/
structure Tree.Fits (upstream : Upstream) (content : String → Option Bytes) (root : AppManifest)
    (limits : PlanLimits) : Prop where
  depth : ∀ path manifest, Tree upstream content root path manifest →
    path.length ≤ limits.maxDepth
  applications : ∀ paths : List (List Nat), paths.Nodup →
    (∀ path ∈ paths, ∃ manifest, Tree upstream content root path manifest) →
    paths.length ≤ limits.maxApplications
  layers : ∀ applications : List (List Nat × AppManifest), (applications.map Prod.fst).Nodup →
    (∀ application ∈ applications, Tree upstream content root application.1 application.2) →
    (applications.map fun application => application.2.layers.length).sum ≤ limits.maxLayers
  objects : ∀ kappas : List String, kappas.Nodup →
    (∀ kappa ∈ kappas, Tree.Names upstream content root kappa) →
    kappas.length ≤ limits.maxObjects
  bytes : ∀ kappas : List String, kappas.Nodup →
    (∀ kappa ∈ kappas, Tree.Names upstream content root kappa) →
    (kappas.map fun kappa => ((content kappa).map List.length).getD 0).sum ≤
      limits.maxResolvedBytes

/-- The child edges of all applications, with the positions as they are. -/
def rowsOf (applications : List Planned) : List (ChildEdge × Nat) :=
  applications.zipIdx.flatMap fun (planned, index) =>
    planned.manifest.children.zipIdx.map fun (child, position) =>
      (⟨index, planned.kappa, clampU32 position, child.1, child.2⟩, position)

def nodesOf (applications : List Planned) : List (Nat × Nat) :=
  (rowsOf applications).map fun row => (row.1.parentApplicationIndex, row.2)

theorem rowsOf_edges (applications : List Planned) :
    (rowsOf applications).map Prod.fst = treeEdges applications applications.length := by
  unfold rowsOf treeEdges edgesOf
  rw [List.take_of_length_le (by simp), List.map_flatMap]
  simp [Function.comp_def]

theorem mem_rowsOf {applications : List Planned} {index : Nat} {planned : Planned}
    (hplanned : applications[index]? = some planned)
    (hchild : planned.manifest.children[position]? = some child) :
    (⟨index, planned.kappa, clampU32 position, child.1, child.2⟩, position) ∈
      rowsOf applications :=
  List.mem_flatMap.mpr ⟨(planned, index), List.mk_mem_zipIdx_iff_getElem?.mpr hplanned,
    List.mem_map.mpr ⟨(child, position), List.mk_mem_zipIdx_iff_getElem?.mpr hchild, rfl⟩⟩

section Complete
variable {upstream : Upstream} {limits : PlanLimits} {root : Planned} {children : List Planned}
  {walk : Walk} (hcomplete : Complete upstream root children walk)
include hcomplete

/-- Every row is the edge of the admission that stands at its place. -/
theorem Complete.row_link (hrow : (rowsOf (root :: children))[place]? = some row) :
    ∃ link : Link, (walk.childAdmissions.map PendingChildAdmission.link)[place]? = some link ∧
      link.edge = row.1 ∧ link.applicationIndex = place + 1 := by
  have hedges := hcomplete.numbered.linked.edge
  rw [← List.length_cons (a := root), ← rowsOf_edges] at hedges
  have hedge : ((walk.childAdmissions.map PendingChildAdmission.link).map Link.edge)[place]? =
      some row.1 := by
    rw [hedges, List.getElem?_map, hrow]
    rfl
  obtain ⟨link, hlink, heq⟩ := Lineage.getElem?_map_some hedge
  refine ⟨link, hlink, heq, ?_⟩
  have hindices := congrArg (fun list : List Nat => list[place]?)
    hcomplete.numbered.linked.indices
  have hlt := (List.getElem?_eq_some_iff.mp hlink).1
  simp only [List.getElem?_map, hlink, Option.map_some] at hindices
  rw [List.getElem?_range' hlt] at hindices
  have := Option.some.inj hindices
  omega

theorem Complete.rows_length : (rowsOf (root :: children)).length = children.length := by
  have hedges := congrArg List.length hcomplete.numbered.linked.edge
  rw [← List.length_cons (a := root), ← rowsOf_edges] at hedges
  have hnamed := hcomplete.numbered.linked.named.length_eq
  simp only [List.length_map] at hedges hnamed
  omega

theorem Complete.nodes_below :
    ∀ (place : Nat) (node : Nat × Nat), (nodesOf (root :: children))[place]? = some node →
      node.1 ≤ place := by
  intro place node hnode
  obtain ⟨row, hrow, rfl⟩ := Lineage.getElem?_map_some hnode
  obtain ⟨link, hlink, hedge, hindex⟩ := hcomplete.row_link hrow
  have hparent := hcomplete.numbered.linked.parents link (List.mem_of_getElem? hlink)
  rw [← hedge]
  simp only [Link.edge]
  omega

/-- Every application of the tree was planned under an index of its own, at its depth. -/
theorem Tree.planned {content : String → Option Bytes} (hgraded : walk.Graded limits depths)
    (hcontent : ∀ kappa object, walk.closure.objects.lookup kappa = some object →
      content kappa = some object.bytes)
    (h : Tree upstream content root.manifest path manifest) :
    ∃ (index : Nat) (planned : Planned), (root :: children)[index]? = some planned ∧
      planned.manifest = manifest ∧
      (Lineage.lineages (nodesOf (root :: children)))[index]? = some path ∧
      depths[index]? = some path.length := by
  induction h with
  | root => exact ⟨0, root, rfl, rfl, Lineage.lineages_root _, hgraded.root⟩
  | @child path manifest position child bytes below _ edge object decodes ih =>
    obtain ⟨index, planned, hplanned, rfl, hpath, hdepth⟩ := ih
    obtain ⟨place, hrow⟩ := List.mem_iff_getElem?.mp (mem_rowsOf hplanned edge)
    have hnode : (nodesOf (root :: children))[place]? = some (index, position) := by
      rw [nodesOf, List.getElem?_map, hrow]
      rfl
    obtain ⟨link, hlink, hedge, hindex⟩ := hcomplete.row_link hrow
    obtain ⟨_, named, hnamed, hsame, kept, hkept, hdecode⟩ := hcomplete.named hlink
    have hparent : link.parentApplicationIndex = index :=
      congrArg ChildEdge.parentApplicationIndex hedge
    have hkappa : link.applicationKappa = child.1 := congrArg ChildEdge.applicationKappa hedge
    refine ⟨place + 1, named, hnamed, ?_,
      Lineage.lineages_node hcomplete.nodes_below hnode hpath, ?_⟩
    · have hbytes := hcontent _ _ hkept
      rw [← hsame, hkappa, object] at hbytes
      have hmanifest := (decodeChildManifest_ok.mp hdecode).1
      rw [← Option.some.inj hbytes, decodes] at hmanifest
      exact (Except.ok.inj hmanifest).symm
    · obtain ⟨admission, hadmission, rfl⟩ := Lineage.getElem?_map_some hlink
      obtain ⟨depth, habove, hbelow⟩ := hgraded.admitted _
        (List.mem_map_of_mem (List.mem_of_getElem? hadmission))
      simp only [PendingChildAdmission.link] at hparent hindex
      rw [hparent, hdepth] at habove
      rw [hindex] at hbelow
      rw [hbelow, ← Option.some.inj habove, List.length_append, List.length_singleton]

theorem Complete.listed : walk.listedLayers =
    (children.map fun child => child.manifest.layers.length).sum := by
  have hlength : walk.childAdmissions.length = children.length := by
    simpa using hcomplete.numbered.linked.named.length_eq
  refine congrArg List.sum (List.ext_getElem? fun place => ?_)
  rw [List.getElem?_map, List.getElem?_map]
  cases hchild : children[place]? with
  | none =>
    have hnone : walk.childAdmissions[place]? = none := by
      rw [List.getElem?_eq_none_iff] at hchild ⊢
      omega
    rw [hnone]
    rfl
  | some child =>
    obtain ⟨_, _, _, _, admission, hadmission, _, hlayers⟩ :=
      (hcomplete.settled (place + 1) child hchild).requires
    simp [hadmission, hlayers, plannedLayers_length]

/-- Planning that ends without blockers has met none of the limits. -/
theorem Complete.fits {content : String → Option Bytes} (hgraded : walk.Graded limits depths)
    (hcontent : walk.closure.Contained content) (hbounded : walk.closure.Bounded limits)
    (hwithin : walk.Within limits turns root.manifest.layers.length total)
    (htotal : total ≤ limits.maxLayers) (hroom : 1 ≤ limits.maxApplications) :
    Tree.Fits upstream content root.manifest limits := by
  have hlookup : ∀ kappa object, walk.closure.objects.lookup kappa = some object →
      content kappa = some object.bytes :=
    fun kappa object hobject => hcontent _ (Lookup.mem_of_lookup hobject)
  have hnames : ∀ kappa, Tree.Names upstream content root.manifest kappa →
      kappa ∈ walk.closure.objects.map Prod.fst := by
    rintro kappa ⟨path, manifest, htree, hkappa⟩
    obtain ⟨index, planned, hplanned, rfl, _⟩ := htree.planned hcomplete hgraded hlookup
    obtain ⟨object, hobject⟩ := hcomplete.closed hplanned hkappa
    exact List.mem_map.mpr ⟨_, Lookup.mem_of_lookup hobject, rfl⟩
  have hlineages : (Lineage.lineages (nodesOf (root :: children))).length =
      (root :: children).length := by
    rw [Lineage.lineages_length, nodesOf, List.length_map, hcomplete.rows_length,
      List.length_cons]
  refine ⟨fun path manifest htree => ?_, fun paths hnodup hpaths => ?_,
    fun applications hnodup htrees => ?_, fun kappas hnodup hkappas => ?_,
    fun kappas hnodup hkappas => ?_⟩
  · obtain ⟨_, _, _, _, _, hdepth⟩ := htree.planned hcomplete hgraded hlookup
    exact hgraded.bounded _ (List.mem_of_getElem? hdepth)
  · have hsubset : paths ⊆ Lineage.lineages (nodesOf (root :: children)) := by
      intro path hpath
      obtain ⟨manifest, htree⟩ := hpaths path hpath
      obtain ⟨_, _, _, _, hat, _⟩ := htree.planned hcomplete hgraded hlookup
      exact List.mem_of_getElem? hat
    have hlength := (hnodup.subperm hsubset).length_le
    have happlications := hwithin.applications
    have hcount := hcomplete.numbered.count
    rw [hlineages, List.length_cons] at hlength
    omega
  · let planned := (Lineage.lineages (nodesOf (root :: children))).zip
      ((root :: children).map Planned.manifest)
    have hsubset : applications ⊆ planned := by
      rintro ⟨path, manifest⟩ happlication
      obtain ⟨index, found, hfound, hmanifest, hat, _⟩ :=
        (htrees _ happlication).planned hcomplete hgraded hlookup
      have hsecond : ((root :: children).map Planned.manifest)[index]? = some manifest := by
        rw [List.getElem?_map, hfound]
        exact congrArg some hmanifest
      exact List.mem_of_getElem? (List.getElem?_zip_eq_some.mpr ⟨hat, hsecond⟩)
    have hsum := Lineage.sum_le_of_subset hnodup.of_map hsubset
      fun application => application.2.layers.length
    have hplanned : planned.map (fun application => application.2.layers.length) =
        (root :: children).map fun application => application.manifest.layers.length := by
      have hsecond : planned.map Prod.snd = (root :: children).map Planned.manifest :=
        List.map_snd_zip (by simp [hlineages])
      have := congrArg (List.map fun manifest : AppManifest => manifest.layers.length) hsecond
      simpa [Function.comp_def] using this
    have hlayers := hwithin.layers
    rw [hplanned, List.map_cons, List.sum_cons] at hsum
    rw [hcomplete.listed] at hlayers
    omega
  · have hlength := (hnodup.subperm fun kappa hkappa => hnames kappa (hkappas kappa hkappa)).length_le
    rw [List.length_map] at hlength
    exact hlength.trans hbounded.objects_le
  · have hsum := Lineage.sum_le_of_subset hnodup
      (fun kappa hkappa => hnames kappa (hkappas kappa hkappa))
      fun kappa => ((content kappa).map List.length).getD 0
    have hsizes : (walk.closure.objects.map Prod.fst).map
        (fun kappa => ((content kappa).map List.length).getD 0) =
        walk.closure.objects.map fun entry => entry.2.bytes.length := by
      rw [List.map_map]
      refine List.map_congr_left fun entry hentry => ?_
      simp [hcontent entry hentry]
    rw [hsizes, ← hbounded.bytes] at hsum
    exact hsum.trans hbounded.ceiling

end Complete

namespace ApplicationPlanReport

/-- The layers a report lists, of the root and of every admitted child. -/
def listedLayers (report : ApplicationPlanReport) : Nat :=
  report.layers.length + (report.childAdmissions.map fun child => child.layers.length).sum

/-- A report that keeps to the limits it was planned under. -/
structure Limited (limits : PlanLimits) (report : ApplicationPlanReport) : Prop where
  distinct : (report.objects.map Prod.fst).Nodup
  objects : report.objects.length ≤ limits.maxObjects
  bytes : report.resolvedBytes = (report.objects.map fun entry => entry.2.bytes.length).sum
  resolved : report.resolvedBytes ≤ limits.maxResolvedBytes
  applications : report.applicationCount ≤ max 1 limits.maxApplications
  depth : report.maxDepth ≤ limits.maxDepth
  layers : report.listedLayers ≤ limits.maxLayers ∨ limits.maxApplications = 0 ∨
    ∃ blocker ∈ report.blockers, ∃ maximum actual edge,
      blocker = .limitExceeded "layers" maximum actual edge

end ApplicationPlanReport

section Explain
variable {upstream : Upstream} {resolver : Resolver} {limits : PlanLimits} {source : PlanSource}

theorem startWalk_bounded (source : PlanSource) :
    (startWalk source limits).closure.Bounded limits := by
  have hstart := ClosureResolver.Bounded.start source.embedded limits
  unfold startWalk
  split
  · exact hstart.frame rfl rfl rfl rfl
  · exact hstart

theorem startWalk_questioned (source : PlanSource) :
    (startWalk source limits).closure.Questioned source.embedded := by
  have hstart : ClosureResolver.Questioned source.embedded { embedded := source.embedded, limits } :=
    ⟨rfl, .nil, by simp, by simp⟩
  unfold startWalk
  split
  · exact hstart.frame rfl rfl rfl rfl id
  · exact hstart

theorem startWalk_contained (source : PlanSource) (content : String → Option Bytes) :
    (startWalk source limits).closure.Contained content := by
  unfold startWalk
  split <;> simp [ClosureResolver.Contained, Walk.block, Walk.withClosure, ClosureResolver.block]

theorem startWalk_within (source : PlanSource) :
    (startWalk source limits).Within limits 0 0 0 := by
  unfold startWalk
  split
  · exact ⟨le_max_left _ _, Nat.zero_le _, by simp [Walk.block, Walk.withClosure], rfl, le_refl _⟩
  · exact ⟨le_max_left _ _, Nat.zero_le _, by simp, rfl, le_refl _⟩

theorem startWalk_graded (source : PlanSource) :
    (startWalk source limits).Graded limits [0] := by
  unfold startWalk
  split
  · exact ⟨rfl, rfl, by simp, by simp [Walk.edges, Walk.block, Walk.withClosure], by simp⟩
  · exact ⟨rfl, rfl, by simp, by simp [Walk.edges], by simp⟩

theorem startWalk_fuel (source : PlanSource) :
    (startWalk source limits).pending = [] ∨ max 1 limits.maxApplications ≤
      0 + limits.maxApplications := by
  unfold startWalk
  split
  · exact .inl rfl
  · rename_i hroom
    exact .inr (by omega)

/-- What a loop that ran to its end has kept: the limits, with the layers of the root
counted. -/
theorem planLoop_ended
    (h : planLoop upstream resolver limits limits.maxApplications (startWalk source limits) =
      .ok walk) (hroom : 1 ≤ limits.maxApplications) :
    walk.Layered limits ∧
      ∃ turns total, walk.Within limits turns source.root.layers.length total := by
  have hstart : startWalk source limits = _ := if_neg (not_lt.mpr hroom)
  obtain ⟨fuel, hfuel⟩ : ∃ fuel, limits.maxApplications = fuel + 1 :=
    ⟨limits.maxApplications - 1, by omega⟩
  have hwithin : (startWalk source limits).Within limits 0 0 0 := startWalk_within source
  rw [hstart] at h hwithin
  rw [hfuel] at h
  unfold planLoop at h
  obtain ⟨⟨broke, turned⟩, hturn, h⟩ := bind_ok.mp h
  have hentered := @Walk.Within.enterRoot limits _ _ _ _ (hwithin.pop rfl) ⟨0, none,
    source.identity.applicationKappa, source.root, 0, [source.identity.applicationKappa]⟩ rfl
  have hturned := planApplication_within hentered hturn
  have hlayered := planApplication_layered hentered hturn
  simp only [Nat.zero_add] at hturned
  dsimp only at h
  split at h
  · cases h
    exact ⟨hlayered, _, _, hturned⟩
  · exact (planLoop_loop fuel hturned (.inr (by omega))).2 walk h hlayered

theorem planLoop_room
    (h : planLoop upstream resolver limits limits.maxApplications (startWalk source limits) =
      .ok walk) (hclear : walk.closure.blockers = []) : 1 ≤ limits.maxApplications := by
  by_contra hnone
  have hzero : limits.maxApplications = 0 := by omega
  unfold startWalk at h
  rw [hzero, if_pos Nat.zero_lt_one] at h
  cases h
  simp [Walk.block, Walk.withClosure, ClosureResolver.block] at hclear

theorem reportOf_limited (hroot : source.root = source.manifest)
    (h : planLoop upstream resolver limits limits.maxApplications (startWalk source limits) =
      .ok walk) : (reportOf source limits walk).Limited limits := by
  have hbounded := planLoop_keeps (ClosureResolver.bounded_keeps limits) (fun _ => trivial) _
    (startWalk_bounded source) h
  obtain ⟨-, turns, total, hwithin⟩ := (planLoop_loop _ (startWalk_within source)
    (startWalk_fuel source)).2 walk h (.inl (by unfold startWalk; split <;> exact Nat.zero_le _))
  refine ⟨hbounded.objects, hbounded.objects_le, hbounded.bytes, hbounded.ceiling,
    hwithin.applications, hwithin.depth, ?_⟩
  rcases Nat.eq_zero_or_pos limits.maxApplications with hnone | hroom
  · exact .inr (.inl hnone)
  obtain ⟨hlayered, turns, total, hcounted⟩ := planLoop_ended h hroom
  rcases hlayered with hfits | ⟨blocker, hblocker, hlayers⟩
  · refine .inl ?_
    have hlayers := hcounted.layers
    rw [hcounted.counted] at hfits
    rw [hroot] at hlayers
    have hlisted : (reportOf source limits walk).listedLayers =
        source.manifest.layers.length + walk.listedLayers := by
      simp [ApplicationPlanReport.listedLayers, reportOf, plannedLayers_length, Walk.listedLayers,
        Function.comp_def]
    rw [hlisted]
    omega
  · exact .inr (.inr ⟨blocker, List.mem_append_left _ hblocker, hlayers⟩)

/-- Planning terminates within as many turns as the limit permits applications, asks the
store only what it has not asked and the archive does not embed, and keeps to its limits;
a closure that exceeds one of them leaves a blocker. -/
theorem explain_limited (hcanonical : upstream.Canonical) (archive : Bytes) (limits : PlanLimits)
    (resolver : Resolver) :
    (∃ error, readSource upstream archive = .error error ∧
      explainApplication upstream archive limits resolver = .error error) ∨
    ∃ source, readSource upstream archive = .ok source ∧
      (∃ turns ≤ limits.maxApplications, ∃ outcome,
        Loop upstream resolver limits (startWalk source limits) turns outcome ∧
        explainApplication upstream archive limits resolver =
          outcome.map (reportOf source limits)) ∧
      (∀ other : Resolver, (∀ history kappa, ClosureResolver.Fresh source.embedded history kappa →
          other history kappa = resolver history kappa) →
        explainApplication upstream archive limits other =
          explainApplication upstream archive limits resolver) ∧
      ∀ report, explainApplication upstream archive limits resolver = .ok report →
        report.Limited limits ∧
        ∀ content, ClosureResolver.Supplies source.embedded resolver content →
          ¬ Tree.Fits upstream content source.manifest limits → report.blockers ≠ [] := by
  cases hsource : readSource upstream archive with
  | error error =>
    refine .inl ⟨error, rfl, ?_⟩
    unfold explainApplication
    rw [hsource, error_bind]
  | ok source =>
    have hroot := (readSource_read hsource).root_eq hcanonical
    have hexplain : ∀ resolver, explainApplication upstream archive limits resolver =
        (planLoop upstream resolver limits limits.maxApplications (startWalk source limits)).map
          (reportOf source limits) := by
      intro resolver
      unfold explainApplication
      rw [hsource, ok_bind]
      cases planLoop upstream resolver limits limits.maxApplications (startWalk source limits) <;>
        rfl
    refine .inr ⟨source, rfl, ?_, fun other hagree => ?_, fun report hreport => ?_⟩
    · obtain ⟨turns, hturns, hloop⟩ : ∃ turns ≤ limits.maxApplications,
          Loop upstream resolver limits (startWalk source limits) turns
            (planLoop upstream resolver limits limits.maxApplications (startWalk source limits)) :=
        (planLoop_loop _ (startWalk_within source) (startWalk_fuel source)).1
      exact ⟨turns, hturns, _, hloop, hexplain resolver⟩
    · rw [hexplain, hexplain]
      have hsame : Coupled False (fun _ => True) Walk.closure
          (planLoop upstream other limits limits.maxApplications (startWalk source limits))
          (planLoop upstream resolver limits limits.maxApplications (startWalk source limits)) :=
        planLoop_coupled (ClosureResolver.fresh_couples source.embedded hagree)
          limits.maxApplications (startWalk_questioned source)
      rcases hsame with hsame | ⟨hfalse, _⟩
      · rw [hsame]
      · exact hfalse.elim
    · rw [hexplain] at hreport
      cases hwalk : planLoop upstream resolver limits limits.maxApplications
          (startWalk source limits) with
      | error error =>
        rw [hwalk] at hreport
        cases hreport
      | ok walk =>
        rw [hwalk] at hreport
        cases hreport
        refine ⟨reportOf_limited hroot hwalk, fun content hsupplies hexceeds hclear => ?_⟩
        have hwalkClear := (List.append_eq_nil_iff.mp hclear).1
        obtain ⟨children, hcomplete⟩ := planLoop_clear hwalk hwalkClear
        have hroom := planLoop_room hwalk hwalkClear
        obtain ⟨depths, hgraded⟩ := planLoop_graded _ (startWalk_graded source) hwalk
        have hcontained := planLoop_keeps (ClosureResolver.contained_keeps hsupplies)
          (fun _ => trivial) _ ⟨startWalk_questioned source, startWalk_contained source content⟩ hwalk
        have hbounded := planLoop_keeps (ClosureResolver.bounded_keeps limits) (fun _ => trivial) _
          (startWalk_bounded source) hwalk
        obtain ⟨hlayered, turns, total, hwithin⟩ := planLoop_ended hwalk hroom
        have htotal : total ≤ limits.maxLayers := by
          rcases hlayered with hfits | ⟨blocker, hblocker, _⟩
          · rwa [hwithin.counted] at hfits
          · simp [hwalkClear] at hblocker
        apply hexceeds
        rw [← hroot]
        exact hcomplete.fits hgraded hcontained.2 hbounded hwithin htotal hroom

end Explain

theorem explain_limited_sample : ∃ source report,
    readSource composedCatalog.upstream [72, 79, 76, 79, 4, 0] = .ok source ∧
      explainApplication composedCatalog.upstream [72, 79, 76, 79, 4, 0] {} spellingStore =
        .ok report ∧ report.Limited {} ∧ report.listedLayers = 2 ∧
      ∀ content, ClosureResolver.Supplies source.embedded spellingStore content →
        ¬ Tree.Fits composedCatalog.upstream content source.manifest {} →
        report.blockers ≠ [] := by
  have hrun : (explainApplication composedCatalog.upstream [72, 79, 76, 79, 4, 0] {}
      spellingStore).toOption.map (·.listedLayers) = some 2 := by decide
  have hlimited := explain_limited (composedCatalog.canonical (by decide)) [72, 79, 76, 79, 4, 0]
    {} spellingStore
  cases hreport : explainApplication composedCatalog.upstream [72, 79, 76, 79, 4, 0] {}
      spellingStore with
  | error error =>
    rw [hreport] at hrun
    cases hrun
  | ok report =>
    rw [hreport] at hrun
    rcases hlimited with ⟨error, _, hfails⟩ | ⟨source, hsource, _, _, hholds⟩
    · rw [hreport] at hfails
      cases hfails
    · obtain ⟨hreportLimited, hexceeds⟩ := hholds report hreport
      exact ⟨source, report, hsource, rfl, hreportLimited, Option.some.inj hrun, hexceeds⟩

/-- Without room for the root itself nothing is entered, and its layers are listed without
having been counted. -/
theorem layers_unbounded : ∃ report,
    explainApplication composedCatalog.upstream [72, 79, 76, 79, 4, 0]
        { maxApplications := 0, maxLayers := 0 } spellingStore = .ok report ∧
      report.listedLayers = 1 ∧ ∀ blocker ∈ report.blockers, ∀ maximum actual edge,
        blocker ≠ .limitExceeded "layers" maximum actual edge := by
  have hrun : (explainApplication composedCatalog.upstream [72, 79, 76, 79, 4, 0]
      { maxApplications := 0, maxLayers := 0 } spellingStore).toOption.map
        (fun report => (report.listedLayers, report.blockers)) =
      some (1, [.limitExceeded "applications" 0 1 none]) := by decide
  cases hreport : explainApplication composedCatalog.upstream [72, 79, 76, 79, 4, 0]
      { maxApplications := 0, maxLayers := 0 } spellingStore with
  | error error =>
    rw [hreport] at hrun
    cases hrun
  | ok report =>
    rw [hreport] at hrun
    obtain ⟨hlayers, hblockers⟩ := Prod.mk.inj (Option.some.inj hrun)
    refine ⟨report, rfl, hlayers, fun blocker hblocker maximum actual edge => ?_⟩
    rw [hblockers, List.mem_singleton] at hblocker
    simp [hblocker]

end HologramLive.Plan
