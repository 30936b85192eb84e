import HologramLive.Lib.Lineage
import HologramLive.Lib.Lookup
import HologramLive.Plan.Coupling

namespace HologramLive.Plan
open Lib Lib.Result

namespace ClosureResolver
variable {upstream : Upstream} {resolver : Resolver} {limits : PlanLimits}
  {embedded : List (String × Bytes)}

/-- The limits a resolver keeps to while it grows its tables. -/
structure Bounded (limits : PlanLimits) (closure : ClosureResolver) : Prop where
  given : closure.limits = limits
  objects : (closure.objects.map Prod.fst).Nodup
  referenced : ∀ kappa ∈ closure.objects.map Prod.fst, kappa ∈ closure.referenced
  counted : closure.referenced.length ≤ limits.maxObjects
  bytes : closure.resolvedBytes = (closure.objects.map fun entry => entry.2.bytes.length).sum
  ceiling : closure.resolvedBytes ≤ limits.maxResolvedBytes

theorem Bounded.start (embedded : List (String × Bytes)) (limits : PlanLimits) :
    Bounded limits { embedded, limits } where
  given := rfl
  objects := .nil
  referenced := by simp
  counted := Nat.zero_le _
  bytes := rfl
  ceiling := Nat.zero_le _

/-- Only the tables and the counters of a resolver are bounded. -/
theorem Bounded.frame {closure after : ClosureResolver} (h : closure.Bounded limits)
    (hlimits : after.limits = closure.limits) (hobjects : after.objects = closure.objects)
    (hreferenced : after.referenced = closure.referenced)
    (hbytes : after.resolvedBytes = closure.resolvedBytes) : after.Bounded limits where
  given := hlimits.trans h.given
  objects := hobjects ▸ h.objects
  referenced := hobjects ▸ hreferenced ▸ h.referenced
  counted := hreferenced ▸ h.counted
  bytes := hobjects ▸ hbytes ▸ h.bytes
  ceiling := hbytes ▸ h.ceiling

theorem Bounded.refer {closure counted : ClosureResolver} (h : closure.Bounded limits)
    (hrefer : closure.refer kappa = some counted) :
    counted.Bounded limits ∧ kappa ∈ counted.referenced ∧ counted.objects = closure.objects := by
  unfold ClosureResolver.refer at hrefer
  split at hrefer
  · cases hrefer
    exact ⟨h, ‹_›, rfl⟩
  split at hrefer
  · cases hrefer
  · rename_i hfits
    cases hrefer
    refine ⟨⟨h.given, h.objects, fun other hother => ?_, ?_, h.bytes, h.ceiling⟩, by simp, rfl⟩
    · exact List.mem_append_left _ (h.referenced other hother)
    · rw [h.given] at hfits
      simpa using hfits

theorem Bounded.keep {closure : ClosureResolver} (h : closure.Bounded limits)
    (habsent : closure.objects.lookup kappa = none) (hreferenced : kappa ∈ closure.referenced)
    (edge : ManifestEdge) (bytes : Option Bytes) (source : ResolutionSource) :
    (closure.keep upstream kappa edge bytes source).2.Bounded limits := by
  rcases keep_cases upstream closure kappa edge bytes source with
    ⟨reason, blocker, hkeep⟩ | ⟨blocker, hkeep⟩ | ⟨content, rfl, hfits, hkeep⟩
  · rw [hkeep]
    exact h.frame rfl rfl rfl rfl
  · rw [hkeep]
    exact h.frame rfl rfl rfl rfl
  · rw [hkeep]
    refine ⟨h.given, ?_, ?_, h.counted, ?_, ?_⟩
    · simpa using ⟨fun other hother => Lookup.not_mem_of_lookup habsent
        (List.mem_map.mpr ⟨(kappa, other), hother, rfl⟩), h.objects⟩
    · simpa using ⟨hreferenced, fun other object hmem =>
        h.referenced other (List.mem_map.mpr ⟨(other, object), hmem, rfl⟩)⟩
    · simp only [List.map_cons, List.sum_cons, h.bytes]
      omega
    · rwa [h.given] at hfits

theorem bounded_keeps (limits : PlanLimits) :
    Keeps upstream resolver (fun _ => True) (Bounded limits) where
  resolve := by
    intro closure kappa edge outcome after _ h hresolve
    have hended : ∀ ended, Resolution upstream resolver closure kappa edge ended →
        ended.2.Bounded limits := by
      intro ended hcases
      cases hcases with
      | known => exact h
      | failed => exact h.frame rfl rfl rfl rfl
      | halted => exact h
      | refused => exact h.frame rfl rfl rfl rfl
      | embedded absent referred _ =>
        obtain ⟨hcounted, hmem, hobjects⟩ := h.refer referred
        exact hcounted.keep (hobjects ▸ absent) hmem edge _ _
      | @asked counted _ absent _ _ referred _ _ =>
        obtain ⟨hcounted, hmem, hobjects⟩ := h.refer referred
        have hasked : Bounded limits { counted with asked := closure.asked ++ [kappa] } :=
          hcounted.frame rfl rfl rfl rfl
        exact hasked.keep (hobjects ▸ absent) hmem edge _ _
    exact hended _ (resolve_cases hresolve)
  block := fun h _ => h.frame rfl rfl rfl rfl

theorem Bounded.objects_le {closure : ClosureResolver} (h : closure.Bounded limits) :
    closure.objects.length ≤ limits.maxObjects := by
  have hlength := (h.objects.subperm h.referenced).length_le
  rw [List.length_map] at hlength
  exact hlength.trans h.counted

/-- Objects come from what the archive and the resolver hold. -/
def Contained (content : String → Option Bytes) (closure : ClosureResolver) : Prop :=
  ∀ entry ∈ closure.objects, content entry.1 = some entry.2.bytes

/-- What an archive and a resolver hold between them. -/
structure Supplies (embedded : List (String × Bytes)) (resolver : Resolver)
    (content : String → Option Bytes) : Prop where
  inside : ∀ kappa bytes, embedded.lookup kappa = some bytes → content kappa = some bytes
  outside : ∀ history kappa bytes, embedded.lookup kappa = none →
    resolver history kappa = .ok (some bytes) → content kappa = some bytes

theorem Contained.keep {content : String → Option Bytes} {closure : ClosureResolver}
    (h : closure.Contained content) {bytes : Option Bytes}
    (hbytes : ∀ given, bytes = some given → content kappa = some given) (edge : ManifestEdge)
    (source : ResolutionSource) :
    (closure.keep upstream kappa edge bytes source).2.Contained content := by
  rcases keep_cases upstream closure kappa edge bytes source with
    ⟨reason, blocker, hkeep⟩ | ⟨blocker, hkeep⟩ | ⟨given, rfl, _, hkeep⟩
  · rw [hkeep]
    exact h
  · rw [hkeep]
    exact h
  · rw [hkeep]
    exact List.forall_mem_cons.mpr ⟨hbytes given rfl, h⟩

/-- A question put for the first time, about a kappa the archive does not embed. -/
def Fresh (embedded : List (String × Bytes)) (history : List String) (kappa : String) : Prop :=
  (history ++ [kappa]).Nodup ∧ ∀ asked ∈ history ++ [kappa], embedded.lookup asked = none

/-- Every question was fresh, and its answer is not forgotten. -/
structure Questioned (embedded : List (String × Bytes)) (closure : ClosureResolver) : Prop where
  given : closure.embedded = embedded
  nodup : closure.asked.Nodup
  outside : ∀ kappa ∈ closure.asked, embedded.lookup kappa = none
  answered : ∀ kappa ∈ closure.asked, closure.objects.lookup kappa = none →
    closure.failures.lookup kappa = none → closure.halted = true

theorem Questioned.fresh {closure : ClosureResolver} (h : closure.Questioned embedded)
    (habsent : closure.objects.lookup kappa = none)
    (huntried : closure.failures.lookup kappa = none) (hrunning : closure.halted = false)
    (houtside : closure.embedded.lookup kappa = none) : Fresh embedded closure.asked kappa := by
  have hnew : kappa ∉ closure.asked := by
    intro hasked
    rw [h.answered kappa hasked habsent huntried] at hrunning
    cases hrunning
  refine ⟨?_, ?_⟩
  · rw [List.nodup_append_comm, List.singleton_append]
    exact List.nodup_cons.mpr ⟨hnew, h.nodup⟩
  · intro asked hasked
    rcases List.mem_append.mp hasked with hasked | hasked
    · exact h.outside asked hasked
    · rw [List.mem_singleton.mp hasked, ← h.given]
      exact houtside

theorem Questioned.frame {closure after : ClosureResolver} (h : closure.Questioned embedded)
    (hgiven : after.embedded = closure.embedded) (hasked : after.asked = closure.asked)
    (hobjects : after.objects = closure.objects) (hfailures : after.failures = closure.failures)
    (hhalted : closure.halted = true → after.halted = true) : after.Questioned embedded where
  given := hgiven.trans h.given
  nodup := hasked ▸ h.nodup
  outside := hasked ▸ h.outside
  answered := by
    rw [hasked, hobjects, hfailures]
    exact fun kappa hkappa habsent huntried => hhalted (h.answered kappa hkappa habsent huntried)

/-- Keeping the answer to the last question is what makes it known. -/
theorem Questioned.keep {closure : ClosureResolver} (hgiven : closure.embedded = embedded)
    (hnodup : closure.asked.Nodup) (houtside : ∀ asked ∈ closure.asked, embedded.lookup asked = none)
    (hanswered : ∀ asked ∈ closure.asked, asked ≠ kappa → closure.objects.lookup asked = none →
      closure.failures.lookup asked = none → closure.halted = true)
    (edge : ManifestEdge) (bytes : Option Bytes) (source : ResolutionSource) :
    (closure.keep upstream kappa edge bytes source).2.Questioned embedded := by
  rcases keep_cases upstream closure kappa edge bytes source with
    ⟨reason, blocker, hkeep⟩ | ⟨blocker, hkeep⟩ | ⟨content, rfl, _, hkeep⟩
  · rw [hkeep]
    refine ⟨hgiven, hnodup, houtside, fun asked hasked habsent huntried => ?_⟩
    have hother : asked ≠ kappa := by
      rintro rfl
      simp [block, ClosureResolver.fail] at huntried
    refine hanswered asked hasked hother habsent ?_
    rwa [← Lookup.lookup_cons_ne hother reason]
  · rw [hkeep]
    exact ⟨hgiven, hnodup, houtside, fun _ _ _ _ => rfl⟩
  · rw [hkeep]
    refine ⟨hgiven, hnodup, houtside, fun asked hasked habsent huntried => ?_⟩
    have hother : asked ≠ kappa := by
      rintro rfl
      simp at habsent
    refine hanswered asked hasked hother ?_ huntried
    rwa [← Lookup.lookup_cons_ne hother]

theorem refer_same {closure counted : ClosureResolver} (h : closure.refer kappa = some counted) :
    counted.embedded = closure.embedded ∧ counted.asked = closure.asked ∧
      counted.objects = closure.objects ∧ counted.failures = closure.failures ∧
      counted.halted = closure.halted := by
  obtain ⟨referenced, count, rfl⟩ := refer_eq h
  exact ⟨rfl, rfl, rfl, rfl, rfl⟩

theorem questioned_keeps (embedded : List (String × Bytes)) :
    Keeps upstream resolver (fun _ => True) (Questioned embedded) where
  resolve := by
    intro closure kappa edge outcome after _ h hresolve
    have hended : ∀ ended, Resolution upstream resolver closure kappa edge ended →
        ended.2.Questioned embedded := by
      intro ended hcases
      cases hcases with
      | known => exact h
      | failed => exact h.frame rfl rfl rfl rfl id
      | halted => exact h
      | refused => exact h.frame rfl rfl rfl rfl fun _ => rfl
      | embedded absent referred _ =>
        obtain ⟨hembedded, hasked, hobjects, hfailures, hhalted⟩ := refer_same referred
        have hcounted := h.frame hembedded hasked hobjects hfailures (hhalted ▸ id)
        exact .keep hcounted.given hcounted.nodup hcounted.outside
          (fun asked hasked _ => hcounted.answered asked hasked) edge _ _
      | @asked counted _ absent untried running referred outside _ =>
        obtain ⟨hembedded, _, hobjects, hfailures, hhalted⟩ := refer_same referred
        obtain ⟨hnodup, houtside⟩ := h.fresh absent untried running outside
        have hanswered : ∀ asked ∈ closure.asked ++ [kappa], asked ≠ kappa →
            counted.objects.lookup asked = none → counted.failures.lookup asked = none →
            counted.halted = true := by
          intro asked hasked hother
          have hbefore : asked ∈ closure.asked := by simpa [hother] using hasked
          rw [hobjects, hfailures, hhalted]
          exact h.answered asked hbefore
        exact @Questioned.keep upstream embedded kappa
          { counted with asked := closure.asked ++ [kappa] } (hembedded.trans h.given) hnodup
          houtside hanswered edge _ _
    exact hended _ (resolve_cases hresolve)
  block := fun h _ => h.frame rfl rfl rfl rfl id

theorem contained_keeps {content : String → Option Bytes}
    (hsupplies : Supplies embedded resolver content) :
    Keeps upstream resolver (fun _ => True) fun closure =>
      closure.Questioned embedded ∧ closure.Contained content where
  resolve := by
    rintro closure kappa edge outcome after hnamed ⟨hquestioned, hcontained⟩ hresolve
    have hended : ∀ ended, Resolution upstream resolver closure kappa edge ended →
        ended.2.Contained content := by
      intro ended hcases
      cases hcases with
      | known => exact hcontained
      | failed => exact hcontained
      | halted => exact hcontained
      | refused => exact hcontained
      | @embedded counted bytes _ referred found =>
        have hcounted : counted.Contained content := by
          rw [Contained, (refer_same referred).2.2.1]
          exact hcontained
        apply hcounted.keep
        rintro given ⟨⟩
        exact hsupplies.inside kappa bytes (hquestioned.given ▸ found)
      | @asked counted bytes _ _ _ referred outside answer =>
        have hcounted : Contained content { counted with asked := closure.asked ++ [kappa] } := by
          rw [Contained, (refer_same referred).2.2.1]
          exact hcontained
        apply hcounted.keep
        rintro given rfl
        exact hsupplies.outside _ _ _ (hquestioned.given ▸ outside) answer
    exact ⟨(questioned_keeps embedded).resolve hnamed hquestioned hresolve,
      hended _ (resolve_cases hresolve)⟩
  block := fun ⟨hquestioned, hcontained⟩ _ =>
    ⟨hquestioned.frame rfl rfl rfl rfl id, hcontained⟩

/-- Resolvers that answer alike whenever a question is fresh are resolved through alike. -/
theorem resolve_fresh {closure : ClosureResolver} {other : Resolver}
    (h : closure.Questioned embedded)
    (hagree : ∀ history kappa, Fresh embedded history kappa →
      other history kappa = resolver history kappa) :
    closure.resolve upstream other kappa edge = closure.resolve upstream resolver kappa edge := by
  unfold resolve
  split
  · rfl
  rename_i habsent
  split
  · rfl
  rename_i huntried
  split
  · rfl
  rename_i hrunning
  split
  · rfl
  rename_i counted hrefer
  obtain ⟨hembedded, hasked, _⟩ := refer_same hrefer
  have hfetch : counted.fetch other kappa = counted.fetch resolver kappa := by
    unfold fetch
    rw [hembedded, hasked]
    split
    · rfl
    · rename_i houtside
      rw [hagree _ _ (h.fresh habsent huntried (by simpa using hrunning) houtside)]
  rw [hfetch]

theorem fresh_couples {other : Resolver} (embedded : List (String × Bytes))
    (hagree : ∀ history kappa, Fresh embedded history kappa →
      other history kappa = resolver history kappa) :
    Couples upstream other resolver False (Questioned embedded) fun _ => True where
  holds := questioned_keeps embedded
  shows := ⟨fun _ _ _ => trivial, fun _ _ => trivial⟩
  resolve := fun h => .inl (resolve_fresh h hagree)

end ClosureResolver

/-- The layers listed for the applications admitted so far. -/
def Walk.listedLayers (walk : Walk) : Nat :=
  (walk.childAdmissions.map fun admission => admission.layers.length).sum

/-- Who composes whom, by application index. -/
def Walk.edges (walk : Walk) : List (Nat × Nat) :=
  walk.childAdmissions.map fun admission =>
    (admission.parentApplicationIndex, admission.applicationIndex)

/-- What leaves the queue and its counters alone. -/
structure Walk.Follows (walk walk' : Walk) : Prop where
  pending : walk'.pending = walk.pending
  applicationCount : walk'.applicationCount = walk.applicationCount
  maxDepth : walk'.maxDepth = walk.maxDepth
  totalLayers : walk'.totalLayers = walk.totalLayers
  listed : walk'.listedLayers = walk.listedLayers
  edges : walk'.edges = walk.edges

/-- The bounds of the loop after a number of turns: how many layers were counted, and how
many of them the root has. -/
structure Walk.Within (limits : PlanLimits) (turns rootLayers total : Nat) (walk : Walk) :
    Prop where
  applications : walk.applicationCount ≤ max 1 limits.maxApplications
  depth : walk.maxDepth ≤ limits.maxDepth
  queue : turns + walk.pending.length ≤ walk.applicationCount
  counted : walk.totalLayers = total
  layers : rootLayers + walk.listedLayers ≤ total

section Walk
variable {upstream : Upstream} {resolver : Resolver} {limits : PlanLimits}

theorem Walk.Follows.refl (walk : Walk) : walk.Follows walk := ⟨rfl, rfl, rfl, rfl, rfl, rfl⟩

theorem Walk.Follows.trans {first second third : Walk} (h : first.Follows second)
    (h' : second.Follows third) : first.Follows third :=
  ⟨h'.pending.trans h.pending, h'.applicationCount.trans h.applicationCount,
    h'.maxDepth.trans h.maxDepth, h'.totalLayers.trans h.totalLayers, h'.listed.trans h.listed,
    h'.edges.trans h.edges⟩

theorem Walk.Within.follow {walk walk' : Walk} (h : walk.Within limits turns rootLayers total)
    (hfollows : walk.Follows walk') : walk'.Within limits turns rootLayers total where
  applications := hfollows.applicationCount ▸ h.applications
  depth := hfollows.maxDepth ▸ h.depth
  queue := by
    rw [hfollows.pending, hfollows.applicationCount]
    exact h.queue
  counted := hfollows.totalLayers.trans h.counted
  layers := by
    rw [hfollows.listed]
    exact h.layers

theorem Walk.resolve_follows {walk : Walk}
    (h : walk.resolve upstream resolver kappa edge = .ok (outcome, walk')) : walk.Follows walk' := by
  obtain ⟨closure, _, rfl⟩ := Walk.resolve_ok.mp h
  exact ⟨rfl, rfl, rfl, rfl, rfl, rfl⟩

theorem Walk.require_follows (walk : Walk) (application : PendingApplication)
    (capabilities : RequestedCapabilities) : walk.Follows (walk.require application capabilities) := by
  unfold Walk.require
  split
  · exact ⟨rfl, rfl, rfl, rfl, rfl, rfl⟩
  · generalize hupdate : (fun admission : PendingChildAdmission =>
      { admission with requestedCapabilities := some capabilities }) = update
    have hlisted : (walk.updateAdmission application.admissionIndex update).listedLayers =
        walk.listedLayers :=
      congrArg List.sum (walk.updateAdmission_map _ fun _ => hupdate ▸ rfl)
    have hedges : (walk.updateAdmission application.admissionIndex update).edges = walk.edges :=
      walk.updateAdmission_map _ fun _ => hupdate ▸ rfl
    cases hindex : application.admissionIndex with
    | none => exact .refl _
    | some index =>
      rw [hindex] at hlisted hedges
      exact ⟨rfl, rfl, rfl, rfl, hlisted, hedges⟩

theorem planRequires_follows {walk : Walk}
    (h : planRequires upstream resolver application walk = .ok walk') : walk.Follows walk' := by
  obtain ⟨⟨outcome, resolved⟩, hresolve, h⟩ := bind_ok.mp h
  have hresolved := Walk.resolve_follows hresolve
  dsimp only at h
  split at h
  · cases h
    exact hresolved
  split at h
  · cases h
    exact hresolved.trans (Walk.require_follows _ _ _)
  · cases h
    exact hresolved.trans ⟨rfl, rfl, rfl, rfl, rfl, rfl⟩

theorem planLayers_follows {walk : Walk} (layers : List (Layer × Nat))
    (h : planLayers upstream resolver application layers walk = .ok walk') : walk.Follows walk' := by
  induction layers generalizing walk with
  | nil =>
    cases h
    exact .refl _
  | cons layer rest ih =>
    obtain ⟨⟨outcome, resolved⟩, hresolve, h⟩ := bind_ok.mp h
    exact (Walk.resolve_follows hresolve).trans (ih h)

theorem planDelegated_follows {walk : Walk}
    (h : planDelegated upstream resolver kappa edge walk = .ok (delegated, walk')) :
    walk.Follows walk' := by
  obtain ⟨⟨outcome, resolved⟩, hresolve, h⟩ := bind_ok.mp h
  have hresolved := Walk.resolve_follows hresolve
  dsimp only at h
  split at h
  · cases h
    exact hresolved
  split at h <;> cases h <;> exact hresolved.trans ⟨rfl, rfl, rfl, rfl, rfl, rfl⟩

theorem plannedLayers_length (manifest : AppManifest) :
    (plannedLayers manifest).length = manifest.layers.length := by
  simp [plannedLayers]

theorem sum_modify_le (list : List α) (index : Nat) (update : α → α) (size : α → Nat)
    (hbound : ∀ a, size (update a) ≤ bound) :
    ((list.modify index update).map size).sum ≤ (list.map size).sum + bound := by
  induction list generalizing index with
  | nil => simp
  | cons a rest ih =>
    cases index with
    | zero =>
      have := hbound a
      simp only [List.modify_zero_cons, List.map_cons, List.sum_cons]
      omega
    | succ index =>
      have := ih index
      simp only [List.modify_succ_cons, List.map_cons, List.sum_cons]
      omega

theorem Walk.Within.enter {walk : Walk} (h : walk.Within limits turns rootLayers total)
    (application : PendingApplication) :
    (walk.enter application).Within limits turns rootLayers
      (total + application.manifest.layers.length) := by
  unfold Walk.enter
  cases application.admissionIndex with
  | none =>
    refine ⟨h.applications, h.depth, h.queue, by simp [h.counted], ?_⟩
    have := h.layers
    simp only [Walk.updateAdmission, Walk.listedLayers] at this ⊢
    omega
  | some index =>
    refine ⟨h.applications, h.depth, h.queue, by simp [h.counted], ?_⟩
    have hlayers := h.layers
    have hlisted := sum_modify_le walk.childAdmissions index
      (fun admission => { admission with
        primaryLayer := application.manifest.primary
        layers := plannedLayers application.manifest })
      (fun admission => admission.layers.length)
      fun _ => (plannedLayers_length application.manifest).le
    simp only [Walk.updateAdmission, Walk.listedLayers] at hlayers hlisted ⊢
    omega

/-- The root's turn adds the layers that no admission lists. -/
theorem Walk.Within.enterRoot {walk : Walk} (h : walk.Within limits turns rootLayers total)
    {application : PendingApplication} (hroot : application.admissionIndex = none) :
    (walk.enter application).Within limits turns
      (rootLayers + application.manifest.layers.length)
      (total + application.manifest.layers.length) := by
  unfold Walk.enter
  rw [hroot]
  refine ⟨h.applications, h.depth, h.queue, by simp [h.counted], ?_⟩
  have := h.layers
  simp only [Walk.updateAdmission, Walk.listedLayers] at this ⊢
  omega

theorem admitChild_within {walk : Walk} (h : walk.Within limits turns rootLayers total)
    (hroom : walk.applicationCount < limits.maxApplications)
    (hdepth : application.depth + 1 ≤ limits.maxDepth)
    (hchild : admitChild upstream resolver application position childKappa capabilitiesKappa walk =
      .ok walk') : walk'.Within limits turns rootLayers total := by
  obtain ⟨⟨delegated, planned⟩, hdelegated, hchild⟩ := bind_ok.mp hchild
  obtain ⟨⟨outcome, resolved⟩, hresolve, hchild⟩ := bind_ok.mp hchild
  have hfollows := (planDelegated_follows hdelegated).trans (Walk.resolve_follows hresolve)
  have hqueue := h.queue
  -- the new index is counted before anything is queued under it
  have hnumbered : resolved.Within limits turns rootLayers total ∧
      turns + (resolved.pending.length + 1) ≤ resolved.applicationCount := by
    have hwithin : (walk.number application).Within limits turns rootLayers total :=
      ⟨by simp only [Walk.number]; omega, max_le h.depth hdepth,
        by simp only [Walk.number]; omega, h.counted, h.layers⟩
    refine ⟨hwithin.follow hfollows, ?_⟩
    rw [hfollows.pending, hfollows.applicationCount]
    simp only [Walk.number]
    omega
  obtain ⟨hwithin, hplace⟩ := hnumbered
  dsimp only at hchild
  split at hchild
  · cases hchild
    exact hwithin
  split at hchild
  · cases hchild
    exact ⟨hwithin.applications, hwithin.depth, hwithin.queue, hwithin.counted, hwithin.layers⟩
  · cases hchild
    refine ⟨hwithin.applications, hwithin.depth, ?_, hwithin.counted, ?_⟩
    · simpa [Walk.enqueue, Walk.describe] using hplace
    · have hlayers := hwithin.layers
      cases delegated <;>
        simpa [Walk.enqueue, Walk.describe, Walk.listedLayers, PendingApplication.admission]
          using hlayers

theorem planChild_within {walk : Walk} (h : walk.Within limits turns rootLayers total)
    (hchild : planChild upstream resolver limits application position childKappa capabilitiesKappa
      walk = .ok walk') : walk'.Within limits turns rootLayers total := by
  have hreferred : (walk.refer application position childKappa capabilitiesKappa).Within limits
      turns rootLayers total := ⟨h.applications, h.depth, h.queue, h.counted, h.layers⟩
  have hblocked : ∀ blocker, ((walk.refer application position childKappa
      capabilitiesKappa).block blocker).Within limits turns rootLayers total :=
    fun _ => ⟨h.applications, h.depth, h.queue, h.counted, h.layers⟩
  dsimp only [planChild] at hchild
  split at hchild
  · cases hchild
    exact hblocked _
  split at hchild
  · cases hchild
    exact hblocked _
  rename_i hdepth
  split at hchild
  · cases hchild
    exact hreferred
  split at hchild
  · cases hchild
    exact ⟨h.applications, h.depth, h.queue, h.counted, h.layers⟩
  · rename_i hroom
    exact admitChild_within hreferred (not_le.mp hroom) (not_lt.mp hdepth) hchild

theorem planChildren_within {walk : Walk} (children : List ((String × String) × Nat))
    (h : walk.Within limits turns rootLayers total)
    (hchildren : planChildren upstream resolver limits application children walk = .ok walk') :
    walk'.Within limits turns rootLayers total := by
  induction children generalizing walk with
  | nil =>
    cases hchildren
    exact h
  | cons child rest ih =>
    obtain ⟨planned, hplanned, hchildren⟩ := bind_ok.mp hchildren
    exact ih (planChild_within h hplanned) hchildren

theorem planReferences_within {walk : Walk} (h : walk.Within limits turns rootLayers total)
    (hturn : planReferences upstream resolver limits application walk = .ok (broke, walk')) :
    walk'.Within limits turns rootLayers total := by
  obtain ⟨required, hrequired, hturn⟩ := bind_ok.mp hturn
  obtain ⟨layered, hlayered, hturn⟩ := bind_ok.mp hturn
  have hwithin := h.follow ((planRequires_follows hrequired).trans (planLayers_follows _ hlayered))
  split at hturn
  · cases hturn
    exact hwithin
  · obtain ⟨planned, hplanned, hturn⟩ := bind_ok.mp hturn
    cases hturn
    exact planChildren_within _ hwithin hplanned

/-- A turn counts the layers of its application before it looks at anything else. -/
theorem planApplication_within {walk : Walk}
    (h : (walk.enter application).Within limits turns rootLayers total)
    (hturn : planApplication upstream resolver limits application walk = .ok (broke, walk')) :
    walk'.Within limits turns rootLayers total := by
  dsimp only [planApplication] at hturn
  split at hturn
  · cases hturn
    exact ⟨h.applications, h.depth, h.queue, h.counted, h.layers⟩
  · exact planReferences_within h hturn

/-- The layer limit of a walk: kept to, or recorded. -/
def Walk.Layered (limits : PlanLimits) (walk : Walk) : Prop :=
  walk.totalLayers ≤ limits.maxLayers ∨
    ∃ blocker ∈ walk.closure.blockers, ∃ maximum actual edge,
      blocker = .limitExceeded "layers" maximum actual edge

theorem planApplication_layered {walk : Walk}
    (h : (walk.enter application).Within limits turns rootLayers total)
    (hturn : planApplication upstream resolver limits application walk = .ok (broke, walk')) :
    walk'.Layered limits := by
  have hwithin := planApplication_within h hturn
  dsimp only [planApplication] at hturn
  split at hturn
  · cases hturn
    exact .inr ⟨_, List.mem_append_right _ List.mem_cons_self, _, _, _, rfl⟩
  · rename_i hfits
    refine .inl ?_
    rw [hwithin.counted, ← h.counted]
    exact not_lt.mp hfits

/-- The queue loop as the source runs it, without fuel: the turns it takes and what it
ends in. -/
inductive Loop (upstream : Upstream) (resolver : Resolver) (limits : PlanLimits) :
    Walk → Nat → Except LiveError Walk → Prop where
  | drained (queue : walk.pending = []) : Loop upstream resolver limits walk 0 (.ok walk)
  | broken (queue : walk.pending = application :: rest)
    (turn : planApplication upstream resolver limits application { walk with pending := rest } =
      .ok (true, walk')) : Loop upstream resolver limits walk 1 (.ok walk')
  | failed (queue : walk.pending = application :: rest)
    (turn : planApplication upstream resolver limits application { walk with pending := rest } =
      .error error) : Loop upstream resolver limits walk 1 (.error error)
  | turned (queue : walk.pending = application :: rest)
    (turn : planApplication upstream resolver limits application { walk with pending := rest } =
      .ok (false, walk'))
    (later : Loop upstream resolver limits walk' count outcome) :
    Loop upstream resolver limits walk (count + 1) outcome

theorem Walk.Within.pop {walk : Walk} (h : walk.Within limits turns rootLayers total)
    (hpending : walk.pending = application :: rest) :
    ({ walk with pending := rest } : Walk).Within limits (turns + 1) rootLayers total := by
  have hqueue := h.queue
  rw [hpending, List.length_cons] at hqueue
  exact ⟨h.applications, h.depth, by simpa using by omega, h.counted, h.layers⟩

/-- Fuel for as many applications as the limit permits never runs out: the loop ends by
itself, in so many turns, within its bounds. -/
theorem planLoop_loop (fuel : Nat) {walk : Walk} (h : walk.Within limits turns rootLayers total)
    (hfuel : walk.pending = [] ∨ max 1 limits.maxApplications ≤ turns + fuel) :
    (∃ count ≤ fuel, Loop upstream resolver limits walk count
      (planLoop upstream resolver limits fuel walk)) ∧
    ∀ walk', planLoop upstream resolver limits fuel walk = .ok walk' → walk.Layered limits →
      walk'.Layered limits ∧ ∃ turns' total', walk'.Within limits turns' rootLayers total' := by
  induction fuel generalizing walk turns total with
  | zero =>
    have hpending : walk.pending = [] := by
      rcases hfuel with hpending | hfuel
      · exact hpending
      · have := h.applications
        have := h.queue
        exact List.eq_nil_of_length_eq_zero (by omega)
    unfold planLoop
    rw [hpending]
    refine ⟨⟨0, le_refl _, .drained hpending⟩, fun walk' hwalk' hlayered => ?_⟩
    cases hwalk'
    exact ⟨hlayered, turns, total, h⟩
  | succ fuel ih =>
    unfold planLoop
    cases hpending : walk.pending with
    | nil =>
      refine ⟨⟨0, Nat.zero_le _, .drained hpending⟩, fun walk' hwalk' hlayered => ?_⟩
      cases hwalk'
      exact ⟨hlayered, turns, total, h⟩
    | cons application rest =>
      have hentered := (h.pop hpending).enter application
      dsimp only
      cases hturn : planApplication upstream resolver limits application
          { walk with pending := rest } with
      | error error =>
        refine ⟨⟨1, by omega, .failed hpending hturn⟩, fun walk' hwalk' => ?_⟩
        cases hwalk'
      | ok turned =>
        obtain ⟨broke, turned⟩ := turned
        have hturned := planApplication_within hentered hturn
        have hlayered := planApplication_layered hentered hturn
        cases broke with
        | true =>
          refine ⟨⟨1, by omega, .broken hpending hturn⟩, fun walk' hwalk' _ => ?_⟩
          cases hwalk'
          exact ⟨hlayered, _, _, hturned⟩
        | false =>
          have hfuel' : turned.pending = [] ∨
              max 1 limits.maxApplications ≤ turns + 1 + fuel := by
            refine .inr ?_
            rcases hfuel with hempty | hfuel
            · rw [hpending] at hempty
              cases hempty
            · omega
          obtain ⟨⟨count, hcount, hloop⟩, hended⟩ := ih hturned hfuel'
          exact ⟨⟨count + 1, by omega, .turned hpending hturn hloop⟩,
            fun walk' hwalk' _ => hended walk' hwalk' hlayered⟩

end Walk

end HologramLive.Plan
