import HologramLive.Compile.Sealed
import HologramLive.Lib.Sorting
import Mathlib.Data.Countable.Basic
import Mathlib.Logic.Equiv.List

/-! What checking a manifest says about compiling it, and capability documents about their sets. -/

namespace HologramLive.Compile
open Lib Lib.Result Plan

/-! ### Capability documents -/

theorem checkAscending_ok {path : Bytes} {index : Nat} {values : List String} :
    checkAscending path field index values = .ok () ↔ values.Pairwise (· < ·) := by
  rw [← List.isChain_iff_pairwise]
  induction values generalizing index with
  | nil => simp [checkAscending]
  | cons first rest ih =>
    cases rest with
    | nil => simp [checkAscending]
    | cons second rest =>
      rw [checkAscending, guard_ok, ih, List.isChain_cons_cons, not_le]

/-- Values in strict order, each with what it is read as. -/
structure Listed (parse : String → Except String String) (values parsed : List String) : Prop where
  ascending : values.Pairwise (· < ·)
  each : List.Forall₂ (fun value label => parse value = .ok label) values parsed

/-- Lists of the same values are read as the same. -/
theorem Listed.eq_of_mem_iff {parse : String → Except String String} {left right : List String}
    (hleft : Listed parse left parsed) (hright : Listed parse right parsed')
    (hsame : ∀ value, value ∈ left ↔ value ∈ right) : parsed = parsed' := by
  obtain rfl : left = right :=
    Sorting.eq_of_mem_iff hleft.ascending hright.ascending hsame
  refine List.right_unique_forall₂' (fun value first second hfirst hsecond => ?_) hleft.each
    hright.each
  exact Except.ok.inj (hfirst.symm.trans hsecond)

/-- Where no two values are read as the same, the same is read from the same values only. -/
theorem Listed.unique {parse : String → Except String String} {left right : List String}
    (hparse : ∀ first second label, parse first = .ok label → parse second = .ok label →
      first = second)
    (hleft : Listed parse left parsed) (hright : Listed parse right parsed) : left = right :=
  List.left_unique_forall₂' (fun first second label => hparse first second label) hleft.each
    hright.each

theorem listed_of_mapM {parse : String → Except String String} {path : Bytes}
    {values : List String} {read : String × Nat → Except LiveError String}
    (hread : ∀ value index label, read (value, index) = .ok label → parse value = .ok label)
    (hascending : checkAscending path field 0 values = .ok ())
    (h : values.zipIdx.mapM read = .ok parsed) : Listed parse values parsed := by
  refine ⟨checkAscending_ok.mp hascending, ?_⟩
  have heach := (mapM_ok h).imp fun entry label hlabel => hread entry.1 entry.2 label hlabel
  have hvalues : List.Forall₂ (fun value label => parse value = .ok label)
      (values.zipIdx.map Prod.fst) parsed := List.forall₂_map_left_iff.mpr heach
  rwa [List.zipIdx_map_fst] at hvalues

theorem parseEndpoints_listed {packager : Packager} {path : Bytes} {values : List String}
    (h : parseEndpoints packager path field values = .ok parsed) :
    Listed packager.parseScope values parsed := by
  obtain ⟨hascending, h⟩ := check_ok.mp h
  exact listed_of_mapM (fun _ _ _ hlabel => mapError_ok.mp hlabel) hascending h

theorem parseLabels_listed {packager : Packager} {path : Bytes} {values : List String}
    (h : parseLabels packager path field values = .ok parsed) :
    Listed packager.parseLabel values parsed := by
  obtain ⟨hascending, h⟩ := check_ok.mp h
  refine listed_of_mapM (fun _ _ _ hlabel => ?_) hascending h
  exact mapError_ok.mp (guard_ok.mp hlabel).2

/-- A document and the set it is read as. -/
structure Read (packager : Packager) (document : CapabilitySource) (capabilities : Capabilities) :
    Prop where
  storageRoots : Listed packager.parseLabel document.storageRoots capabilities.storageRoots
  networkFetch :
    Listed packager.parseScope document.networkFetchEndpoints capabilities.networkFetchEndpoints
  networkAnnounce : Listed packager.parseScope document.networkAnnounceEndpoints
    capabilities.networkAnnounceEndpoints
  publishChannels : Listed packager.parseLabel document.publishChannels capabilities.publishChannels
  subscribeChannels :
    Listed packager.parseLabel document.subscribeChannels capabilities.subscribeChannels
  storageQuotaBytes : document.storageQuotaBytes = capabilities.storageQuotaBytes
  memoryMaxBytes : document.memoryMaxBytes = capabilities.memoryMaxBytes
  cpuTimePerEventMs : document.cpuTimePerEventMs = capabilities.cpuTimePerEventMs
  priorityWeight : document.priorityWeight = capabilities.priorityWeight

theorem compileSource_read {upstream : Upstream} {packager : Packager}
    (h : compileSource upstream packager path source = .ok encodedSet) :
    ∃ document capabilities, packager.parseCapabilities source = .ok document ∧
      Read packager document capabilities ∧
      encodedSet = upstream.canonicalizeCapabilities capabilities := by
  obtain ⟨document, hparse, h⟩ := bind_ok.mp h
  obtain ⟨-, h⟩ := check_ok.mp h
  obtain ⟨storageRoots, hroots, h⟩ := bind_ok.mp h
  obtain ⟨fetchEndpoints, hfetch, h⟩ := bind_ok.mp h
  obtain ⟨announceEndpoints, hannounce, h⟩ := bind_ok.mp h
  obtain ⟨publishChannels, hpublish, h⟩ := bind_ok.mp h
  obtain ⟨subscribeChannels, hsubscribe, h⟩ := bind_ok.mp h
  cases h
  exact ⟨document, _, mapError_ok.mp hparse, ⟨parseLabels_listed hroots,
    parseEndpoints_listed hfetch, parseEndpoints_listed hannounce, parseLabels_listed hpublish,
    parseLabels_listed hsubscribe, rfl, rfl, rfl, rfl⟩, rfl⟩

/-- Two documents that grant the same. -/
structure SameGrants (left right : CapabilitySource) : Prop where
  storageRoots : ∀ label, label ∈ left.storageRoots ↔ label ∈ right.storageRoots
  networkFetch : ∀ scope, scope ∈ left.networkFetchEndpoints ↔ scope ∈ right.networkFetchEndpoints
  networkAnnounce :
    ∀ scope, scope ∈ left.networkAnnounceEndpoints ↔ scope ∈ right.networkAnnounceEndpoints
  publishChannels : ∀ label, label ∈ left.publishChannels ↔ label ∈ right.publishChannels
  subscribeChannels : ∀ label, label ∈ left.subscribeChannels ↔ label ∈ right.subscribeChannels
  storageQuotaBytes : left.storageQuotaBytes = right.storageQuotaBytes
  memoryMaxBytes : left.memoryMaxBytes = right.memoryMaxBytes
  cpuTimePerEventMs : left.cpuTimePerEventMs = right.cpuTimePerEventMs
  priorityWeight : left.priorityWeight = right.priorityWeight

/-- No two labels, scopes or sets are written alike. -/
structure Distinguishes (upstream : Upstream) (packager : Packager) : Prop where
  labels : ∀ first second label, packager.parseLabel first = .ok label →
    packager.parseLabel second = .ok label → first = second
  scopes : ∀ first second scope, packager.parseScope first = .ok scope →
    packager.parseScope second = .ok scope → first = second
  sets : Function.Injective upstream.canonicalizeCapabilities

theorem Read.eq_of_same {packager : Packager} (h : Read packager document capabilities)
    (h' : Read packager document' capabilities') (hsame : SameGrants document document') :
    capabilities = capabilities' := by
  cases capabilities
  cases capabilities'
  rw [Capabilities.mk.injEq]
  exact ⟨h.storageRoots.eq_of_mem_iff h'.storageRoots hsame.storageRoots,
    h.storageQuotaBytes.symm.trans (hsame.storageQuotaBytes.trans h'.storageQuotaBytes),
    h.networkFetch.eq_of_mem_iff h'.networkFetch hsame.networkFetch,
    h.networkAnnounce.eq_of_mem_iff h'.networkAnnounce hsame.networkAnnounce,
    h.publishChannels.eq_of_mem_iff h'.publishChannels hsame.publishChannels,
    h.subscribeChannels.eq_of_mem_iff h'.subscribeChannels hsame.subscribeChannels,
    h.memoryMaxBytes.symm.trans (hsame.memoryMaxBytes.trans h'.memoryMaxBytes),
    h.cpuTimePerEventMs.symm.trans (hsame.cpuTimePerEventMs.trans h'.cpuTimePerEventMs),
    h.priorityWeight.symm.trans (hsame.priorityWeight.trans h'.priorityWeight)⟩

theorem Read.same {packager : Packager} (hcrates : Distinguishes upstream packager)
    (h : Read packager document capabilities) (h' : Read packager document' capabilities) :
    SameGrants document document' where
  storageRoots label := by rw [h.storageRoots.unique hcrates.labels h'.storageRoots]
  networkFetch scope := by rw [h.networkFetch.unique hcrates.scopes h'.networkFetch]
  networkAnnounce scope := by rw [h.networkAnnounce.unique hcrates.scopes h'.networkAnnounce]
  publishChannels label := by rw [h.publishChannels.unique hcrates.labels h'.publishChannels]
  subscribeChannels label := by
    rw [h.subscribeChannels.unique hcrates.labels h'.subscribeChannels]
  storageQuotaBytes := h.storageQuotaBytes.trans h'.storageQuotaBytes.symm
  memoryMaxBytes := h.memoryMaxBytes.trans h'.memoryMaxBytes.symm
  cpuTimePerEventMs := h.cpuTimePerEventMs.trans h'.cpuTimePerEventMs.symm
  priorityWeight := h.priorityWeight.trans h'.priorityWeight.symm

/-- Whatever schema it is written in and wherever it is kept, a document compiles to the bytes
of what it grants: documents that grant the same compile to the same bytes, and so to the same
address, and only they do where the crates tell apart what differs. -/
theorem compileSource_canonical {upstream : Upstream} {packager : Packager}
    {path path' source source' encodedSet encodedSet' : Bytes}
    (h : compileSource upstream packager path source = .ok encodedSet)
    (h' : compileSource upstream packager path' source' = .ok encodedSet') :
    ∃ document document', packager.parseCapabilities source = .ok document ∧
      packager.parseCapabilities source' = .ok document' ∧
      (SameGrants document document' → encodedSet = encodedSet') ∧
      (Distinguishes upstream packager → encodedSet = encodedSet' →
        SameGrants document document') := by
  obtain ⟨document, capabilities, hparse, hread, rfl⟩ := compileSource_read h
  obtain ⟨document', capabilities', hparse', hread', rfl⟩ := compileSource_read h'
  refine ⟨document, document', hparse, hparse', fun hsame => ?_, fun hcrates hequal => ?_⟩
  · rw [hread.eq_of_same hread' hsame]
  · obtain rfl := hcrates.sets hequal
    exact hread.same hcrates hread'

theorem capabilities_countable : Countable Capabilities := by
  have : Countable Char :=
    Function.Injective.countable (f := Char.toNat) fun _ _ => Char.toNat_inj.mp
  have : Countable String :=
    Function.Injective.countable (f := String.toList) fun _ _ => String.toList_inj.mp
  refine Function.Injective.countable (f := fun granted : Capabilities =>
    (granted.storageRoots, granted.storageQuotaBytes, granted.networkFetchEndpoints,
      granted.networkAnnounceEndpoints, granted.publishChannels, granted.subscribeChannels,
      granted.memoryMaxBytes, granted.cpuTimePerEventMs, granted.priorityWeight)) ?_
  rintro ⟨⟩ ⟨⟩ h
  simpa using h

/-- Two documents in different schemas that grant nothing, and crates that tell sets apart. -/
theorem compileSource_canonical_sample : ∃ (upstream : Upstream) (encodedSet : Bytes),
    Distinguishes upstream samplePackager ∧
    compileSource upstream samplePackager [115] [12] = .ok encodedSet ∧
    compileSource upstream samplePackager [116] [13] = .ok encodedSet ∧
    ∃ document document', samplePackager.parseCapabilities [12] = .ok document ∧
      samplePackager.parseCapabilities [13] = .ok document' ∧ SameGrants document document' := by
  have := capabilities_countable
  obtain ⟨number, hnumber⟩ := exists_injective_nat Capabilities
  let upstream : Upstream :=
    { sampleUpstream with canonicalizeCapabilities := fun granted => .replicate (number granted) 0 }
  have hcurrent : compileSource upstream samplePackager [115] [12] =
      .ok (upstream.canonicalizeCapabilities {}) := by rfl
  have hlegacy : compileSource upstream samplePackager [116] [13] =
      .ok (upstream.canonicalizeCapabilities {}) := by rfl
  have hcrates : Distinguishes upstream samplePackager := by
    refine ⟨?_, ?_, fun left right h => hnumber ?_⟩
    · rintro first second label ⟨⟩ ⟨⟩
      rfl
    · rintro first second label ⟨⟩ ⟨⟩
      rfl
    · simpa [upstream] using congrArg List.length h
  obtain ⟨document, document', hparse, hparse', -, hsame⟩ := compileSource_canonical hcurrent hlegacy
  exact ⟨upstream, _, hcrates, hcurrent, hlegacy, document, document', hparse, hparse',
    hsame hcrates rfl⟩

/-! ### Checking before compiling -/

section Foretelling
variable {R C : Type} {upstream : Upstream} {packager : Packager} {workspace : Workspace R C}
  {root : Bytes} {noBuildCache : Bool}

/-- What the builders build, they also check. -/
structure Agrees (workspace : Workspace R C) (root : Bytes) (noBuildCache : Bool) : Prop where
  rootfs : ∀ source arch bytes report,
    workspace.compileRootfs root source arch noBuildCache = .ok (bytes, report) →
      ∃ checked, workspace.checkRootfs root source arch = .ok checked
  component : ∀ source bytes report, workspace.compileComponent root source = .ok (bytes, report) →
    ∃ checked, workspace.checkComponent root source = .ok checked

end Foretelling

end HologramLive.Compile
