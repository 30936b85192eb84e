import HologramLive.Compile.Archive
import HologramLive.Plan.Projection
import HologramLive.Plan.Supplied

/-! What an archive that was compiled from archives that were compiled holds, at every depth. -/

namespace HologramLive.Compile
open Lib Lib.Result Plan

/-- What stands under a kappa in a table of blobs. -/
def contentOf (blobs : List (Bytes × Bytes)) (kappa : String) : Option Bytes :=
  blobs.lookup (Utf8.encode kappa)

/-- A table of certain contents, each under the label of its address. -/
structure Holds (upstream : Upstream) (blobs : List (Bytes × Bytes)) (contents : Bytes → Prop) :
    Prop where
  labels : ∀ blob ∈ blobs, blob.1 = Utf8.encode (upstream.addressBytes blob.2)
  nodup : (blobs.map Prod.fst).Nodup
  members : ∀ content, (∃ blob ∈ blobs, blob.2 = content) ↔ contents content

section Tables
variable {upstream : Upstream} {blobs more : List (Bytes × Bytes)} {contents others : Bytes → Prop}

theorem Holds.nil : Holds upstream [] fun _ => False := ⟨by simp, by simp, by simp⟩

theorem Holds.congr (h : Holds upstream blobs contents)
    (hsame : ∀ content, contents content ↔ others content) : Holds upstream blobs others :=
  ⟨h.labels, h.nodup, fun content => (h.members content).trans (hsame content)⟩

theorem Holds.perm (h : Holds upstream blobs contents) (hperm : more.Perm blobs) :
    Holds upstream more contents where
  labels blob hblob := h.labels blob (hperm.mem_iff.mp hblob)
  nodup := (hperm.map Prod.fst).nodup_iff.mpr h.nodup
  members content := by
    rw [← h.members]
    exact exists_congr fun blob => and_congr_left' hperm.mem_iff

/-- A content is found under its own address and under no other. -/
theorem Holds.lookup {content : Bytes} (h : Holds upstream blobs contents) :
    contentOf blobs kappa = some content ↔
      contents content ∧ upstream.addressBytes content = kappa := by
  rw [← h.members]
  constructor
  · intro hlookup
    have hmem := Lookup.mem_of_lookup hlookup
    exact ⟨⟨_, hmem, rfl⟩, (Utf8.encode_injective (h.labels _ hmem)).symm⟩
  · rintro ⟨⟨⟨label, found⟩, hmem, rfl⟩, rfl⟩
    have hlabel : label = Utf8.encode (upstream.addressBytes found) := h.labels _ hmem
    rw [hlabel] at hmem
    exact Lookup.lookup_of_mem h.nodup hmem

/-- Putting a content in adds it and loses nothing, as long as no two share an address. -/
theorem Holds.put {content : Bytes} (h : Holds upstream blobs contents) {pool : Set Bytes}
    (hinj : Set.InjOn upstream.addressBytes pool)
    (hpool : ∀ content, contents content → content ∈ pool)
    (hnew : content ∈ pool) :
    Holds upstream (insertBlob upstream blobs content) fun other =>
      other = content ∨ contents other where
  labels := by
    refine List.forall_mem_cons.mpr ⟨rfl, fun blob hblob => ?_⟩
    exact h.labels blob (List.mem_of_mem_filter hblob)
  nodup := Table.nodup_insert h.nodup _ _
  members other := by
    rw [insertBlob, Table.insert, List.exists_mem_cons_iff, ← h.members other]
    constructor
    · rintro (rfl | ⟨blob, hblob, rfl⟩)
      · exact .inl rfl
      · exact .inr ⟨blob, List.mem_of_mem_filter hblob, rfl⟩
    · rintro (rfl | ⟨blob, hblob, rfl⟩)
      · exact .inl rfl
      by_cases hsame : blob.1 = Utf8.encode (upstream.addressBytes content)
      · refine .inl (hinj hnew (hpool _ ((h.members _).mp ⟨blob, hblob, rfl⟩)) ?_)
        exact Utf8.encode_injective (hsame.symm.trans (h.labels blob hblob))
      · exact .inr ⟨blob, List.mem_filter.mpr ⟨hblob, by simpa using hsame⟩, rfl⟩

theorem Holds.putEach (h : Holds upstream blobs contents) {pool : Set Bytes}
    (hinj : Set.InjOn upstream.addressBytes pool)
    (hpool : ∀ content, contents content → content ∈ pool)
    (added : List Bytes) (hadded : ∀ content ∈ added, content ∈ pool) :
    Holds upstream (added.foldl (insertBlob upstream) blobs) fun other =>
      other ∈ added ∨ contents other := by
  induction added generalizing blobs contents with
  | nil => exact h.congr (by simp)
  | cons first rest ih =>
    obtain ⟨hfirst, hrest⟩ := List.forall_mem_cons.mp hadded
    have hput := h.put hinj hpool hfirst
    refine (ih hput ?_ hrest).congr fun other => ?_
    · rintro other (rfl | hother)
      · exact hfirst
      · exact hpool other hother
    · rw [List.mem_cons]
      tauto

/-- Well-labelled blobs are put in by their contents. -/
theorem insertBlobs_eq
    (hlabels : ∀ blob ∈ more, blob.1 = Utf8.encode (upstream.addressBytes blob.2)) :
    insertBlobs blobs more = (more.map Prod.snd).foldl (insertBlob upstream) blobs := by
  induction more generalizing blobs with
  | nil => rfl
  | cons first rest ih =>
    obtain ⟨hfirst, hrest⟩ := List.forall_mem_cons.mp hlabels
    rw [insertBlobs, List.foldl_cons, ← insertBlobs, ih hrest, List.map_cons, List.foldl_cons,
      insertBlob, hfirst]

theorem takeBlobs_ok {path : Bytes} : takeBlobs upstream path more blobs = .ok result ↔
    (∀ blob ∈ more, blob.1 = Utf8.encode (upstream.addressBytes blob.2)) ∧
      result = (more.map Prod.snd).foldl (insertBlob upstream) blobs := by
  induction more generalizing blobs with
  | nil => simp [takeBlobs, eq_comm]
  | cons first rest ih =>
    obtain ⟨label, content⟩ := first
    unfold takeBlobs
    dsimp only
    rw [guard_ok, ih, List.forall_mem_cons, not_not]
    constructor
    · rintro ⟨rfl, hrest, rfl⟩
      exact ⟨⟨rfl, hrest⟩, rfl⟩
    · rintro ⟨⟨hlabel, hrest⟩, rfl⟩
      obtain rfl : label = Utf8.encode (upstream.addressBytes content) := hlabel
      exact ⟨rfl, hrest, rfl⟩

/-- The blobs a directory can be derived from are such a table. -/
theorem indexBlobs_holds (h : Directory.indexBlobs upstream blobs [] = .ok indexed) :
    Holds upstream blobs fun content => ∃ blob ∈ blobs, blob.2 = content := by
  obtain ⟨rows, hrows, hnodup, -, -⟩ := Directory.indexBlobs_ok.mp h
  have hlabels : ∀ blob ∈ blobs, blob.1 = Utf8.encode (upstream.addressBytes blob.2) := by
    intro blob hblob
    obtain ⟨row, -, hrow⟩ := exists_of_mem_list hrows hblob
    rw [hrow.address]
    exact (Utf8.decode_eq_some.mp hrow.label).symm
  refine ⟨hlabels, ?_, fun _ => .rfl⟩
  have hkeys : blobs.map Prod.fst = rows.map fun row => Utf8.encode row.kappa :=
    map_eq_of_pointwise hrows fun blob row hrow => (Utf8.decode_eq_some.mp hrow.label).symm
  rw [hkeys]
  have hencoded := hnodup.map Utf8.encode_injective
  rwa [List.map_map] at hencoded

/-- The table a planner looks its kappas up in. -/
theorem embeddedTable_lookup (hnodup : (blobs.map Prod.fst).Nodup)
    (h : embeddedTable blobs table = .ok embedded) (kappa : String) :
    embedded.lookup kappa = (contentOf blobs kappa).or (table.lookup kappa) := by
  induction blobs generalizing table with
  | nil =>
    cases h
    simp [contentOf]
  | cons first rest ih =>
    obtain ⟨label, content⟩ := first
    unfold embeddedTable at h
    rw [List.map_cons, List.nodup_cons] at hnodup
    cases hdecode : Utf8.decode label with
    | none => simp [hdecode] at h
    | some found =>
      rw [hdecode] at h
      rw [ih hnodup.2 h]
      obtain rfl := Utf8.decode_eq_some.mp hdecode
      unfold contentOf
      by_cases hsame : kappa = found
      · subst hsame
        have hnone : rest.lookup (Utf8.encode kappa) = none := by
          rw [List.lookup_eq_none_iff]
          intro blob hblob
          rw [bne_iff_ne]
          intro heq
          exact hnodup.1 (List.mem_map.mpr ⟨blob, hblob, heq.symm⟩)
        simp [hnone]
      · rw [Lookup.lookup_cons_ne hsame, Lookup.lookup_cons_ne (Utf8.encode_injective.ne hsame)]

end Tables

/-! ### One build -/

/-- The loader finds in an archive what it was written from. -/
structure Loads (upstream : Upstream) (sections : Sections) (bytes : Bytes) : Prop where
  current : requireCurrent bytes = .ok ()
  archive : ∃ archive blobs, upstream.load bytes = .ok archive ∧
    archive.appManifest = some sections.appManifest ∧
    archive.extensions = .ok sections.extensions ∧
    archive.contentBlobs = .ok blobs ∧ blobs.Perm sections.contentBlobs

/-- The crates read back what they write: valid manifests, capability sets and archives. -/
structure Lawful (upstream : Upstream) (packager : Packager) : Prop where
  manifests : ∀ manifest, upstream.validateManifest manifest = .ok () →
    upstream.decodeManifest (upstream.canonicalizeManifest manifest) = .ok manifest
  sets : ∀ capabilities, ∃ found,
    decodeCanonical upstream (upstream.canonicalizeCapabilities capabilities) = .ok found
  archives : ∀ sections bytes, packager.finish sections = .ok bytes → Loads upstream sections bytes

theorem Lawful.canonical {upstream : Upstream} {packager : Packager}
    (h : Lawful upstream packager) : upstream.Canonical :=
  fun _ manifest _ hvalid => h.manifests manifest hvalid

section Build
variable {R C : Type} (upstream : Upstream) (packager : Packager) (workspace : Workspace R C)
  (root : Bytes) (noBuildCache : Bool) (specification : CompileManifest)

/-- The byte strings that a build addresses. -/
inductive Handled : Bytes → Prop where
  | application
    (assembles : assemble upstream packager workspace root noBuildCache specification =
      .ok assembly) : Handled (upstream.canonicalizeManifest assembly.manifest)
  | required
    (compiles : compileCapabilities upstream packager workspace root specification.requires =
      .ok encodedSet) : Handled encodedSet
  | layer (listed : layer ∈ specification.layers)
    (compiles : compileLayerContent workspace root noBuildCache layer = .ok (content, provenance)) :
    Handled content
  | delegated (listed : child ∈ specification.children)
    (compiles : compileCapabilities upstream packager workspace root (some child.capabilities) =
      .ok encodedSet) : Handled encodedSet
  | manifest (listed : child ∈ specification.children)
    (read : workspace.read (join root child.application) = .ok bytes)
    (loads : upstream.load bytes = .ok archive) (found : archive.appManifest = some manifest) :
    Handled manifest
  | blob (listed : child ∈ specification.children)
    (read : workspace.read (join root child.application) = .ok bytes)
    (loads : upstream.load bytes = .ok archive) (found : archive.contentBlobs = .ok blobs)
    (packed : blob ∈ blobs) : Handled blob.2

/-- A build in which no two contents share an address and the directory that is written reads
back. -/
structure Emission (path : Bytes) (packaging : HoloPackaging) (assembly : Assembly R C)
    (compiled : CompiledHolo R C) : Prop where
  written : ∃ source,
    readSpecification upstream packager workspace path = .ok (source, specification) ∧
      package upstream packager packaging source assembly = .ok compiled
  assembles : assemble upstream packager workspace root noBuildCache specification = .ok assembly
  distinct : Set.InjOn upstream.addressBytes
    {content | Handled upstream packager workspace root noBuildCache specification content}
  directory : ∀ directory,
    Directory.derive upstream assembly.manifest (embeddedBlobs packaging assembly) =
      .ok directory →
      upstream.directoryFromSlice (upstream.directoryToVec directory) = .ok directory

end Build

/-- Fat archives that were built, and their children as well, and so on. -/
inductive Emitted (upstream : Upstream) (packager : Packager) : Bytes → Prop where
  | built {R C : Type} {workspace : Workspace R C} {assembly : Assembly R C}
    {compiled : CompiledHolo R C}
    (emission : Emission upstream packager workspace root noBuildCache specification path .fat
      assembly compiled)
    (children : ∀ child ∈ specification.children, ∀ bytes,
      workspace.read (join root child.application) = .ok bytes → Emitted upstream packager bytes) :
    Emitted upstream packager compiled.bytes

/-- An archive that planning reads, with everything its application names packed in it. -/
structure Sealed (upstream : Upstream) (bytes : Bytes) (source : PlanSource) : Prop where
  read : readSource upstream bytes = .ok source
  whole : Whole upstream (fun kappa => source.embedded.lookup kappa) source.manifest
  fixed : Fixed upstream (fun kappa => source.embedded.lookup kappa)
    source.identity.applicationKappa source.manifest

section Inversion
variable {R C : Type} {upstream : Upstream} {packager : Packager} {workspace : Workspace R C}
  {root path : Bytes} {noBuildCache : Bool} {specification : CompileManifest}

/-- Whatever a capability set is compiled from, it is the encoding of a set. -/
theorem compileCapabilities_set {path : Option Bytes}
    (h : compileCapabilities upstream packager workspace root path = .ok encodedSet) :
    ∃ capabilities, encodedSet = upstream.canonicalizeCapabilities capabilities := by
  cases path with
  | none =>
    cases h
    exact ⟨_, rfl⟩
  | some path =>
    obtain ⟨source, -, h⟩ := bind_ok.mp h
    obtain ⟨document, -, h⟩ := bind_ok.mp h
    obtain ⟨-, h⟩ := check_ok.mp h
    obtain ⟨storageRoots, -, h⟩ := bind_ok.mp h
    obtain ⟨fetchEndpoints, -, h⟩ := bind_ok.mp h
    obtain ⟨announceEndpoints, -, h⟩ := bind_ok.mp h
    obtain ⟨publishChannels, -, h⟩ := bind_ok.mp h
    obtain ⟨subscribeChannels, -, h⟩ := bind_ok.mp h
    cases h
    exact ⟨_, rfl⟩

/-- A child's manifest is the canonical encoding of a valid application. -/
theorem childManifest_encodes {path manifestBytes : Bytes} :
    childManifest upstream path manifestBytes = .ok manifest ↔
      Encodes upstream manifest manifestBytes := by
  unfold childManifest
  rw [bind_ok]
  constructor
  · rintro ⟨found, hdecode, h⟩
    obtain ⟨hvalid, h⟩ := check_ok.mp h
    obtain ⟨hcanonical, h⟩ := guard_ok.mp h
    cases h
    exact ⟨mapError_ok.mp hdecode, mapError_ok.mp hvalid, not_not.mp hcanonical⟩
  · rintro ⟨hdecodes, hvalid, hcanonical⟩
    refine ⟨manifest, mapError_ok.mpr hdecodes, check_ok.mpr ⟨mapError_ok.mpr hvalid, ?_⟩⟩
    exact guard_ok.mpr ⟨not_not.mpr hcanonical, rfl⟩

/-- What a compiled child was found to be. -/
structure ChildRead (upstream : Upstream) (packager : Packager) (workspace : Workspace R C)
    (root : Bytes) (child : CompileChild) (compiled : CompiledChild) (bytes : Bytes)
    (archive : Archive) (manifest : AppManifest) (blobs : List (Bytes × Bytes))
    (encodedSet : Bytes) : Prop where
  read : workspace.read (join root child.application) = .ok bytes
  loads : upstream.load bytes = .ok archive
  encodes : ∃ manifestBytes, archive.appManifest = some manifestBytes ∧
    Encodes upstream manifest manifestBytes
  unpacks : archive.contentBlobs = .ok blobs
  packed : Holds upstream blobs fun content => ∃ blob ∈ blobs, blob.2 = content
  delegates : compileCapabilities upstream packager workspace root (some child.capabilities) =
    .ok encodedSet
  application : compiled.application =
    upstream.addressBytes (upstream.canonicalizeManifest manifest)
  capabilities : compiled.capabilities = upstream.addressBytes encodedSet
  gathered : compiled.blobs =
    (upstream.canonicalizeManifest manifest :: blobs.map Prod.snd ++ [encodedSet]).foldl
      (insertBlob upstream) []

theorem compileChild_read (h : compileChild upstream packager workspace root child = .ok compiled) :
    ∃ bytes archive manifest blobs encodedSet,
      ChildRead upstream packager workspace root child compiled bytes archive manifest blobs
        encodedSet := by
  obtain ⟨-, h⟩ := check_ok.mp h
  obtain ⟨bytes, hread, h⟩ := bind_ok.mp h
  obtain ⟨-, h⟩ := check_ok.mp h
  obtain ⟨archive, hload, h⟩ := bind_ok.mp h
  obtain ⟨⟨application, gathered⟩, hblobs, h⟩ := bind_ok.mp h
  obtain ⟨encodedSet, hset, h⟩ := bind_ok.mp h
  cases h
  unfold childBlobs at hblobs
  split at hblobs
  · cases hblobs
  rename_i manifestBytes hmanifest
  obtain ⟨manifest, hencodes, hblobs⟩ := bind_ok.mp hblobs
  obtain ⟨extensions, -, hblobs⟩ := bind_ok.mp hblobs
  obtain ⟨blobs, hcontent, hblobs⟩ := bind_ok.mp hblobs
  obtain ⟨directory, hdirectory, hblobs⟩ := bind_ok.mp hblobs
  obtain ⟨taken, htaken, hblobs⟩ := bind_ok.mp hblobs
  obtain ⟨references, -, hblobs⟩ := bind_ok.mp hblobs
  obtain ⟨-, hblobs⟩ := check_ok.mp hblobs
  cases hblobs
  obtain ⟨-, indexed, hindexed⟩ := verifyRequired_derives hdirectory
  have hmanifest' := childManifest_encodes.mp hencodes
  obtain ⟨-, rfl⟩ := takeBlobs_ok.mp htaken
  refine ⟨bytes, archive, manifest, blobs, encodedSet, mapError_ok.mp hread, mapError_ok.mp hload,
    ⟨manifestBytes, hmanifest, hmanifest'⟩, mapError_ok.mp hcontent, indexBlobs_holds hindexed,
    hset, ?_, rfl, ?_⟩
  · rw [hmanifest'.canonical]
  · rw [hmanifest'.canonical]
    simp [List.foldl_append]

/-- Whether and as what a layer is built does not depend on its content, which it names. -/
theorem buildLayer_named {host : String} (other : String) :
    buildLayer upstream packager host layer kappa =
      (buildLayer upstream packager host layer other).map fun built =>
        { built with content := kappa } := by
  unfold buildLayer
  cases layer.kind with
  | wasm =>
    simp only [buildWasm, map_bind]
    refine bind_congr fun _ => bind_congr fun _ => bind_congr fun _ => ?_
    split
    · rfl
    rw [map_bind]
    refine bind_congr fun _ => ?_
    split
    · rfl
    · rfl
    rw [map_bind]
    refine bind_congr fun contract => ?_
    split <;> rfl
  | tensor =>
    simp only [buildTensor, map_bind]
    rfl
  | rootfs =>
    simp only [buildRootfs, map_bind]
    rfl
  | view =>
    simp only [buildView, map_bind]
    refine bind_congr fun _ => bind_congr fun _ => bind_congr fun _ => ?_
    split
    · rfl
    rw [map_bind]
    refine bind_congr fun surface => ?_
    split <;> rfl
  | inferenceModel =>
    simp only [buildInferenceModel, map_bind]
    rfl

theorem buildLayer_content {host : String}
    (h : buildLayer upstream packager host layer kappa = .ok built) : built.content = kappa := by
  rw [buildLayer_named kappa] at h
  obtain ⟨_, -, rfl⟩ := map_ok.mp h
  rfl

/-- What an assembly was put together from. -/
structure Assembled (upstream : Upstream) (packager : Packager) (workspace : Workspace R C)
    (root : Bytes) (noBuildCache : Bool) (specification : CompileManifest) (encodedSet : Bytes)
    (layers : List (CompiledLayer R C)) (children : List CompiledChild) : Prop where
  required : compileCapabilities upstream packager workspace root specification.requires =
    .ok encodedSet
  compiles : List.Forall₂
    (fun layer compiled =>
      compileLayer upstream packager workspace root noBuildCache layer = .ok compiled)
    specification.layers layers
  composes : List.Forall₂
    (fun child compiled => compileChild upstream packager workspace root child = .ok compiled)
    specification.children children
  valid : upstream.validateManifest
    (assemblyOf upstream specification encodedSet layers children).manifest = .ok ()

theorem assemble_ok
    (h : assemble upstream packager workspace root noBuildCache specification = .ok assembly) :
    ∃ encodedSet layers children,
      Assembled upstream packager workspace root noBuildCache specification encodedSet layers
        children ∧
      assembly = assemblyOf upstream specification encodedSet layers children := by
  obtain ⟨encodedSet, hset, h⟩ := bind_ok.mp h
  obtain ⟨layers, hlayers, h⟩ := bind_ok.mp h
  obtain ⟨children, hchildren, h⟩ := bind_ok.mp h
  obtain ⟨hvalid, h⟩ := check_ok.mp h
  cases h
  exact ⟨encodedSet, layers, children,
    ⟨hset, mapM_ok hlayers, mapM_ok hchildren, mapError_ok.mp hvalid⟩, rfl⟩

theorem compileLayer_ok
    (h : compileLayer upstream packager workspace root noBuildCache layer = .ok compiled) :
    compileLayerContent workspace root noBuildCache layer =
        .ok (compiled.content, compiled.provenance) ∧
      compiled.layer.content = upstream.addressBytes compiled.content := by
  obtain ⟨⟨content, provenance⟩, hcontent, h⟩ := bind_ok.mp h
  obtain ⟨built, hbuilt, h⟩ := bind_ok.mp h
  cases h
  exact ⟨hcontent, buildLayer_content hbuilt⟩

/-- The contents a compiled child passes on: its manifest, its own blobs and the set delegated
to it. -/
theorem ChildRead.holds
    (h : ChildRead upstream packager workspace root child compiled bytes archive manifest blobs
      encodedSet)
    {pool : Set Bytes} (hinj : Set.InjOn upstream.addressBytes pool)
    (hpool : ∀ content ∈
      upstream.canonicalizeManifest manifest :: blobs.map Prod.snd ++ [encodedSet], content ∈ pool) :
    Holds upstream compiled.blobs fun content =>
      content ∈ upstream.canonicalizeManifest manifest :: blobs.map Prod.snd ++ [encodedSet] := by
  rw [h.gathered]
  exact (Holds.nil.putEach hinj (fun _ => False.elim) _ hpool).congr fun content => by simp

/-- The tables of several children, put in one after the other. -/
theorem Holds.putChildren {blobs : List (Bytes × Bytes)} {contents : Bytes → Prop}
    (h : Holds upstream blobs contents) {pool : Set Bytes}
    (hinj : Set.InjOn upstream.addressBytes pool)
    (hpool : ∀ content, contents content → content ∈ pool)
    (children : List CompiledChild)
    (hchildren : ∀ child ∈ children, ∃ held, Holds upstream child.blobs held ∧
      ∀ content, held content → content ∈ pool) :
    Holds upstream (children.foldl (fun blobs child => insertBlobs blobs child.blobs) blobs)
      fun content =>
        (∃ child ∈ children, content ∈ child.blobs.map Prod.snd) ∨ contents content := by
  induction children generalizing blobs contents with
  | nil => exact h.congr (by simp)
  | cons first rest ih =>
    obtain ⟨⟨held, hfirst, hheld⟩, hrest⟩ := List.forall_mem_cons.mp hchildren
    have hadded : ∀ content ∈ first.blobs.map Prod.snd, content ∈ pool := by
      intro content hcontent
      obtain ⟨blob, hblob, rfl⟩ := List.mem_map.mp hcontent
      exact hheld _ ((hfirst.members _).mp ⟨blob, hblob, rfl⟩)
    have hput := h.putEach hinj hpool _ hadded
    rw [List.foldl_cons, insertBlobs_eq hfirst.labels]
    refine (ih hput ?_ hrest).congr fun content => ?_
    · rintro content (hcontent | hcontent)
      · exact hadded content hcontent
      · exact hpool content hcontent
    · rw [List.exists_mem_cons_iff]
      exact or_left_comm.trans or_assoc.symm

end Inversion

end HologramLive.Compile
