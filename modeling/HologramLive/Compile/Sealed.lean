import HologramLive.Compile.Emitted

namespace HologramLive.Compile
open Lib Lib.Result Plan

section Assembly
variable {R C : Type} {upstream : Upstream} {packager : Packager} {workspace : Workspace R C}
  {root path : Bytes} {noBuildCache : Bool} {specification : CompileManifest}
  {encodedSet : Bytes} {layers : List (CompiledLayer R C)} {children : List CompiledChild}

/-- Everything that is packed in an assembly. -/
def Packed (encodedSet : Bytes) (layers : List (CompiledLayer R C)) (children : List CompiledChild)
    (content : Bytes) : Prop :=
  (∃ child ∈ children, content ∈ child.blobs.map Prod.snd) ∨
    content ∈ layers.map (·.content) ∨ content = encodedSet

/-- What a compiled child passes on was handled in the build. -/
theorem ChildRead.handled
    (h : ChildRead upstream packager workspace root child compiled bytes archive manifest blobs
      encodedSet) (hlisted : child ∈ specification.children) :
    ∀ content ∈ upstream.canonicalizeManifest manifest :: blobs.map Prod.snd ++ [encodedSet],
      Handled upstream packager workspace root noBuildCache specification content := by
  intro content hcontent
  rcases List.mem_append.mp hcontent with hcontent | hcontent
  · rcases List.mem_cons.mp hcontent with rfl | hcontent
    · obtain ⟨manifestBytes, hfound, hencodes⟩ := h.encodes
      rw [hencodes.canonical]
      exact .manifest hlisted h.read h.loads hfound
    · obtain ⟨blob, hblob, rfl⟩ := List.mem_map.mp hcontent
      exact .blob hlisted h.read h.loads h.unpacks hblob
  · rw [List.mem_singleton.mp hcontent]
    exact .delegated hlisted h.delegates

section
variable (hassembled : Assembled upstream packager workspace root noBuildCache specification
    encodedSet layers children)
  (hdistinct : Set.InjOn upstream.addressBytes
    {content | Handled upstream packager workspace root noBuildCache specification content})
include hassembled hdistinct

/-- Each compiled child comes from one that the manifest lists. -/
theorem Assembled.child (hchild : compiled ∈ children) :
    ∃ child ∈ specification.children, ∃ bytes archive manifest blobs delegated,
      ChildRead upstream packager workspace root child compiled bytes archive manifest blobs
        delegated ∧
      Holds upstream compiled.blobs fun content =>
        content ∈ upstream.canonicalizeManifest manifest :: blobs.map Prod.snd ++ [delegated] := by
  obtain ⟨child, hlisted, hcompiles⟩ := exists_of_mem_results hassembled.composes hchild
  obtain ⟨bytes, archive, manifest, blobs, delegated, hread⟩ := compileChild_read hcompiles
  exact ⟨child, hlisted, bytes, archive, manifest, blobs, delegated, hread,
    hread.holds hdistinct (hread.handled hlisted)⟩

omit hdistinct in
theorem Assembled.layer (hlayer : compiled ∈ layers) :
    Handled upstream packager workspace root noBuildCache specification compiled.content ∧
      compiled.layer.content = upstream.addressBytes compiled.content := by
  obtain ⟨layer, hlisted, hcompiles⟩ := exists_of_mem_results hassembled.compiles hlayer
  obtain ⟨hcontent, hnamed⟩ := compileLayer_ok hcompiles
  exact ⟨.layer hlisted hcontent, hnamed⟩

/-- The blobs of an assembly are everything that went into it. -/
theorem Assembled.holds :
    Holds upstream (assemblyOf upstream specification encodedSet layers children).blobs
        (Packed encodedSet layers children) ∧
      ∀ content, Packed encodedSet layers children content →
        Handled upstream packager workspace root noBuildCache specification content := by
  have hset : Handled upstream packager workspace root noBuildCache specification encodedSet :=
    .required hassembled.required
  have hlayers : ∀ content ∈ layers.map (·.content),
      Handled upstream packager workspace root noBuildCache specification content := by
    intro content hcontent
    obtain ⟨compiled, hcompiled, rfl⟩ := List.mem_map.mp hcontent
    exact (hassembled.layer hcompiled).1
  have hown : ∀ content, content ∈ layers.map (·.content) ∨ content = encodedSet →
      Handled upstream packager workspace root noBuildCache specification content := by
    rintro content (hcontent | rfl)
    · exact hlayers content hcontent
    · exact hset
  have hchildren : ∀ child ∈ children, ∃ held, Holds upstream child.blobs held ∧
      ∀ content, held content →
        Handled upstream packager workspace root noBuildCache specification content := by
    intro compiled hcompiled
    obtain ⟨child, hlisted, bytes, archive, manifest, blobs, delegated, hread, hholds⟩ :=
      hassembled.child hdistinct hcompiled
    exact ⟨_, hholds, hread.handled hlisted⟩
  have hfirst : Holds upstream (insertBlob upstream [] encodedSet) fun content =>
      content = encodedSet :=
    (Holds.nil.put hdistinct (fun _ => False.elim) hset).congr fun content => by simp
  have hsecond := hfirst.putEach hdistinct
    (fun content (hcontent : content = encodedSet) => hcontent ▸ hset) _ hlayers
  have hthird := hsecond.putChildren hdistinct hown children hchildren
  refine ⟨?_, ?_⟩
  · rw [List.foldl_map] at hthird
    exact hthird
  · rintro content (⟨compiled, hcompiled, hcontent⟩ | hcontent)
    · obtain ⟨held, hholds, hhandled⟩ := hchildren compiled hcompiled
      obtain ⟨blob, hblob, rfl⟩ := List.mem_map.mp hcontent
      exact hhandled _ ((hholds.members _).mp ⟨blob, hblob, rfl⟩)
    · exact hown content hcontent

/-- What is packed is held under its address. -/
theorem Assembled.held (hpacked : Packed encodedSet layers children content) :
    Held upstream (contentOf (assemblyOf upstream specification encodedSet layers children).blobs)
      (upstream.addressBytes content) content :=
  ⟨(hassembled.holds hdistinct).1.lookup.mpr ⟨hpacked, rfl⟩, rfl⟩

omit hassembled hdistinct in
/-- What a child passes on is packed with the rest. -/
theorem packed_child {contents : Bytes → Prop} (hchild : compiled ∈ children)
    (hholds : Holds upstream compiled.blobs contents) (hcontent : contents content) :
    Packed encodedSet layers children content := by
  obtain ⟨blob, hblob, rfl⟩ := (hholds.members _).mpr hcontent
  exact .inl ⟨compiled, hchild, List.mem_map.mpr ⟨blob, hblob, rfl⟩⟩

theorem Assembled.supplied (hlawful : Lawful upstream packager) :
    Supplied upstream
      (contentOf (assemblyOf upstream specification encodedSet layers children).blobs)
      (assemblyOf upstream specification encodedSet layers children).manifest where
  requires := by
    obtain ⟨capabilities, rfl⟩ := compileCapabilities_set hassembled.required
    exact ⟨_, hassembled.held hdistinct (.inr (.inr rfl)), hlawful.sets capabilities⟩
  layers := by
    intro layer hlayer
    obtain ⟨compiled, hcompiled, rfl⟩ := List.mem_map.mp hlayer
    rw [(hassembled.layer hcompiled).2]
    exact ⟨_, hassembled.held hdistinct (.inr (.inl (List.mem_map_of_mem hcompiled)))⟩
  delegated := by
    intro child hchild
    obtain ⟨compiled, hcompiled, rfl⟩ := List.mem_map.mp hchild
    obtain ⟨source, -, bytes, archive, manifest, blobs, delegated, hread, hholds⟩ :=
      hassembled.child hdistinct hcompiled
    obtain ⟨capabilities, rfl⟩ := compileCapabilities_set hread.delegates
    dsimp only
    rw [hread.capabilities]
    exact ⟨_, hassembled.held hdistinct (packed_child hcompiled hholds (by simp)),
      hlawful.sets capabilities⟩
  children := by
    intro child hchild
    obtain ⟨compiled, hcompiled, rfl⟩ := List.mem_map.mp hchild
    obtain ⟨source, -, bytes, archive, manifest, blobs, delegated, hread, hholds⟩ :=
      hassembled.child hdistinct hcompiled
    obtain ⟨manifestBytes, -, hencodes⟩ := hread.encodes
    dsimp only
    rw [hread.application]
    refine ⟨_, manifest, hassembled.held hdistinct (packed_child hcompiled hholds (by simp)), ?_⟩
    rw [hencodes.canonical]
    exact hencodes

/-- An assembly over whole children is whole. -/
theorem Assembled.whole (hlawful : Lawful upstream packager)
    (hchildren : ∀ child ∈ specification.children, ∀ bytes archive manifestBytes manifest blobs,
      workspace.read (join root child.application) = .ok bytes → upstream.load bytes = .ok archive →
      archive.appManifest = some manifestBytes →
      upstream.decodeManifest manifestBytes = .ok manifest →
      archive.contentBlobs = .ok blobs → Whole upstream (contentOf blobs) manifest) :
    Whole upstream (contentOf (assemblyOf upstream specification encodedSet layers children).blobs)
      (assemblyOf upstream specification encodedSet layers children).manifest := by
  refine .intro (hassembled.supplied hdistinct hlawful) fun below hbelow => ?_
  obtain ⟨child, hchild, bytes, hbytes, hdecode⟩ := hbelow
  obtain ⟨compiled, hcompiled, rfl⟩ := List.mem_map.mp hchild
  obtain ⟨source, hlisted, archiveBytes, archive, manifest, blobs, delegated, hread, hholds⟩ :=
    hassembled.child hdistinct hcompiled
  obtain ⟨manifestBytes, hfound, hencodes⟩ := hread.encodes
  -- what stands under the child's kappa is the manifest its archive was read as
  have hheld := hassembled.held hdistinct
    (packed_child hcompiled hholds (List.mem_append_left _ List.mem_cons_self))
  dsimp only at hbytes
  rw [hread.application, hheld.found] at hbytes
  obtain rfl := Option.some.inj hbytes
  rw [hencodes.canonical] at hdecode
  obtain rfl := Except.ok.inj (hencodes.decodes.symm.trans hdecode)
  refine (hchildren source hlisted _ archive _ manifest blobs hread.read hread.loads hfound
    hencodes.decodes hread.unpacks).mono fun kappa content hcontent => ?_
  obtain ⟨hmember, rfl⟩ := hread.packed.lookup.mp hcontent
  refine (hassembled.held hdistinct (packed_child hcompiled hholds ?_)).found
  exact List.mem_append_left _ (List.mem_cons_of_mem _ (List.mem_map.mpr hmember))

end

end Assembly

section Emission
variable {R C : Type} {upstream : Upstream} {packager : Packager} {workspace : Workspace R C}
  {root path : Bytes} {noBuildCache : Bool} {specification : CompileManifest}
  {assembly : Assembly R C} {compiled : CompiledHolo R C}

/-- A directory that reads back is the one its archive is verified against, in whatever order
the blobs come. -/
theorem verifyRequired_written {manifest : AppManifest} {blobs order : List (Bytes × Bytes)}
    (hderive : Directory.derive upstream manifest blobs = .ok directory)
    (hread : upstream.directoryFromSlice (upstream.directoryToVec directory) = .ok directory)
    (horder : order.Perm blobs) :
    Directory.verifyRequired upstream manifest [Directory.encode upstream directory] order =
      .ok directory := by
  obtain ⟨hschema, hlayers⟩ := Directory.derive_checked hderive
  have hdecode : Directory.decode upstream (Directory.encode upstream directory) = .ok directory :=
    Directory.decode_ok.mpr ⟨directory, hread, hschema, directory.layers, hlayers, rfl⟩
  exact Directory.verifyRequired_ok.mpr
    ⟨_, rfl, hdecode, Directory.derive_perm horder hderive⟩

/-- What packaging wrote and reported. -/
structure Written (upstream : Upstream) (packager : Packager) (source : Bytes)
    (assembly : Assembly R C) (packaging : HoloPackaging) (compiled : CompiledHolo R C)
    (directory : HoloDirectory) (archive : Archive) : Prop where
  derives : Directory.derive upstream assembly.manifest (embeddedBlobs packaging assembly) =
    .ok directory
  finishes : packager.finish
    { appManifest := upstream.canonicalizeManifest assembly.manifest
      metadata := source
      extensions := [(Directory.directoryExtensionKey, Directory.encode upstream directory)]
      contentBlobs := embeddedBlobs packaging assembly } = .ok compiled.bytes
  loads : upstream.load compiled.bytes = .ok archive
  layerCount : compiled.layerCount = assembly.manifest.layers.length
  childCount : compiled.childCount = assembly.manifest.children.length
  capabilitiesKappa : compiled.capabilitiesKappa = assembly.manifest.requires
  identity : compiled.identity =
    { archiveKappa := upstream.addressBytes compiled.bytes
      archiveFingerprint := hex archive.fingerprint
      applicationKappa :=
        upstream.addressBytes (upstream.canonicalizeManifest assembly.manifest) }
  provenance : compiled.buildProvenance.layers = assembly.provenance

theorem package_written {source : Bytes}
    (h : package upstream packager packaging source assembly = .ok compiled) :
    ∃ directory archive,
      Written upstream packager source assembly packaging compiled directory archive := by
  obtain ⟨directory, hderive, h⟩ := bind_ok.mp h
  obtain ⟨bytes, hfinish, h⟩ := bind_ok.mp h
  obtain ⟨archive, hload, h⟩ := bind_ok.mp h
  cases h
  exact ⟨directory, archive, hderive, mapError_ok.mp hfinish, mapError_ok.mp hload, rfl, rfl, rfl,
    rfl, rfl⟩

/-- What a loader and a planner find in an archive that was written. -/
theorem Written.read {source : Bytes} (hlawful : Lawful upstream packager)
    (hwritten : Written upstream packager source assembly packaging compiled directory archive)
    (hvalid : upstream.validateManifest assembly.manifest = .ok ())
    (hdirectory : upstream.directoryFromSlice (upstream.directoryToVec directory) = .ok directory) :
    ∃ found blobs, readSource upstream compiled.bytes = .ok found ∧
      found.identity = compiled.identity ∧ found.manifest = assembly.manifest ∧
      blobs.Perm (embeddedBlobs packaging assembly) ∧
      embeddedTable blobs [] = .ok found.embedded := by
  obtain ⟨hcurrent, loaded, blobs, hload, hmanifest, hextensions, hblobs, hperm⟩ :=
    hlawful.archives _ _ hwritten.finishes
  obtain rfl := Except.ok.inj (hwritten.loads.symm.trans hload)
  have hdecode := hlawful.manifests _ hvalid
  have hverify := verifyRequired_written hwritten.derives hdirectory hperm
  obtain ⟨-, indexed, hindexed⟩ := verifyRequired_derives hverify
  obtain ⟨embedded, hembedded⟩ := indexBlobs_labels hindexed []
  have hdirectories : Directory.directoriesOf
      [(Directory.directoryExtensionKey, Directory.encode upstream directory)] =
        [Directory.encode upstream directory] := by
    simp [Directory.directoriesOf]
  refine ⟨⟨compiled.identity, assembly.manifest, assembly.manifest, embedded⟩, blobs, ?_, rfl, rfl,
    hperm, hembedded⟩
  unfold readSource
  rw [hcurrent, ok_bind, hload]
  simp only [liftHolo, Except.mapError, ok_bind, hmanifest, hdecode, hvalid, hextensions, hblobs,
    hdirectories, hverify, hembedded, hwritten.identity]

/-- A sealed archive is whole over its blobs as the loader hands them out. -/
theorem Sealed.content {bytes manifestBytes : Bytes} {blobs : List (Bytes × Bytes)}
    (h : Sealed upstream bytes source) (hload : upstream.load bytes = .ok archive)
    (hfound : archive.appManifest = some manifestBytes)
    (hdecode : upstream.decodeManifest manifestBytes = .ok manifest)
    (hblobs : archive.contentBlobs = .ok blobs) : Whole upstream (contentOf blobs) manifest := by
  obtain ⟨loaded, givenBytes, given, hload', hfound', hdecode', hgiven, hembedded, directory,
    directories, hverify⟩ := (readSource_read h.read).loaded
  obtain rfl := Except.ok.inj (hload.symm.trans hload')
  obtain rfl := Option.some.inj (hfound.symm.trans hfound')
  obtain rfl := Except.ok.inj (hdecode.symm.trans hdecode')
  obtain rfl := Except.ok.inj (hblobs.symm.trans hgiven)
  obtain ⟨-, indexed, hindexed⟩ := verifyRequired_derives hverify
  have hsame : (fun kappa => source.embedded.lookup kappa) = contentOf blobs := by
    funext kappa
    rw [embeddedTable_lookup (indexBlobs_holds hindexed).nodup hembedded]
    simp
  rw [← hsame]
  exact h.whole

/-- A build over sealed children is whole over everything it gathered, and nothing of that
can be taken for the application itself. -/
theorem Emission.whole (hlawful : Lawful upstream packager)
    (hemission : Emission upstream packager workspace root noBuildCache specification path packaging
      assembly compiled)
    (hchildren : ∀ child ∈ specification.children, ∀ bytes,
      workspace.read (join root child.application) = .ok bytes →
      ∃ source, Sealed upstream bytes source) :
    Whole upstream (contentOf assembly.blobs) assembly.manifest ∧
      Fixed upstream (contentOf assembly.blobs) compiled.identity.applicationKappa
        assembly.manifest := by
  obtain ⟨source, -, hpackage⟩ := hemission.written
  obtain ⟨directory, archive, hwritten⟩ := package_written hpackage
  obtain ⟨encodedSet, layers, children, hassembled, rfl⟩ := assemble_ok hemission.assembles
  obtain ⟨hholds, hhandled⟩ := hassembled.holds hemission.distinct
  refine ⟨hassembled.whole hemission.distinct hlawful ?_, ?_⟩
  · intro child hchild bytes loaded manifestBytes manifest packed hfile hload hbytes hdecode hpacked
    obtain ⟨inner, hsealed⟩ := hchildren child hchild bytes hfile
    exact hsealed.content hload hbytes hdecode hpacked
  · rw [hwritten.identity]
    intro content manifest hfound hdecode
    obtain ⟨hpacked, haddress⟩ := hholds.lookup.mp hfound
    obtain rfl := hemission.distinct (hhandled content hpacked) (.application hemission.assembles)
      haddress
    exact Except.ok.inj (hdecode.symm.trans (hlawful.manifests _ hassembled.valid))

/-- What planning reads of an archive that was built. -/
theorem Emission.reads (hlawful : Lawful upstream packager)
    (hemission : Emission upstream packager workspace root noBuildCache specification path packaging
      assembly compiled) :
    ∃ found, readSource upstream compiled.bytes = .ok found ∧
      found.identity = compiled.identity ∧ found.manifest = assembly.manifest ∧
      ∀ kappa, found.embedded.lookup kappa =
        if packaging = .fat then contentOf assembly.blobs kappa else none := by
  obtain ⟨source, -, hpackage⟩ := hemission.written
  obtain ⟨directory, archive, hwritten⟩ := package_written hpackage
  obtain ⟨encodedSet, layers, children, hassembled, rfl⟩ := assemble_ok hemission.assembles
  obtain ⟨found, blobs, hread, hidentity, hmanifest, hperm, hembedded⟩ :=
    hwritten.read hlawful hassembled.valid (hemission.directory _ hwritten.derives)
  refine ⟨found, hread, hidentity, hmanifest, fun kappa => ?_⟩
  cases packaging with
  | thin =>
    obtain rfl := List.perm_nil.mp hperm
    have hnone : [] = found.embedded := Except.ok.inj hembedded
    rw [← hnone]
    rfl
  | fat =>
    obtain ⟨hholds, -⟩ := hassembled.holds hemission.distinct
    have hlisted := hholds.perm (hperm.trans (List.perm_insertionSort _ _))
    rw [embeddedTable_lookup hlisted.nodup hembedded, if_pos rfl]
    refine Option.ext fun content => ?_
    rw [List.lookup_nil, Option.or_none, hlisted.lookup, hholds.lookup]

/-- Whatever was built from archives that were built is sealed. -/
theorem Emitted.sealed (hlawful : Lawful upstream packager)
    (h : Emitted upstream packager bytes) : ∃ source, Sealed upstream bytes source := by
  induction h with
  | built emission children ih =>
    obtain ⟨found, hread, hidentity, hmanifest, hembedded⟩ := emission.reads hlawful
    obtain ⟨hwhole, hfixed⟩ := emission.whole hlawful ih
    simp only [if_true] at hembedded
    refine ⟨found, hread, ?_, ?_⟩
    · rw [hmanifest, funext hembedded]
      exact hwhole
    · rw [hmanifest, hidentity, funext hembedded]
      exact hfixed

/-- A manifest that is accepted has a primary layer exactly where it is no library. -/
theorem readSpecification_library
    (h : readSpecification upstream packager workspace path = .ok (source, specification)) :
    specification.library = specification.primary.isNone := by
  obtain ⟨given, -, h⟩ := bind_ok.mp h
  obtain ⟨parsed, -, h⟩ := bind_ok.mp h
  obtain ⟨hvalidate, h⟩ := check_ok.mp h
  cases h
  obtain ⟨-, hvalidate⟩ := guard_ok.mp hvalidate
  exact not_not.mp (guard_ok.mp hvalidate).1

/-- A store that has whatever is packed in an assembly. -/
def Stocks (resolver : Resolver) (assembly : Assembly R C) : Prop :=
  ∀ history kappa content, contentOf assembly.blobs kappa = some content →
    resolver history kappa = .ok (some content)

/-- A fat archive built from archives that were built plans out of itself, though the resolver
may fail whenever it is asked, and a thin one does over a store that has its contents: it is
planned as the application that the build reported, and only a limit or being a library can
stand against it. -/
theorem compiled_plans (hlawful : Lawful upstream packager)
    (hemission : Emission upstream packager workspace root noBuildCache specification path packaging
      assembly compiled)
    (hchildren : ∀ child ∈ specification.children, ∀ bytes,
      workspace.read (join root child.application) = .ok bytes → Emitted upstream packager bytes)
    (limits : PlanLimits) (resolver : Resolver)
    (hstocks : packaging = .thin → Stocks resolver assembly) : ∃ report,
      explainApplication upstream compiled.bytes limits resolver = .ok report ∧
      report.identity = compiled.identity ∧
      report.requiresKappa = compiled.capabilitiesKappa ∧
      report.layers.length = compiled.layerCount ∧
      ∀ blocker ∈ report.blockers,
        blocker.Limits ∨ blocker = .libraryArchive ∧ specification.library = true := by
  obtain ⟨found, hread, hidentity, hmanifest, hembedded⟩ := hemission.reads hlawful
  obtain ⟨hwhole, hfixed⟩ := hemission.whole hlawful fun child hchild bytes hfile =>
    (hchildren child hchild bytes hfile).sealed hlawful
  have hfurnishes : Furnishes found.embedded resolver (contentOf assembly.blobs) := by
    refine ⟨fun kappa content hcontent => ?_⟩
    rw [hembedded]
    cases packaging with
    | fat => exact .inl hcontent
    | thin => exact .inr ⟨rfl, fun history => hstocks rfl history kappa content hcontent⟩
  rw [← hmanifest] at hwhole hfixed
  rw [← hidentity] at hfixed
  obtain ⟨walk, hwalk, hblockers⟩ := explain_whole hlawful.canonical hread hwhole hfixed hfurnishes
    limits
  obtain ⟨source, hspecification, hpackage⟩ := hemission.written
  obtain ⟨directory, archive, hwritten⟩ := package_written hpackage
  obtain ⟨encodedSet, layers, children, hassembled, rfl⟩ := assemble_ok hemission.assembles
  refine ⟨_, hwalk, hidentity, ?_, ?_, fun blocker hblocker => ?_⟩
  · rw [hwritten.capabilitiesKappa, ← hmanifest]
    rfl
  · rw [hwritten.layerCount, ← hmanifest]
    simp [reportOf, plannedLayers_length]
  · refine (hblockers blocker hblocker).imp_right ?_
    rintro ⟨rfl, hprimary⟩
    refine ⟨rfl, ?_⟩
    rw [readSpecification_library hspecification]
    rw [hmanifest] at hprimary
    exact Option.isNone_iff_eq_none.mpr hprimary

end Emission

/-! ### A child and the application it is part of -/

section Sample

def childArchive : Bytes := [72, 79, 76, 79, 4, 0, 1]

def parentArchive : Bytes := [72, 79, 76, 79, 4, 0, 2]

def sampleLayer (kappa : String) : Layer := ⟨.tensorPlan, kappa, "session", ""⟩

/-- The two manifests, and the two that stand for them while their sources are checked. -/
def sampleManifests : List (Bytes × AppManifest) :=
  [([97], ⟨some 0, "c", [sampleLayer "d"], []⟩),
    ([98], ⟨some 0, "c", [sampleLayer "d"], [("a", "c")]⟩),
    ([1], ⟨some 0, "", [sampleLayer ""], []⟩), ([2], ⟨some 0, "", [sampleLayer ""], [("", "")]⟩)]

def sampleDirectory (children : List HoloChild) (blobs : List HoloBlob) : HoloDirectory :=
  ⟨1, some 0, "c", [⟨0, "tensor", "d", "session", none, none, none, none⟩], children, blobs⟩

def sampleCatalog : Catalog where
  archives :=
    [(childArchive,
      ⟨[1], some [97], .ok [(Directory.directoryExtensionKey, [101])],
        .ok [([99], [99]), ([100], [100])]⟩),
      (parentArchive,
      ⟨[2], some [98], .ok [(Directory.directoryExtensionKey, [102])],
        .ok [([97], [97]), ([99], [99]), ([100], [100])]⟩)]
  manifests := sampleManifests
  capabilities := [([99], {})]
  directories :=
    [([101], sampleDirectory [] [⟨"c", 1⟩, ⟨"d", 1⟩]),
      ([102], sampleDirectory [{ position := 0, applicationKappa := "a", capabilitiesKappa := "c" }]
        [⟨"a", 1⟩, ⟨"c", 1⟩, ⟨"d", 1⟩])]

/-- Crates that know these manifests and the one empty set. -/
def sampleUpstream : Upstream :=
  { sampleCatalog.upstream with
    validateManifest := fun manifest =>
      if manifest ∈ sampleManifests.map Prod.snd then .ok () else .error "unknown manifest"
    canonicalizeCapabilities := fun _ => [99] }

def childSpecification : CompileManifest where
  schemaVersion := 4
  primary := some 0
  layers := [{ kind := .tensor, path := some [120] }]

def parentSpecification : CompileManifest :=
  { childSpecification with children := [⟨[112], [115]⟩] }

def childSections : Sections :=
  ⟨[97], [10], [(Directory.directoryExtensionKey, [101])], [([99], [99]), ([100], [100])]⟩

def parentSections : Sections :=
  ⟨[98], [11], [(Directory.directoryExtensionKey, [102])],
    [([97], [97]), ([99], [99]), ([100], [100])]⟩

def samplePackager : Packager where
  componentV1 := "component"
  componentContracts := ["component"]
  viewEntry := "index.html"
  debug text := text
  parseManifest := decodeListed [([10], childSpecification), ([11], parentSpecification)]
  parseCapabilities :=
    decodeListed [([12], {}), ([13], { schemaVersion := 1, networkFetch := some false })]
  parseScope := .ok
  parseLabel := .ok
  references bytes :=
    match decodeListed sampleManifests bytes with
    | .ok manifest => .ok manifest.names
    | .error error => .error error
  finish sections :=
    if sections = childSections then .ok childArchive
    else if sections = parentSections then .ok parentArchive
    else .error "unknown sections"

def sampleWorkspace : Workspace Unit Unit where
  host := "x86_64"
  read := decodeListed
    [([109], [10]), ([110], [11]), ([112], childArchive), ([115], [12]), ([120], [100])]
  compileDirectory _ := .error (.config "no view")
  compileRootfs _ _ _ _ := .error (.config "no builder")
  compileComponent _ _ := .error (.config "no builder")
  checkRootfs _ _ _ := .error (.config "no builder")
  checkComponent _ _ := .error (.config "no builder")

theorem sampleUpstream_injective : Function.Injective sampleUpstream.addressBytes := by
  have hcodes : ∀ code < 256, (Char.ofNat code).toNat = code := by decide +kernel
  have hbyte : Function.Injective fun byte : UInt8 => Char.ofNat byte.toNat := by
    intro left right h
    have hsame := congrArg Char.toNat h
    dsimp only at hsame
    rw [hcodes _ left.toNat_lt, hcodes _ right.toNat_lt] at hsame
    exact UInt8.toNat_inj.mp hsame
  intro left right h
  exact List.map_injective_iff.mpr hbyte (String.ofList_injective h)

theorem sample_lawful : Lawful sampleUpstream samplePackager where
  manifests manifest h := by
    obtain ⟨entry, hentry, rfl⟩ : ∃ entry ∈ sampleManifests, entry.2 = manifest := by
      have hknown : manifest ∈ sampleManifests.map Prod.snd := by
        by_contra hunknown
        simp [sampleUpstream, hunknown] at h
      simpa using hknown
    have hall : ∀ entry ∈ sampleManifests,
        decodeListed sampleManifests (encodeListed sampleManifests entry.2) = .ok entry.2 := by
      decide
    exact hall entry hentry
  sets _ := by
    have hempty : decodeCanonical sampleUpstream [99] = .ok {} := by decide
    exact ⟨{}, hempty⟩
  archives sections bytes h := by
    dsimp only [samplePackager] at h
    split at h
    · rename_i hchild
      cases h
      exact hchild ▸ ⟨by decide, _, _, rfl, rfl, rfl, rfl, .refl _⟩
    split at h
    · rename_i hparent
      cases h
      exact hparent ▸ ⟨by decide, _, _, rfl, rfl, rfl, rfl, .refl _⟩
    · cases h

def childAssembly : Assembly Unit Unit where
  manifest := ⟨some 0, "c", [sampleLayer "d"], []⟩
  blobs := [([100], [100]), ([99], [99])]
  provenance := []

def parentAssembly : Assembly Unit Unit where
  manifest := ⟨some 0, "c", [sampleLayer "d"], [("a", "c")]⟩
  blobs := [([97], [97]), ([100], [100]), ([99], [99])]
  provenance := []

def childCompiled : CompiledHolo Unit Unit :=
  ⟨childArchive, 1, 0, .fat, ⟨sampleUpstream.addressBytes childArchive, "01", "a"⟩, "c",
    ⟨1, false, []⟩⟩

def parentCompiled : CompiledHolo Unit Unit :=
  ⟨parentArchive, 1, 1, .fat, ⟨sampleUpstream.addressBytes parentArchive, "02", "b"⟩, "c",
    ⟨1, false, []⟩⟩

theorem child_emission : Emission sampleUpstream samplePackager sampleWorkspace [] false
    childSpecification [109] .fat childAssembly childCompiled where
  written := ⟨[10], by rfl, by rfl⟩
  assembles := by rfl
  distinct := sampleUpstream_injective.injOn
  directory directory h := by
    have hderive : Directory.derive sampleUpstream childAssembly.manifest
      (embeddedBlobs .fat childAssembly) = .ok (sampleDirectory [] [⟨"c", 1⟩, ⟨"d", 1⟩]) := by rfl
    obtain rfl := Except.ok.inj (hderive.symm.trans h)
    rfl

theorem parent_emission : Emission sampleUpstream samplePackager sampleWorkspace [] false
    parentSpecification [110] .fat parentAssembly parentCompiled where
  written := ⟨[11], by rfl, by rfl⟩
  assembles := by rfl
  distinct := sampleUpstream_injective.injOn
  directory directory h := by
    have hderive : Directory.derive sampleUpstream parentAssembly.manifest
        (embeddedBlobs .fat parentAssembly) =
      .ok (sampleDirectory [{ position := 0, applicationKappa := "a", capabilitiesKappa := "c" }]
        [⟨"a", 1⟩, ⟨"c", 1⟩, ⟨"d", 1⟩]) := by rfl
    obtain rfl := Except.ok.inj (hderive.symm.trans h)
    rfl

theorem sample_children : ∀ child ∈ parentSpecification.children, ∀ bytes,
    sampleWorkspace.read (join [] child.application) = .ok bytes →
    Emitted sampleUpstream samplePackager bytes := by
  intro child hchild bytes hread
  obtain rfl := List.mem_singleton.mp hchild
  have hfile : sampleWorkspace.read (join [] [112]) = .ok childArchive := by rfl
  obtain rfl := Except.ok.inj (hfile.symm.trans hread)
  exact .built child_emission fun child hchild => by cases hchild

/-- The parent's archive plans, though nothing can be asked for. -/
theorem compiled_plans_sample : ∃ report,
    explainApplication sampleUpstream parentArchive {} (fun _ _ => .error (.io "no store")) =
      .ok report ∧
    report.identity = parentCompiled.identity ∧ report.requiresKappa = "c" ∧
    report.layers.length = 1 ∧
    ∀ blocker ∈ report.blockers,
      blocker.Limits ∨ blocker = .libraryArchive ∧ parentSpecification.library = true :=
  compiled_plans sample_lawful parent_emission sample_children {} _ nofun

end Sample
end HologramLive.Compile
