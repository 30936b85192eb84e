import HologramLive.Catalog.Archives
import HologramLive.Lib.Interleaving
import Mathlib.Data.Set.Function

namespace HologramLive.HoloCatalog
open Lib Lib.Result Lib.Lookup Lib.Interleaving Store Plan

/-- The calls the daemon's surfaces make on its store. -/
inductive Call where
  | put (now : Nat) (kind mediaType : String) (filename : Option String) (bytes : Bytes)
  | renameFile (id filename : String)
  | importHolo (now : Nat) (name : String) (bytes : Bytes)
  | removeHolo (kappa : String)
  | cacheAddressed (id : String) (bytes : Bytes) (maxNewBytes : Nat)

/-- The store beside what its callers know of the catalog: the archives whose import
succeeded and that were not removed since. -/
structure Shelf where
  store : ObjectStore := {}
  held : String → Option Bytes := fun _ => none

def step (catalog : HoloCatalog) (shelf : Shelf) : Call → Option Shelf
  | .put now kind mediaType filename bytes =>
    let (_, store) := shelf.store.put catalog.blake3 now kind mediaType filename bytes
    some { shelf with store }
  | .renameFile id filename =>
    match shelf.store.renameFile catalog.debug id filename with
    | .ok (_, store) => some { shelf with store }
    | .error _ => some shelf
  | .importHolo now name bytes =>
    match catalog.importHolo shelf.store now name bytes with
    | (.ok inspection, store) =>
      some { store, held := Function.update shelf.held inspection.kappa (some bytes) }
    | (.error _, store) => some { shelf with store }
  | .removeHolo kappa =>
    match catalog.remove shelf.store kappa with
    | .ok store => some { store, held := Function.update shelf.held kappa none }
    | .error _ => some shelf
  | .cacheAddressed id bytes maxNewBytes =>
    match shelf.store.cacheAddressedBounded catalog.blake3 catalog.debug id bytes maxNewBytes with
    | .ok (_, store) => some { shelf with store }
    | .error _ => some shelf

/-- The contents a call brings are among the given ones, those embedded in an archive
included. -/
def Call.Brings (catalog : HoloCatalog) (contents : Set Bytes) : Call → Prop
  | .put _ _ _ _ bytes | .cacheAddressed _ bytes _ => bytes ∈ contents
  | .importHolo _ _ bytes => bytes ∈ contents ∧
    ∀ blobs, catalog.contentBlobs bytes = .ok blobs → ∀ blob ∈ blobs, blob.2 ∈ contents
  | .renameFile _ _ | .removeHolo _ => True

/-- A put leaves the catalog alone: its kind is that of archives exactly when its contents
are a cataloged one. -/
def Call.Apart (catalog : HoloCatalog) (shelf : Shelf) : Call → Prop
  | .put _ kind _ _ bytes => kind = "holo" ↔ (shelf.held (address catalog.blake3 bytes)).isSome
  | _ => True

/-- The records that make up the catalog are those of the archives that are held, with
their bytes under them. -/
structure Sound (catalog : HoloCatalog) (contents : Set Bytes) (shelf : Shelf) : Prop where
  distinct : (shelf.store.records.map Prod.fst).Nodup
  identified : ∀ digest metadata, (digest, metadata) ∈ shelf.store.records →
    ValidDigest digest ∧ metadata.id = "blake3:" ++ digest
  blobs : ∀ digest bytes, shelf.store.blobs.lookup digest = some bytes →
    hexDigest catalog.blake3 bytes = digest ∧ bytes ∈ contents
  kept : ∀ kappa bytes, shelf.held kappa = some bytes → kappa = address catalog.blake3 bytes ∧
    (∃ inspection, inspectBytes catalog.upstream kappa "" bytes = .ok inspection) ∧
    shelf.store.blobs.lookup (hexDigest catalog.blake3 bytes) = some bytes ∧
    ∃ metadata, shelf.store.records.lookup (hexDigest catalog.blake3 bytes) = some metadata ∧
      metadata.kind = "holo"
  only : ∀ digest metadata, shelf.store.records.lookup digest = some metadata →
    metadata.kind = "holo" → (shelf.held ("blake3:" ++ digest)).isSome

section Steps
variable {catalog : HoloCatalog} {contents : Set Bytes} {shelf after : Shelf}

theorem Sound.start : Sound catalog contents {} :=
  ⟨.nil, nofun, nofun, nofun, nofun⟩

theorem Sound.cached (h : Sound catalog contents shelf) {id : String} {bytes : Bytes}
    {maxNewBytes : Nat} {created : Bool} {store : ObjectStore} (hbytes : bytes ∈ contents)
    (hcache : shelf.store.cacheAddressedBounded catalog.blake3 catalog.debug id bytes maxNewBytes =
      .ok (created, store)) : Sound catalog contents { shelf with store } := by
  obtain ⟨-, rfl | ⟨habsent, rfl⟩⟩ := ObjectStore.cacheAddressedBounded_ok _ _ hcache
  · exact h
  refine ⟨h.distinct, h.identified, fun digest blob hblob => ?_, fun kappa archive hheld => ?_, h.only⟩
  · by_cases hsame : digest = hexDigest catalog.blake3 bytes
    · subst digest
      obtain rfl : bytes = blob := by simpa using hblob
      exact ⟨rfl, hbytes⟩
    · rw [lookup_cons_ne hsame] at hblob
      exact h.blobs digest blob hblob
  · obtain ⟨hkappa, hinspect, hblob, hrecord⟩ := h.kept kappa archive hheld
    refine ⟨hkappa, hinspect, ?_, hrecord⟩
    rw [lookup_cons_ne]
    · exact hblob
    · intro hsame
      rw [hsame, habsent] at hblob
      cases hblob

theorem Sound.cacheBlobs (blobs : List (Bytes × Bytes)) (h : Sound catalog contents shelf)
    (hblobs : ∀ blob ∈ blobs, blob.2 ∈ contents) :
    Sound catalog contents { shelf with store := (catalog.cacheBlobs blobs shelf.store).2 } := by
  induction blobs generalizing shelf with
  | nil => exact h
  | cons blob rest ih =>
    obtain ⟨hfirst, hrest⟩ := List.forall_mem_cons.mp hblobs
    unfold HoloCatalog.cacheBlobs
    split
    · exact h
    split
    · exact h
    · rename_i store hcache
      obtain ⟨⟨created, cached⟩, hbounded, hcached⟩ := bind_ok.mp hcache
      cases hcached
      exact ih (h.cached hfirst hbounded) hrest

/-- Under the digest of given contents stands a blob with these contents, or none. -/
theorem Sound.blob_eq (h : Sound catalog contents shelf) (hinj : Set.InjOn catalog.blake3 contents)
    {bytes blob : Bytes} (hbytes : bytes ∈ contents)
    (hblob : shelf.store.blobs.lookup (hexDigest catalog.blake3 bytes) = some blob) :
    blob = bytes := by
  obtain ⟨hdigest, hgiven⟩ := h.blobs _ blob hblob
  exact hinj hgiven hbytes (hexDigest_inj.mp hdigest)

/-- A call that stores contents. They are held afterwards exactly when they are stored as
an archive, and nothing else is let go. -/
theorem Sound.put (h : Sound catalog contents shelf) (hinj : Set.InjOn catalog.blake3 contents)
    (now : Nat) (kind mediaType : String) (filename : Option String) {bytes : Bytes}
    (hbytes : bytes ∈ contents) {held : String → Option Bytes}
    (hothers : ∀ kappa, kappa ≠ address catalog.blake3 bytes → held kappa = shelf.held kappa)
    (harchive : kind = "holo" → held (address catalog.blake3 bytes) = some bytes ∧
      ∃ inspection, inspectBytes catalog.upstream (address catalog.blake3 bytes) "" bytes =
        .ok inspection)
    (hother : kind ≠ "holo" → held (address catalog.blake3 bytes) = none) :
    Sound catalog contents
      { store := (shelf.store.put catalog.blake3 now kind mediaType filename bytes).2, held } := by
  have hlookup := @ObjectStore.lookup_put catalog.blake3 shelf.store now kind mediaType filename bytes
  have hblobs := @ObjectStore.blobs_put catalog.blake3 shelf.store now kind mediaType filename bytes
  refine ⟨?_, fun digest metadata hmem => ?_, fun digest blob hblob => ?_,
    fun kappa archive hheld => ?_, fun digest metadata hrecord hkind => ?_⟩
  · refine List.nodup_cons.mpr ⟨?_, h.distinct.sublist (List.Sublist.map _ List.filter_sublist)⟩
    simp
  · rcases List.mem_cons.mp hmem with hnew | hold
    · cases hnew
      exact ⟨hexDigest_valid _ _, rfl⟩
    · exact h.identified digest metadata (List.mem_of_mem_filter hold)
  · rw [hblobs] at hblob
    split at hblob
    · rename_i hnew
      obtain rfl := Option.some.inj hblob
      exact ⟨hnew.1.symm, hbytes⟩
    · exact h.blobs digest blob hblob
  · dsimp only at hheld ⊢
    rw [hblobs, hlookup]
    by_cases hsame : kappa = address catalog.blake3 bytes
    · subst kappa
      have hkind : kind = "holo" := by
        by_contra hkind
        rw [hother hkind] at hheld
        cases hheld
      obtain ⟨hnow, hinspect⟩ := harchive hkind
      obtain rfl := Option.some.inj (hnow.symm.trans hheld)
      refine ⟨rfl, hinspect, ?_, _, if_pos rfl, hkind⟩
      cases hblob : shelf.store.blobs.lookup (hexDigest catalog.blake3 bytes) with
      | none => simp
      | some blob => simp [h.blob_eq hinj hbytes hblob]
    · rw [hothers kappa hsame] at hheld
      obtain ⟨hkappa, hinspect, hblob, hrecord⟩ := h.kept kappa archive hheld
      have hdigest : hexDigest catalog.blake3 archive ≠ hexDigest catalog.blake3 bytes := by
        intro hdigest
        exact hsame (by rw [hkappa, address, address, hdigest])
      rw [if_neg (fun hnew => hdigest hnew.1), if_neg hdigest]
      exact ⟨hkappa, hinspect, hblob, hrecord⟩
  · dsimp only at hrecord ⊢
    rw [hlookup] at hrecord
    split at hrecord
    · rename_i hsame
      obtain rfl := Option.some.inj hrecord
      rw [hsame, ← address, (harchive hkind).1]
      rfl
    · rename_i hsame
      rw [hothers]
      · exact h.only digest metadata hrecord hkind
      · exact fun heq => hsame ((String.append_right_inj "blake3:").mp heq)

theorem Sound.renamed (h : Sound catalog contents shelf) {id filename : String}
    {metadata : ObjectMetadata} {store : ObjectStore}
    (hrename : shelf.store.renameFile catalog.debug id filename = .ok (metadata, store)) :
    Sound catalog contents { shelf with store } := by
  obtain ⟨name, -, hrename⟩ := bind_ok.mp hrename
  obtain ⟨digest, hid, hrename⟩ := bind_ok.mp hrename
  split at hrename
  · cases hrename
  rename_i before hbefore
  obtain ⟨hkind, hrename⟩ := guard_ok.mp hrename
  have hfile := not_not.mp hkind
  cases hrename
  have hlookup := shelf.store.lookup_putRecord digest
  refine ⟨?_, fun other metadata hmem => ?_, h.blobs, fun kappa archive hheld => ?_,
    fun other metadata hrecord hholo => ?_⟩
  · refine List.nodup_cons.mpr ⟨?_, h.distinct.sublist (List.Sublist.map _ List.filter_sublist)⟩
    simp
  · rcases List.mem_cons.mp hmem with hnew | hold
    · cases hnew
      exact h.identified digest before (mem_of_lookup hbefore)
    · exact h.identified other metadata (List.mem_of_mem_filter hold)
  · obtain ⟨hkappa, hinspect, hblob, metadata, hrecord, hholo⟩ := h.kept kappa archive hheld
    refine ⟨hkappa, hinspect, hblob, metadata, ?_, hholo⟩
    rw [hlookup, if_neg]
    · exact hrecord
    · intro hsame
      rw [hsame, hbefore] at hrecord
      obtain rfl := Option.some.inj hrecord
      rw [hfile] at hholo
      exact absurd hholo (by decide)
  · rw [hlookup] at hrecord
    split at hrecord
    · obtain rfl := Option.some.inj hrecord
      rw [hfile] at hholo
      exact absurd hholo (by decide)
    · exact h.only other metadata hrecord hholo

theorem Sound.removed (h : Sound catalog contents shelf) {kappa : String} {store : ObjectStore}
    (hremove : catalog.remove shelf.store kappa = .ok store) :
    Sound catalog contents { store, held := Function.update shelf.held kappa none } := by
  obtain ⟨digest, rfl, rfl⟩ := ObjectStore.removeMetadata_ok hremove
  refine ⟨h.distinct.sublist (List.Sublist.map _ List.filter_sublist), fun other metadata hmem =>
    h.identified other metadata (List.mem_of_mem_filter hmem), h.blobs, fun kappa archive hheld => ?_,
    fun other metadata hrecord hholo => ?_⟩
  · dsimp only at hheld ⊢
    rw [Function.update_apply] at hheld
    split at hheld
    · cases hheld
    rename_i hother
    obtain ⟨hkappa, hinspect, hblob, metadata, hrecord, hholo⟩ := h.kept kappa archive hheld
    refine ⟨hkappa, hinspect, hblob, metadata, ?_, hholo⟩
    rw [lookup_filter_ne, if_neg]
    · exact hrecord
    · rintro rfl
      exact hother hkappa
  · dsimp only at hrecord ⊢
    rw [lookup_filter_ne] at hrecord
    split at hrecord
    · cases hrecord
    · rename_i hother
      rw [Function.update_of_ne]
      · exact h.only other metadata hrecord hholo
      · exact fun heq => hother ((String.append_right_inj "blake3:").mp heq)

theorem Sound.imported (h : Sound catalog contents shelf) (hinj : Set.InjOn catalog.blake3 contents)
    (now : Nat) (name : String) {bytes : Bytes}
    (hbrings : (Call.importHolo now name bytes).Brings catalog contents)
    (hstep : step catalog shelf (.importHolo now name bytes) = some after) :
    Sound catalog contents after := by
  have hcached : Sound catalog contents
      { shelf with store := (catalog.cacheContentBlobs shelf.store bytes).2 } := by
    unfold cacheContentBlobs
    split
    · exact h
    · rename_i blobs hblobs
      exact h.cacheBlobs blobs (hbrings.2 blobs hblobs)
  unfold step importHolo at hstep
  cases hinspect : inspectBytes catalog.upstream "pending" name bytes with
  | error error =>
    simp only [hinspect] at hstep
    cases hstep
    exact h
  | ok inspection =>
    simp only [hinspect] at hstep
    cases hcache : catalog.cacheContentBlobs shelf.store bytes with
    | mk result store =>
      rw [hcache] at hcached
      cases result with
      | error error =>
        simp only [hcache] at hstep
        cases hstep
        exact hcached
      | ok _ =>
        simp only [hcache] at hstep
        cases hstep
        apply hcached.put hinj now "holo" holoMediaType (some name) hbrings.1
        · exact fun kappa hkappa => Function.update_of_ne hkappa _ _
        · intro _
          exact ⟨Function.update_self .., _, inspectBytes_renamed hinspect _ _⟩
        · exact fun hkind => absurd rfl hkind

/-- Every call that meets the condition keeps the catalog sound. -/
theorem Sound.step (h : Sound catalog contents shelf) (hinj : Set.InjOn catalog.blake3 contents)
    {call : Call} (hbrings : call.Brings catalog contents) (hapart : call.Apart catalog shelf)
    (hstep : step catalog shelf call = some after) : Sound catalog contents after := by
  cases call with
  | put now kind mediaType filename bytes =>
    cases hstep
    apply h.put hinj now kind mediaType filename hbrings
    · exact fun _ _ => rfl
    · intro hkind
      obtain ⟨archive, harchive⟩ := Option.isSome_iff_exists.mp (hapart.mp hkind)
      obtain ⟨hkappa, hinspect, hblob, -⟩ := h.kept _ archive harchive
      have hdigest := (String.append_right_inj "blake3:").mp hkappa
      rw [← hdigest] at hblob
      obtain rfl := h.blob_eq hinj hbrings hblob
      exact ⟨harchive, hinspect⟩
    · intro hkind
      exact Option.not_isSome_iff_eq_none.mp fun hheld => hkind (hapart.mpr hheld)
  | renameFile id filename =>
    dsimp only [HoloCatalog.step] at hstep
    split at hstep
    · cases hstep
      exact h.renamed ‹_›
    · cases hstep
      exact h
  | importHolo now name bytes => exact h.imported hinj now name hbrings hstep
  | removeHolo kappa =>
    dsimp only [HoloCatalog.step] at hstep
    split at hstep
    · cases hstep
      exact h.removed ‹_›
    · cases hstep
      exact h
  | cacheAddressed id bytes maxNewBytes =>
    dsimp only [HoloCatalog.step] at hstep
    split at hstep
    · cases hstep
      exact h.cached hbrings ‹_›
    · cases hstep
      exact h

end Steps

/-- The catalog lists exactly the archives that are held, each as its bytes inspect, and
every other call on one of them answers by these bytes. What carries an application keeps
being planned. -/
structure Persistent (catalog : HoloCatalog) (shelf : Shelf) : Prop where
  listed : ∃ entries, catalog.list shelf.store = .ok entries ∧
    (entries.map HoloInspection.kappa).Nodup ∧
    (∀ kappa, kappa ∈ entries.map HoloInspection.kappa ↔ (shelf.held kappa).isSome) ∧
    ∀ entry ∈ entries, ∃ bytes, shelf.held entry.kappa = some bytes ∧
      inspectBytes catalog.upstream entry.kappa entry.name bytes = .ok entry
  answered : ∀ kappa archive, shelf.held kappa = some archive →
    catalog.bytes shelf.store kappa = .ok archive ∧
    ∃ inspection, inspectBytes catalog.upstream kappa inspection.name archive = .ok inspection ∧
      catalog.inspect shelf.store kappa = .ok inspection ∧
      catalog.verify shelf.store kappa = .ok inspection ∧
      ((∃ report, catalog.plan shelf.store kappa = .ok report) ↔
        inspection.applicationKappa.isSome)

section Answers
variable {catalog : HoloCatalog} {contents : Set Bytes} {shelf : Shelf}

/-- What the store answers for an archive that is held. -/
theorem Sound.stored (h : Sound catalog contents shelf)
    (hheld : shelf.held kappa = some archive) :
    kappa = address catalog.blake3 archive ∧
    shelf.store.get catalog.debug kappa = .ok archive ∧
    shelf.store.verify catalog.blake3 catalog.debug kappa = .ok true ∧
    ∃ metadata, shelf.store.metadata catalog.debug kappa = .ok metadata ∧
      metadata.kind = "holo" ∧
      ∃ inspection, inspection.name = metadata.filename.getD "application.holo" ∧
        inspectBytes catalog.upstream kappa inspection.name archive = .ok inspection ∧
        catalog.inspectStored shelf.store kappa metadata = .ok inspection := by
  obtain ⟨hkappa, ⟨inspection, hinspect⟩, hblob, metadata, hrecord, hkind⟩ := h.kept kappa archive hheld
  have hid : validateId catalog.debug kappa = .ok (hexDigest catalog.blake3 archive) :=
    validateId_ok.mpr ⟨hkappa, hexDigest_valid _ _⟩
  have hget : shelf.store.get catalog.debug kappa = .ok archive := by
    unfold ObjectStore.get
    rw [hid, ok_bind, hblob]
  refine ⟨hkappa, hget, ?_, metadata, ?_, hkind, { inspection with
    kappa, name := metadata.filename.getD "application.holo" }, rfl, ?_, ?_⟩
  · unfold ObjectStore.verify
    rw [hget, ok_bind, hkappa, decide_eq_true rfl]
  · unfold ObjectStore.metadata
    rw [hid, ok_bind, hrecord]
  · exact inspectBytes_renamed hinspect _ _
  · unfold inspectStored
    rw [hget, ok_bind]
    exact inspectBytes_renamed hinspect _ _

theorem Sound.listed (h : Sound catalog contents shelf) :
    ∃ entries, catalog.list shelf.store = .ok entries ∧
      (entries.map HoloInspection.kappa).Nodup ∧
      (∀ kappa, kappa ∈ entries.map HoloInspection.kappa ↔ (shelf.held kappa).isSome) ∧
      ∀ entry ∈ entries, ∃ bytes, shelf.held entry.kappa = some bytes ∧
        inspectBytes catalog.upstream entry.kappa entry.name bytes = .ok entry := by
  have hmem : ∀ metadata, metadata ∈ shelf.store.list (some "holo") ↔ metadata.kind = "holo" ∧
      ∃ digest, (digest, metadata) ∈ shelf.store.records := by
    intro metadata
    simp [ObjectStore.list, List.mem_insertionSort, and_comm]
  have hshown : ∀ metadata ∈ shelf.store.list (some "holo"), ∃ inspection archive,
      shelf.held metadata.id = some archive ∧
      inspectBytes catalog.upstream metadata.id inspection.name archive = .ok inspection ∧
      catalog.inspectStored shelf.store metadata.id metadata = .ok inspection := by
    intro metadata hmetadata
    obtain ⟨hkind, digest, hrecord⟩ := (hmem metadata).mp hmetadata
    obtain ⟨hvalid, hid⟩ := h.identified digest metadata hrecord
    have hlookup := lookup_of_mem h.distinct hrecord
    obtain ⟨archive, hheld⟩ := Option.isSome_iff_exists.mp (h.only digest metadata hlookup hkind)
    obtain ⟨-, -, -, stored, hstored, -, inspection, -, hinspect, hshown⟩ := h.stored hheld
    have hsame : stored = metadata := by
      unfold ObjectStore.metadata at hstored
      rw [validateId_ok.mpr ⟨rfl, hvalid⟩, ok_bind, hlookup] at hstored
      exact (Except.ok.inj hstored).symm
    rw [hid]
    exact ⟨inspection, archive, hheld, hinspect, hsame ▸ hshown⟩
  have hlisted : ∀ metadata ∈ shelf.store.list (some "holo"), ∃ inspection,
      catalog.inspectStored shelf.store metadata.id metadata = .ok inspection := by
    intro metadata hmetadata
    obtain ⟨inspection, _, _, _, hstored⟩ := hshown metadata hmetadata
    exact ⟨inspection, hstored⟩
  obtain ⟨entries, hentries⟩ := exists_mapM_ok hlisted
  have hpointwise := mapM_ok hentries
  have hkappas : (shelf.store.list (some "holo")).map ObjectMetadata.id =
      entries.map HoloInspection.kappa := by
    refine map_eq_of_pointwise hpointwise fun metadata entry hentry => ?_
    obtain ⟨bytes, -, hinspect⟩ := bind_ok.mp hentry
    exact (inspectBytes_names hinspect).1.symm
  refine ⟨entries, hentries, ?_, fun kappa => ?_, fun entry hentry => ?_⟩
  · have hids : (shelf.store.records.map Prod.snd).map ObjectMetadata.id =
        (shelf.store.records.map Prod.fst).map ("blake3:" ++ ·) := by
      simp only [List.map_map]
      exact List.map_congr_left fun record hrecord => (h.identified record.1 record.2 hrecord).2
    have hdistinct : ((shelf.store.records.map Prod.snd).map ObjectMetadata.id).Nodup := by
      rw [hids]
      exact h.distinct.map fun _ _ => (String.append_right_inj "blake3:").mp
    rw [← hkappas]
    refine ((List.perm_insertionSort _ _).map _).nodup_iff.mpr ?_
    exact hdistinct.sublist (List.Sublist.map _ List.filter_sublist)
  · rw [← hkappas]
    constructor
    · intro hlisted
      obtain ⟨metadata, hmetadata, rfl⟩ := List.mem_map.mp hlisted
      obtain ⟨_, archive, hheld, -⟩ := hshown metadata hmetadata
      rw [hheld]
      rfl
    · intro hheld
      obtain ⟨archive, harchive⟩ := Option.isSome_iff_exists.mp hheld
      obtain ⟨rfl, -, -, metadata, hrecord, hkind⟩ := h.kept kappa archive harchive
      have hrecorded := mem_of_lookup hrecord
      exact List.mem_map.mpr ⟨metadata, (hmem metadata).mpr ⟨hkind, _, hrecorded⟩,
        (h.identified _ _ hrecorded).2⟩
  · obtain ⟨metadata, hmetadata, hstored⟩ := exists_of_mem_results hpointwise hentry
    obtain ⟨inspection, archive, hheld, hinspect, hshows⟩ := hshown metadata hmetadata
    obtain rfl := Except.ok.inj (hshows.symm.trans hstored)
    have hkappa := (inspectBytes_names hinspect).1
    rw [hkappa]
    exact ⟨archive, hheld, hinspect⟩

/-- A sound catalog persists. -/
theorem Sound.persistent (h : Sound catalog contents shelf)
    (hcanonical : catalog.upstream.Canonical)
    (hlabels : ∀ bytes manifest, catalog.upstream.decodeManifest bytes = .ok manifest →
      ∀ kappa ∈ manifest.names, ∃ digest, validateId catalog.debug kappa = .ok digest) :
    Persistent catalog shelf := by
  refine ⟨h.listed, fun kappa archive hheld => ?_⟩
  obtain ⟨-, hget, hverify, metadata, hmetadata, hkind, inspection, -, hinspect, hstored⟩ :=
    h.stored hheld
  have hbytes : catalog.bytes shelf.store kappa = .ok archive := by
    unfold HoloCatalog.bytes
    rw [hmetadata, ok_bind, if_neg (not_not.mpr hkind), hverify, ok_bind]
    exact hget
  have hinspected : catalog.inspect shelf.store kappa = .ok inspection := by
    unfold HoloCatalog.inspect
    rw [hmetadata, ok_bind, if_neg (not_not.mpr hkind)]
    exact hstored
  refine ⟨hbytes, inspection, hinspect, hinspected, ?_, ?_⟩
  · unfold HoloCatalog.verify
    rw [hverify, ok_bind]
    exact hinspected
  · have hresponds : Responds catalog.upstream
        (fun _ content => catalog.resolveContent shelf.store content)
        fun kappa => ∃ digest, validateId catalog.debug kappa = .ok digest := by
      refine ⟨hlabels, ?_⟩
      rintro _ content ⟨digest, hdigest⟩
      unfold resolveContent ObjectStore.getCached
      rw [hdigest]
      exact ⟨_, rfl⟩
    rw [← readSource_inspected hcanonical hinspect, ← @explain_total _ _ {} _ hresponds]
    unfold HoloCatalog.plan
    rw [hbytes, ok_bind]
    constructor
    · rintro ⟨report, hreport⟩
      obtain ⟨explained, hexplained, -⟩ := bind_ok.mp hreport
      exact ⟨explained, hexplained⟩
    · rintro ⟨explained, hexplained⟩
      rw [hexplained]
      exact ⟨_, rfl⟩

end Answers

/-- Calls that leave the catalog to its imports and removals keep it: it lists what was
imported and not removed since, and goes on answering for it. -/
theorem catalog_persists (catalog : HoloCatalog) (contents : Set Bytes)
    (hinj : Set.InjOn catalog.blake3 contents) (hcanonical : catalog.upstream.Canonical)
    (hlabels : ∀ bytes manifest, catalog.upstream.decodeManifest bytes = .ok manifest →
      ∀ kappa ∈ manifest.names, ∃ digest, validateId catalog.debug kappa = .ok digest)
    (shelf : Shelf)
    (hreach : Reaches (step catalog)
      (fun shelf call => call.Brings catalog contents ∧ call.Apart catalog shelf) {} shelf) :
    Persistent catalog shelf := by
  have hsound : Sound catalog contents shelf := by
    refine hreach.invariant .start fun before call after hbefore hallows hstep => ?_
    exact hbefore.step hinj hallows.1 hallows.2 hstep
  exact hsound.persistent hcanonical hlabels

/-- Contents are told apart by how they begin. -/
def sampleHash : Blake3 := fun bytes => Vector.replicate 32 (bytes.headD 0)

def sampleArchive : Bytes := [72, 79, 76, 79, 4, 0]

def sampleManifest : AppManifest := ⟨none, address sampleHash [99], [], []⟩

/-- One library archive that embeds the capability set it requires. -/
def sampleCrates : HologramLive.Catalog where
  archives :=
    [(sampleArchive,
      { fingerprint := [1]
        appManifest := some [97]
        extensions := .ok [(Directory.directoryExtensionKey, [101])]
        contentBlobs :=
          .ok [((address sampleHash [99]).toList.map fun c => UInt8.ofNat c.toNat, [99])] })]
  manifests := [([97], sampleManifest)]
  capabilities := [([99], {})]
  directories :=
    [([101],
      { schemaVersion := 1
        primaryLayer := none
        requiresKappa := address sampleHash [99]
        layers := []
        children := []
        blobs := [⟨address sampleHash [99], 1⟩] })]

def sampleCatalog : HoloCatalog where
  upstream := { sampleCrates.upstream with addressBytes := address sampleHash }
  blake3 := sampleHash
  debug text := text.quote
  resident _ _ := .unchecked

def sampleImport : Call := .importHolo 1 "app.holo" sampleArchive

def sampleCalls : List Call :=
  [sampleImport, .put 2 "file" "text/plain" none [1],
    .renameFile (address sampleHash [1]) "note.txt",
    .put 3 "holo" "application/octet-stream" none sampleArchive]

theorem sampleCatalog_canonical : sampleCatalog.upstream.Canonical :=
  sampleCrates.canonical (by decide)

theorem sampleCatalog_labels (bytes : Bytes) (manifest : AppManifest)
    (h : sampleCatalog.upstream.decodeManifest bytes = .ok manifest) :
    ∀ kappa ∈ manifest.names, ∃ digest, validateId sampleCatalog.debug kappa = .ok digest := by
  have hknown : manifest = sampleManifest := by
    have hdecode : decodeListed sampleCrates.manifests bytes = .ok manifest := h
    unfold decodeListed at hdecode
    split at hdecode
    · rename_i hfound
      obtain rfl := Except.ok.inj hdecode
      have hmem := mem_of_lookup hfound
      exact (Prod.mk.inj (List.mem_singleton.mp hmem)).2
    · cases hdecode
  subst hknown
  intro kappa hkappa
  obtain rfl : kappa = address sampleHash [99] := by
    simpa [AppManifest.names, sampleManifest] using hkappa
  exact ⟨_, validateId_ok.mpr ⟨rfl, hexDigest_valid _ _⟩⟩

theorem sampleCatalog_blobs {blobs : List (Bytes × Bytes)}
    (h : sampleCatalog.contentBlobs sampleArchive = .ok blobs) : ∀ blob ∈ blobs, blob.2 = [99] := by
  have hrun : (sampleCatalog.contentBlobs sampleArchive).toOption.map
      (fun blobs => decide (∀ blob ∈ blobs, blob.2 = [99])) = some true := by decide
  rw [h] at hrun
  exact of_decide_eq_true (Option.some.inj hrun)

def sampleAllows (shelf : Shelf) : Call → Bool
  | .put _ kind _ _ bytes => decide (bytes = sampleArchive ∨ bytes = [1]) &&
    (decide (kind = "holo") == (shelf.held (address sampleHash bytes)).isSome)
  | .importHolo _ _ bytes => bytes = sampleArchive
  | .cacheAddressed _ _ _ => false
  | _ => true

theorem sampleAllows_sound (shelf : Shelf) (call : Call) (h : sampleAllows shelf call = true) :
    call.Brings sampleCatalog {sampleArchive, [1], [99]} ∧ call.Apart sampleCatalog shelf := by
  cases call with
  | put now kind mediaType filename bytes =>
    obtain ⟨hbytes, hkind⟩ := Bool.and_eq_true_iff.mp h
    refine ⟨?_, ?_⟩
    · rcases of_decide_eq_true hbytes with rfl | rfl <;> simp [Call.Brings]
    · exact decide_eq_true_iff.symm.trans (Bool.eq_iff_iff.mp (eq_of_beq hkind))
  | importHolo now name bytes =>
    obtain rfl := of_decide_eq_true h
    refine ⟨⟨by simp, fun blobs hblobs blob hblob => ?_⟩, trivial⟩
    rw [sampleCatalog_blobs hblobs blob hblob]
    simp
  | cacheAddressed id bytes maxNewBytes => cases h
  | renameFile id filename => exact ⟨trivial, trivial⟩
  | removeHolo kappa => exact ⟨trivial, trivial⟩

/-- An import, an unrelated file and a second put of the archive under its own kind. -/
theorem catalog_persists_sample : ∃ shelf,
    checked (step sampleCatalog) sampleAllows sampleCalls {} = some shelf ∧
      Persistent sampleCatalog shelf := by
  have hruns : (checked (step sampleCatalog) sampleAllows sampleCalls {}).isSome = true := by
    decide +kernel
  obtain ⟨shelf, hshelf⟩ := Option.isSome_iff_exists.mp hruns
  refine ⟨shelf, hshelf, ?_⟩
  refine catalog_persists sampleCatalog {sampleArchive, [1], [99]} ?_ sampleCatalog_canonical
    sampleCatalog_labels shelf (Reaches.start.checked sampleAllows_sound hshelf)
  rintro _ (rfl | rfl | rfl) _ (rfl | rfl | rfl) hsame
  all_goals first | rfl | exact absurd hsame (by decide)

/-- After an import, one put of other bytes under the kind of archives keeps the catalog
from being listed at all, and one put of the archive's own bytes under another kind takes
it from its catalog. -/
theorem put_breaks_the_catalog :
    (∃ shelf, run (step sampleCatalog)
        [sampleImport, .put 2 "holo" "text/plain" none [1]] {} = some shelf ∧
      shelf.held (address sampleHash sampleArchive) = some sampleArchive ∧
      (∀ entries, sampleCatalog.list shelf.store ≠ .ok entries) ∧
      ¬Persistent sampleCatalog shelf) ∧
    ∃ shelf, run (step sampleCatalog)
        [sampleImport, .put 2 "file" "text/plain" none sampleArchive] {} = some shelf ∧
      shelf.held (address sampleHash sampleArchive) = some sampleArchive ∧
      (sampleCatalog.list shelf.store).toOption = some [] ∧
      ¬Persistent sampleCatalog shelf := by
  constructor
  · have hrun : (run (step sampleCatalog)
        [sampleImport, .put 2 "holo" "text/plain" none [1]] {}).map (fun shelf =>
          (shelf.held (address sampleHash sampleArchive),
            (sampleCatalog.list shelf.store).toOption)) = some (some sampleArchive, none) := by
      decide
    obtain ⟨shelf, hshelf, hafter⟩ := Option.map_eq_some_iff.mp hrun
    obtain ⟨hheld, hlist⟩ := Prod.mk.inj hafter
    have hfails : ∀ entries, sampleCatalog.list shelf.store ≠ .ok entries := by
      intro entries hentries
      rw [hentries] at hlist
      cases hlist
    refine ⟨shelf, hshelf, hheld, hfails, fun hpersists => ?_⟩
    obtain ⟨entries, hentries, -⟩ := hpersists.listed
    exact hfails entries hentries
  · have hrun : (run (step sampleCatalog)
        [sampleImport, .put 2 "file" "text/plain" none sampleArchive] {}).map (fun shelf =>
          (shelf.held (address sampleHash sampleArchive),
            (sampleCatalog.list shelf.store).toOption)) = some (some sampleArchive, some []) := by
      rfl
    obtain ⟨shelf, hshelf, hafter⟩ := Option.map_eq_some_iff.mp hrun
    obtain ⟨hheld, hlist⟩ := Prod.mk.inj hafter
    refine ⟨shelf, hshelf, hheld, hlist, fun hpersists => ?_⟩
    obtain ⟨entries, hentries, -, hmembers, -⟩ := hpersists.listed
    rw [hentries] at hlist
    obtain rfl := Option.some.inj hlist
    have hmissing := (hmembers (address sampleHash sampleArchive)).mpr (by rw [hheld]; rfl)
    cases hmissing

end HologramLive.HoloCatalog
