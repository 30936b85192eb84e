import HologramLive.Artifact.Published
import HologramLive.Artifact.Pull

namespace HologramLive.Artifact
open Lib Lib.Files Lib.Result Store

/-- A pull between a registry that says what it likes at each call and the local store's
files. -/
def serveFetch : Either LayerFetch FileCall β → Source × Verdict → Requests × FileSystem →
    β × (Requests × FileSystem) :=
  Either.serve Source.serve Files.serve

/-- The local files do what they are asked. -/
def Granted (answer : Source × Verdict) : Prop := answer.2 = .granted

def sizeIn (store : DiskStore) (files : FileSystem) (kappa : String) : Nat :=
  match store.cached files kappa with
  | .ok (some bytes) => bytes.length
  | _ => 0

/-- The layers of the manifest that was handed out. -/
def kappasOf (store : DiskStore) (codec : JsonCodec) (requests : Requests) : List String :=
  match requests.bodies with
  | [] => []
  | body :: _ => match ArtifactManifest.decode codec store.debug body with
    | .ok manifest => manifest.layers.map (·.kappa)
    | .error _ => []

/-- Only layers are asked for, only ones that were missing, and none of them twice. -/
structure Sparing (store : DiskStore) (kappas : List String) (before : FileSystem)
    (requests : Requests) : Prop where
  nodup : requests.blobs.Nodup
  missing : ∀ kappa ∈ requests.blobs, kappa ∈ kappas ∧ store.cached before kappa = .ok none

/-- The store has gained blobs that hash to layers, and nothing else of it has changed. -/
structure Gained (store : DiskStore) (kappas : List String) (before after : FileSystem) :
    Prop where
  blobs : ∀ digest, ValidDigest digest →
    after (store.blobPath digest) = before (store.blobPath digest) ∨
      before (store.blobPath digest) = none ∧ ∃ bytes, after (store.blobPath digest) = some bytes ∧
        address store.blake3 bytes = "blake3:" ++ digest ∧ "blake3:" ++ digest ∈ kappas
  records : ∀ digest, ValidDigest digest →
    after (store.metadataPath digest) = before (store.metadataPath digest)

/-- Where the layer loop has come to. -/
structure Pulling (store : DiskStore) (kappas : List String) (before : FileSystem)
    (pulled : Pulled) (state : Requests × FileSystem) : Prop where
  addressed : store.Addressed state.2
  gained : Gained store kappas before state.2
  sparing : Sparing store kappas before state.1
  stored : ∀ kappa ∈ state.1.blobs, ∃ bytes, store.cached state.2 kappa = .ok (some bytes)
  fetched : pulled.layersFetched = state.1.blobs.length
  bytes : pulled.bytesTransferred =
    min (state.1.blobs.map (sizeIn store state.2)).sum DiskStore.u64Max

section Steps
variable {store : DiskStore} {kappas : List String} {before : FileSystem} {pulled : Pulled}
  {state : Requests × FileSystem} {kappa : String}

theorem Gained.refl : Gained store kappas before before :=
  ⟨fun _ _ => .inl rfl, fun _ _ => rfl⟩

/-- What is missing now was missing before. -/
theorem Gained.missing {after : FileSystem} (h : Gained store kappas before after)
    (hmissing : store.cached after kappa = .ok none) : store.cached before kappa = .ok none := by
  obtain ⟨digest, rfl, hvalid, hafter⟩ := DiskStore.cached_ok.mp hmissing
  apply DiskStore.cached_ok.mpr
  refine ⟨digest, rfl, hvalid, ?_⟩
  rcases h.blobs digest hvalid with hsame | ⟨hnone, _⟩
  · rw [← hsame, hafter]
  · exact hnone

theorem Pulling.asked (h : Pulling store kappas before pulled state) (hkappa : kappa ∈ kappas)
    (hmissing : store.cached state.2 kappa = .ok none) :
    Sparing store kappas before (state.1.ask kappa) := by
  have hnew : kappa ∉ state.1.blobs := by
    intro hold
    obtain ⟨bytes, hbytes⟩ := h.stored kappa hold
    rw [hmissing] at hbytes
    cases hbytes
  constructor
  · rw [Requests.ask, List.nodup_append]
    refine ⟨h.sparing.nodup, List.nodup_singleton _, ?_⟩
    rintro old hold other hother rfl
    obtain rfl := List.mem_singleton.mp hother
    exact hnew hold
  · intro other hother
    rcases List.mem_append.mp hother with hold | hlast
    · exact h.sparing.missing other hold
    · obtain rfl := List.mem_singleton.mp hlast
      exact ⟨hkappa, h.gained.missing hmissing⟩

theorem Pulling.present (h : Pulling store kappas before pulled state) :
    Pulling store kappas before pulled.present state :=
  ⟨h.addressed, h.gained, h.sparing, h.stored, h.fetched, h.bytes⟩

section Placed
variable {pid : Nat} {bytes : Bytes} {after : FileSystem}

theorem Gained.placed (h : Gained store kappas before state.2)
    (hkappa : address store.blake3 bytes ∈ kappas)
    (hmissing : store.cached state.2 (address store.blake3 bytes) = .ok none)
    (hupdate : Updating pid (store.blobPath (hexDigest store.blake3 bytes)) bytes state.2 after)
    (hplaced : after (store.blobPath (hexDigest store.blake3 bytes)) = some bytes) :
    Gained store kappas before after := by
  constructor
  · intro digest hvalid
    by_cases hsame : digest = hexDigest store.blake3 bytes
    · subst digest
      obtain ⟨digest, hid, _, hnone⟩ := DiskStore.cached_ok.mp (h.missing hmissing)
      obtain rfl : hexDigest store.blake3 bytes = digest := by simpa [address] using hid
      exact .inr ⟨hnone, bytes, hplaced, rfl, hkappa⟩
    · rw [DiskStore.blob_unmoved hupdate hvalid (DiskStore.blobPath_injective.ne hsame)]
      exact h.blobs digest hvalid
  · intro digest hvalid
    rw [DiskStore.metadata_unmoved hupdate hvalid (DiskStore.blob_ne_metadata _ _).symm]
    exact h.records digest hvalid

/-- A layer that arrived and was put in place. -/
theorem Pulling.placed (h : Pulling store kappas before pulled state)
    (hkappa : address store.blake3 bytes ∈ kappas)
    (hmissing : store.cached state.2 (address store.blake3 bytes) = .ok none)
    (hupdate : Updating pid (store.blobPath (hexDigest store.blake3 bytes)) bytes state.2 after)
    (hplaced : after (store.blobPath (hexDigest store.blake3 bytes)) = some bytes) :
    Pulling store kappas before (pulled.fetched bytes)
      (state.1.ask (address store.blake3 bytes), after) := by
  have hnew : store.cached after (address store.blake3 bytes) = .ok (some bytes) :=
    DiskStore.cached_ok.mpr ⟨_, rfl, hexDigest_valid _ _, hplaced⟩
  have hold : ∀ kappa ∈ state.1.blobs, store.cached after kappa = store.cached state.2 kappa := by
    intro kappa hmem
    apply DiskStore.cached_updating hupdate
    rintro rfl
    obtain ⟨blob, hblob⟩ := h.stored _ hmem
    rw [hmissing] at hblob
    cases hblob
  refine ⟨h.addressed.updating hupdate, h.gained.placed hkappa hmissing hupdate hplaced,
    h.asked hkappa hmissing, ?_, ?_, ?_⟩
  · intro kappa hmem
    rcases List.mem_append.mp hmem with hmem | hlast
    · obtain ⟨blob, hblob⟩ := h.stored kappa hmem
      exact ⟨blob, (hold kappa hmem).trans hblob⟩
    · obtain rfl := List.mem_singleton.mp hlast
      exact ⟨bytes, hnew⟩
  · simp [Pulled.fetched, Requests.ask, h.fetched]
  · have hsizes : state.1.blobs.map (sizeIn store after) = state.1.blobs.map (sizeIn store state.2) := by
      apply List.map_congr_left
      intro kappa hmem
      rw [sizeIn, sizeIn, hold kappa hmem]
    have hsize : sizeIn store after (address store.blake3 bytes) = bytes.length := by
      rw [sizeIn, hnew]
    have hbytes := h.bytes
    simp only [Pulled.fetched, Requests.ask, List.map_append, hsizes, List.map_cons, List.map_nil,
      hsize, List.sum_append, List.sum_cons, List.sum_nil]
    omega

end Placed
end Steps

section Calls
variable {store : DiskStore} {state : Requests × FileSystem} {holds : Requests × FileSystem → Prop}
  {post : Except LiveError γ → Requests × FileSystem → Prop} {kappa : String}

/-- A look at the local store, whose files do what they are asked. -/
theorem ensures_getCached {rest : Option Bytes → PullProgram γ} (hnow : holds state)
    (herror : ∀ error, store.cached state.2 kappa = .error error → post (.error error) state)
    (hfound : ∀ found, store.cached state.2 kappa = .ok found →
      Program.Ensures serveFetch Granted holds post (rest found) state) :
    Program.Ensures serveFetch Granted holds post (getCached store kappa >>= rest) state := by
  apply Program.Ensures.bind fun result after => after = state ∧ result = store.cached state.2 kappa
  · apply Either.ensures_right (store.getCached_ensures (· = .granted) kappa state.2)
    · exact fun _ hgranted => hgranted
    · rintro right rfl
      exact hnow
    · rintro result right rfl ⟨-, hresult⟩
      exact ⟨rfl, hresult fun _ hgranted => hgranted⟩
  · rintro found after - ⟨rfl, hresult⟩
    exact hfound found hresult.symm
  · rintro error after - ⟨rfl, hresult⟩
    exact herror error hresult.symm

theorem ensures_fetch {operation : LayerFetch (Except LiveError α)} {rest : α → PullProgram γ}
    {mapErr : LiveError → LiveError} (hnow : holds state)
    (h : ∀ source : Source, Program.Ensures serveFetch Granted holds post
      (.ofExcept ((source.serve operation state.1).1.mapError mapErr) >>= rest)
      ((source.serve operation state.1).2, state.2)) :
    Program.Ensures serveFetch Granted holds post (fetch operation mapErr >>= rest) state := by
  refine ⟨hnow, ?_⟩
  rintro ⟨source, verdict⟩ -
  exact h source

end Calls

section Pull
variable {store : DiskStore} {codec : JsonCodec} {reference : ArtifactRef} {pid : Nat}
  {kappas : List String} {before : FileSystem} {bodies : List Bytes} {pulled : Pulled}
  {state : Requests × FileSystem}

/-- What holds of a pull at any point after the manifest has come. -/
structure Underway (store : DiskStore) (kappas : List String) (before : FileSystem)
    (bodies : List Bytes) (state : Requests × FileSystem) : Prop where
  bodies : state.1.bodies = bodies
  sparing : Sparing store kappas before state.1

/-- What holds of a pull that has ended, well or not. -/
structure Settled (store : DiskStore) (kappas : List String) (before : FileSystem)
    (state : Requests × FileSystem) : Prop where
  addressed : store.Addressed state.2
  gained : Gained store kappas before state.2
  sparing : Sparing store kappas before state.1

theorem Pulling.settled (h : Pulling store kappas before pulled state) :
    Settled store kappas before state :=
  ⟨h.addressed, h.gained, h.sparing⟩

theorem pullLayers_ensures {layers : List ArtifactLayer} (hlayers : ∀ layer ∈ layers, layer.kappa ∈ kappas)
    (hbodies : state.1.bodies = bodies) (h : Pulling store kappas before pulled state) :
    Program.Ensures serveFetch Granted (Underway store kappas before bodies)
      (fun result state => match result with
        | .ok all => Pulling store kappas before all state ∧
            all.layersFetched + all.layersPresent =
              pulled.layersFetched + pulled.layersPresent + layers.length
        | .error _ => Settled store kappas before state)
      (pullLayers store pid reference layers pulled) state := by
  induction layers generalizing pulled state with
  | nil => exact ⟨⟨hbodies, h.sparing⟩, h, rfl⟩
  | cons layer rest ih =>
    have hrest : ∀ other ∈ rest, other.kappa ∈ kappas :=
      fun other hother => hlayers other (List.mem_cons_of_mem _ hother)
    apply ensures_getCached ⟨hbodies, h.sparing⟩
    · exact fun error _ => h.settled
    · intro found hfound
      cases found with
      | some bytes =>
        apply (ih hrest hbodies h.present).mono
        · exact fun _ hunderway => hunderway
        · intro result state _ hpost
          cases result with
          | error error => exact hpost
          | ok all =>
            refine ⟨hpost.1, hpost.2.trans ?_⟩
            simp only [Pulled.present, List.length_cons]
            omega
      | none =>
        have hkappa := hlayers layer List.mem_cons_self
        have hasked := h.asked hkappa hfound
        apply ensures_fetch ⟨hbodies, h.sparing⟩
        intro source
        cases hreply : source.blob reference.repository layer.kappa with
        | error error =>
          simp only [Source.serve, hreply]
          exact ⟨⟨hbodies, hasked⟩, h.addressed, h.gained, hasked⟩
        | ok bytes =>
          simp only [Source.serve, hreply]
          apply Program.Ensures.bind fun result after => after.1 = state.1.ask layer.kappa ∧
            ((result = .ok () ∧ Pulling store kappas before (pulled.fetched bytes) after) ∨
              (∃ error, result = .error error) ∧ after.2 = state.2)
          · apply Either.ensures_right
            · exact DiskStore.cacheAddressed_places pid hfound
            · exact fun _ hgranted => hgranted
            · exact fun _ _ => ⟨hbodies, hasked⟩
            · rintro result right - (⟨hresult, haddress, hupdate, hplaced⟩ | ⟨hresult, rfl⟩)
              · refine ⟨rfl, .inl ⟨hresult, ?_⟩⟩
                rw [← haddress] at hkappa hfound ⊢
                exact h.placed hkappa hfound hupdate hplaced
              · exact ⟨rfl, .inr ⟨hresult, rfl⟩⟩
          · rintro _ after hunderway ⟨hasks, ⟨-, hpulling⟩ | ⟨⟨error, herror⟩, -⟩⟩
            · apply (ih hrest hunderway.bodies hpulling).mono
              · exact fun _ hunderway => hunderway
              · intro result state _ hpost
                cases result with
                | error error => exact hpost
                | ok all =>
                  refine ⟨hpost.1, hpost.2.trans ?_⟩
                  simp only [Pulled.fetched, List.length_cons]
                  omega
            · cases herror
          · rintro error ⟨requests, files⟩ - ⟨rfl, ⟨hresult, -⟩ | ⟨-, rfl⟩⟩
            · cases hresult
            · exact ⟨h.addressed, h.gained, hasked⟩

theorem confirm_ensures (layers : List ArtifactLayer) (state : Requests × FileSystem) :
    Program.Ensures serveFetch Granted (· = state)
      (fun result _ => result = .ok () →
        ∀ layer ∈ layers, ∃ bytes, store.cached state.2 layer.kappa = .ok (some bytes))
      (confirm store reference layers) state := by
  induction layers with
  | nil => exact ⟨rfl, fun _ _ hmem => nomatch hmem⟩
  | cons layer rest ih =>
    apply ensures_getCached
    · rfl
    · exact fun error _ => nofun
    · intro found hfound
      cases found with
      | none => exact ⟨rfl, nofun⟩
      | some bytes =>
        apply ih.mono
        · exact fun _ hstate => hstate
        · intro result _ _ hrest hresult other hother
          rcases List.mem_cons.mp hother with rfl | hmem
          · exact ⟨bytes, hfound⟩
          · exact hrest hresult other hmem

/-- What a report says of the manifest that was handed out and of the store it leaves. -/
structure Delivered (store : DiskStore) (codec : JsonCodec) (report : PullReport)
    (state : Requests × FileSystem) (body : Bytes) (manifest : ArtifactManifest) : Prop where
  handed : state.1.bodies = [body]
  decoded : ArtifactManifest.decode codec store.debug body = .ok manifest
  present : ∀ layer ∈ manifest.layers, ∃ bytes,
    store.cached state.2 layer.kappa = .ok (some bytes) ∧ address store.blake3 bytes = layer.kappa
  archive : ∃ archive, manifest.layers.filter (fun layer => layer.role = .archive) = [archive] ∧
    report.archiveKappa = archive.kappa
  counts : report.layersFetched + report.layersPresent = manifest.layers.length
  fetched : report.layersFetched = state.1.blobs.length
  bytes : report.bytesTransferred =
    min (state.1.blobs.map (sizeIn store state.2)).sum DiskStore.u64Max

theorem kappasOf_handed {requests : Requests} {body : Bytes} {manifest : ArtifactManifest}
    (hbodies : requests.bodies = [body])
    (hdecode : ArtifactManifest.decode codec store.debug body = .ok manifest) :
    kappasOf store codec requests = manifest.layers.map (·.kappa) := by
  simp only [kappasOf, hbodies, hdecode]

theorem Sparing.start : Sparing store kappas before ⟨bodies, []⟩ :=
  ⟨List.nodup_nil, nofun⟩

/-- A pull that ends before it has asked for a layer. -/
theorem Settled.start (h : store.Addressed before) :
    Settled store kappas before (⟨bodies, []⟩, before) :=
  ⟨h, .refl, .start⟩

theorem pull_ensures (h : store.Addressed before) :
    Program.Ensures serveFetch Granted
      (fun state => Sparing store (kappasOf store codec state.1) before state.1)
      (fun result state => Settled store (kappasOf store codec state.1) before state ∧
        ∀ report, result = .ok report → ∃ body manifest,
          Delivered store codec report state body manifest)
      (pull store pid reference codec) ({}, before) := by
  apply ensures_fetch .start
  intro source
  cases hreply : source.manifest reference.repository reference.tag with
  | error error =>
    simp only [Source.serve, hreply]
    exact ⟨.start, .start h, nofun⟩
  | ok found =>
    cases found with
    | none =>
      simp only [Source.serve, hreply]
      exact ⟨.start, .start h, nofun⟩
    | some handed =>
      obtain ⟨body, manifestDigest⟩ := handed
      simp only [Source.serve, hreply]
      change Program.Ensures serveFetch Granted _ _
        (.ofExcept (ArtifactManifest.decode codec store.debug body) >>= _) (⟨[body], []⟩, before)
      apply Program.Ensures.ofExcept
      · exact .start
      · exact fun error _ => ⟨.start h, nofun⟩
      · intro manifest hdecode
        have hkappas : ∀ requests : Requests, requests.bodies = [body] →
            kappasOf store codec requests = manifest.layers.map (·.kappa) :=
          fun requests hbodies => kappasOf_handed hbodies hdecode
        apply Program.Ensures.ofExcept
        · exact .start
        · exact fun error _ => ⟨.start h, nofun⟩
        · intro archive harchive
          have hstart : Pulling store (manifest.layers.map (·.kappa)) before {}
              (⟨[body], []⟩, before) :=
            ⟨h, .refl, .start, nofun, rfl, by simp⟩
          apply Program.Ensures.bind fun result state => state.1.bodies = [body] ∧
            match result with
            | .ok all => Pulling store (manifest.layers.map (·.kappa)) before all state ∧
                all.layersFetched + all.layersPresent = manifest.layers.length
            | .error _ => Settled store (manifest.layers.map (·.kappa)) before state
          · apply (pullLayers_ensures (fun _ => List.mem_map_of_mem) rfl hstart).mono
            · intro state hunderway
              rw [hkappas _ hunderway.bodies]
              exact hunderway.sparing
            · intro result state hunderway hpost
              refine ⟨hunderway.bodies, ?_⟩
              cases result with
              | error error => exact hpost
              | ok all => simpa using hpost
          · rintro all state hsparing ⟨hbodies, hpulling, hcounts⟩
            apply Program.Ensures.bind fun result after => after = state ∧ (result = .ok () →
              ∀ layer ∈ manifest.layers, ∃ bytes, store.cached state.2 layer.kappa = .ok (some bytes))
            · apply (confirm_ensures manifest.layers state).mono
              · rintro after rfl
                exact hsparing
              · exact fun result after hafter hpost => ⟨hafter, hpost⟩
            · rintro _ after - ⟨rfl, hpresent⟩
              refine ⟨hsparing, ?_, ?_⟩
              · rw [hkappas _ hbodies]
                exact hpulling.settled
              · intro report hreport
                obtain rfl := Except.ok.inj hreport
                refine ⟨body, manifest, hbodies, hdecode, ?_, ⟨archive, archive_ok harchive, rfl⟩,
                  hcounts, hpulling.fetched, hpulling.bytes⟩
                intro layer hlayer
                obtain ⟨bytes, hbytes⟩ := hpresent rfl layer hlayer
                exact ⟨bytes, hbytes, hpulling.addressed.cached hbytes⟩
            · rintro error after - ⟨rfl, -⟩
              rw [hkappas _ hbodies]
              exact ⟨hpulling.settled, nofun⟩
          · rintro error state - ⟨hbodies, hsettled⟩
            rw [hkappas _ hbodies]
            exact ⟨hsettled, nofun⟩

section Addressed
variable {post : Except LiveError γ → Requests × FileSystem → Prop}

/-- Looking at the local store leaves it as it is, refused or not. -/
theorem addressed_getCached (h : store.Addressed state.2) (id : String)
    {rest : Option Bytes → PullProgram γ}
    (hrest : ∀ found, Program.Ensures serveFetch (fun _ => True) (fun state => store.Addressed state.2)
      (fun _ _ => True) (rest found) state) :
    Program.Ensures serveFetch (fun _ => True) (fun state => store.Addressed state.2)
      (fun _ _ => True) (getCached store id >>= rest) state := by
  apply Program.Ensures.bind fun _ after => after = state
  · apply Either.ensures_right
    · exact store.getCached_ensures (fun _ => True) id state.2
    · exact fun _ _ => trivial
    · rintro right rfl
      exact h
    · rintro result right rfl -
      rfl
  · rintro found after - rfl
    exact hrest found
  · exact fun _ _ _ _ => trivial

theorem addressed_pullLayers (layers : List ArtifactLayer) (h : store.Addressed state.2)
    (pulled : Pulled) :
    Program.Ensures serveFetch (fun _ => True) (fun state => store.Addressed state.2)
      (fun _ _ => True) (pullLayers store pid reference layers pulled) state := by
  induction layers generalizing pulled state with
  | nil => exact ⟨h, trivial⟩
  | cons layer rest ih =>
    apply addressed_getCached h
    intro found
    cases found with
    | some bytes => exact ih h _
    | none =>
      refine ⟨h, ?_⟩
      rintro ⟨source, verdict⟩ -
      change Program.Ensures serveFetch _ _ _
        (.ofExcept ((source.blob reference.repository layer.kappa).mapError _) >>= _) _
      apply Program.Ensures.ofExcept
      · exact h
      · exact fun _ _ => trivial
      · intro bytes _
        apply Program.Ensures.bind fun _ after => True
        · apply Either.ensures_right
          · exact DiskStore.cacheAddressed_addressed (fun _ => True) h pid layer.kappa bytes
          · exact fun _ _ => trivial
          · exact fun _ hright => hright
          · exact fun _ _ _ _ => trivial
        · exact fun _ _ hafter _ => ih hafter _
        · exact fun _ _ _ _ => trivial

theorem addressed_confirm (layers : List ArtifactLayer) (h : store.Addressed state.2) :
    Program.Ensures serveFetch (fun _ => True) (fun state => store.Addressed state.2)
      (fun _ _ => True) (confirm store reference layers) state := by
  induction layers with
  | nil => exact ⟨h, trivial⟩
  | cons layer rest ih =>
    apply addressed_getCached h
    intro found
    cases found with
    | some bytes => exact ih
    | none => exact ⟨h, trivial⟩

theorem addressed_pull (h : store.Addressed before) :
    Program.Ensures serveFetch (fun _ => True) (fun state => store.Addressed state.2)
      (fun _ _ => True) (pull store pid reference codec) ({}, before) := by
  refine ⟨h, ?_⟩
  rintro ⟨source, verdict⟩ -
  change Program.Ensures serveFetch _ _ _
    (.ofExcept ((source.manifest reference.repository reference.tag).mapError id) >>= _) _
  apply Program.Ensures.ofExcept
  · exact h
  · exact fun _ _ => trivial
  · intro found _
    cases found with
    | none => exact ⟨h, trivial⟩
    | some handed =>
      apply Program.Ensures.ofExcept
      · exact h
      · exact fun _ _ => trivial
      · intro manifest _
        apply Program.Ensures.ofExcept
        · exact h
        · exact fun _ _ => trivial
        · intro archive _
          apply (addressed_pullLayers manifest.layers _ {}).bind
          · intro pulled after hafter _
            apply (addressed_confirm manifest.layers hafter).bind
            · exact fun _ _ hstate _ => ⟨hstate, trivial⟩
            · exact fun _ _ _ _ => trivial
          · exact fun _ _ _ _ => trivial
          · exact h

end Addressed

/-- Nothing is asked for that the store has. -/
theorem Sparing.nothing {requests : Requests} (h : Sparing store kappas before requests)
    (hpresent : ∀ kappa ∈ kappas, ∃ bytes, store.cached before kappa = .ok (some bytes)) :
    requests.blobs = [] := by
  apply List.eq_nil_iff_forall_not_mem.mpr
  intro kappa hkappa
  obtain ⟨hmem, hmissing⟩ := h.missing kappa hkappa
  obtain ⟨bytes, hbytes⟩ := hpresent kappa hmem
  rw [hmissing] at hbytes
  cases hbytes

end Pull

/-- Whatever a registry answers, and however the local files are interrupted, blobs stay what
their names say. Where the local files do what they are asked: at every point only layers
are asked for that were missing at the start, and none twice, so that a pull after a failed
one asks for what is still missing; at the end the store has gained verified layers and
nothing else; on success everything is there and the report is right, and a second pull of
that manifest asks for nothing. -/
theorem pull_safe (store : DiskStore) (codec : JsonCodec) (files : FileSystem)
    (hfiles : store.Addressed files) (pid : Nat) (reference : ArtifactRef)
    (answers : List (Source × Verdict)) :
    let ran := Program.advance serveFetch answers (pull store pid reference codec) ({}, files)
    store.Addressed ran.2.2 ∧
      ((∀ answer ∈ answers, Granted answer) →
        Sparing store (kappasOf store codec ran.2.1) files ran.2.1 ∧
        (∀ result, ran.1.outcome = some result →
          Gained store (kappasOf store codec ran.2.1) files ran.2.2) ∧
        ∀ report, ran.1.outcome = some (.ok report) → ∃ body manifest,
          Delivered store codec report ran.2 body manifest ∧
          ∀ (later : Nat) (replies : List (Source × Verdict)),
            (∀ reply ∈ replies, Granted reply) →
            let again := Program.advance serveFetch replies (pull store later reference codec)
              ({}, ran.2.2)
            (∀ other ∈ again.2.1.bodies, other = body) → again.2.1.blobs = []) := by
  intro ran
  refine ⟨((addressed_pull hfiles).sound fun answer (_ : answer ∈ answers) => trivial).1, ?_⟩
  intro hgranted
  obtain ⟨hsparing, hended⟩ := (pull_ensures hfiles).sound hgranted
  refine ⟨hsparing, fun result hresult => (hended result hresult).1.gained, ?_⟩
  intro report hreport
  obtain ⟨hsettled, hok⟩ := hended _ hreport
  obtain ⟨body, manifest, hdelivered⟩ := hok report rfl
  refine ⟨body, manifest, hdelivered, ?_⟩
  intro later replies hreplies again hsame
  have hagain : Sparing store (kappasOf store codec again.2.1) ran.2.2 again.2.1 :=
    ((pull_ensures hsettled.addressed).sound hreplies).1
  apply hagain.nothing
  intro kappa hkappa
  have hmem : kappa ∈ manifest.layers.map (·.kappa) := by
    unfold kappasOf at hkappa
    split at hkappa
    · cases hkappa
    · rename_i first _ hbodies
      obtain rfl := hsame first (by simp [hbodies])
      rw [hdelivered.decoded] at hkappa
      exact hkappa
  obtain ⟨layer, hlayer, rfl⟩ := List.mem_map.mp hmem
  obtain ⟨bytes, hbytes, _⟩ := hdelivered.present layer hlayer
  exact ⟨bytes, hbytes⟩

/-- A registry that serves the sample manifest and its one layer. -/
def sampleSource : Source where
  manifest _ _ := .ok (some (sampleManifestText, some "sha256:deadbeef"))
  blob _ _ := .ok []

abbrev samplePull :=
  Program.advance serveFetch (List.replicate 9 (sampleSource, .granted))
    (pull DiskStore.sampleStore 7 sampleReference sampleCodec) ({}, fun _ => none)

def sampleReport : PullReport :=
  { reference := "registry.example:5000/models/demo:v1", manifestDigest := some "sha256:deadbeef"
    archiveKappa := address DiskStore.sampleStore.blake3 [], layersFetched := 1, layersPresent := 0
    bytesTransferred := 0 }

theorem samplePull_ended : samplePull.1.outcome = some (.ok sampleReport) := by decide +kernel

theorem sampleSource_granted :
    ∀ answer ∈ List.replicate 9 (sampleSource, Verdict.granted), Granted answer := by
  intro answer hanswer
  rw [List.eq_of_mem_replicate hanswer]
  rfl


theorem pull_safe_sample :
    DiskStore.sampleStore.Addressed samplePull.2.2 ∧ ∃ body manifest,
      Delivered DiskStore.sampleStore sampleCodec sampleReport samplePull.2 body manifest := by
  have hsafe := pull_safe DiskStore.sampleStore sampleCodec (fun _ => none) (addressed_empty _) 7
    sampleReference (List.replicate 9 (sampleSource, .granted))
  obtain ⟨body, manifest, hdelivered, -⟩ :=
    (hsafe.2 sampleSource_granted).2.2 sampleReport samplePull_ended
  unfold samplePull
  exact ⟨hsafe.1, body, manifest, hdelivered⟩

end HologramLive.Artifact
