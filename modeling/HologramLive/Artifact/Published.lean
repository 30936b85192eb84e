import HologramLive.Artifact.Push
import HologramLive.Store.Cached
import HologramLive.Store.Integrity

namespace HologramLive.Artifact
open Lib Lib.Files Lib.Result Plan Store

/-- A push between the registry, which keeps a record of what it is asked, and the local
store's files. -/
def servePublish : Either LayerPublish FileCall β → Answer × Verdict → Observed × FileSystem →
    β × (Observed × FileSystem) :=
  Either.serve Observed.serve Files.serve

/-- A layer as it was put: whole, under its kappa, with its length for its size. -/
def Uploads (blake3 : Blake3) (repository : String) (writes : List Write) (layer : ArtifactLayer) :
    Prop :=
  ∃ bytes, .blob repository layer.kappa layer.mediaType bytes true ∈ writes ∧
    address blake3 bytes = layer.kappa ∧ layer.size = byteCount bytes

/-- A manifest with one archive layer and all of whose layers were put. -/
structure Complete (blake3 : Blake3) (repository : String) (writes : List Write)
    (manifest : ArtifactManifest) : Prop where
  archive : ∃ archive, manifest.layers.filter (fun layer => layer.role = .archive) = [archive]
  uploaded : ∀ layer ∈ manifest.layers, Uploads blake3 repository writes layer

def Resolves (codec : JsonCodec) (debug : String → String) (registry : Registry)
    (reference : ArtifactRef) (manifest : ArtifactManifest) : Prop :=
  ∃ body, registry.tags reference.repository reference.tag = some body ∧
    ArtifactManifest.decode codec debug body = .ok manifest

/-- The serializer reads back what it wrote of a manifest. -/
def KeepsManifests (codec : JsonCodec) : Prop :=
  ∀ (manifest : ArtifactManifest) (archive : ArtifactLayer), manifest.archive = .ok archive →
    (∀ layer ∈ manifest.layers, layer.Printable) → codec.Keeps (document archive manifest)

theorem byteCount_lt (bytes : Bytes) : byteCount bytes < 2 ^ 64 := by
  have := Nat.min_le_right bytes.length DiskStore.u64Max
  simp only [byteCount, DiskStore.u64Max] at *
  omega

/-- Gathering only reads, and what it returns stands in the local store. -/
theorem gather_ensures (store : DiskStore) (kappas : List String) (state : Observed × FileSystem) :
    Program.Ensures servePublish (fun _ => True) (· = state)
      (fun result _ => ∀ payloads, result = .ok payloads → payloads.map Prod.fst = kappas ∧
        ∀ payload ∈ payloads, store.cached state.2 payload.1 = .ok (some payload.2))
      (gather store kappas) state := by
  induction kappas with
  | nil =>
    refine ⟨rfl, ?_⟩
    intro payloads hpayloads
    obtain rfl := Except.ok.inj hpayloads
    exact ⟨rfl, nofun⟩
  | cons kappa rest ih =>
    apply Program.Ensures.bind fun result _ => ∀ bytes, result = .ok (some bytes) →
      store.cached state.2 kappa = .ok (some bytes)
    · apply Either.ensures_right (store.getCached_ensures (fun _ => True) kappa state.2)
      · exact fun _ _ => trivial
      · rintro right rfl
        rfl
      · exact fun result right _ hresult => hresult.1
    · rintro found after rfl hfound
      cases found with
      | none => exact ⟨rfl, nofun⟩
      | some bytes =>
        apply ih.bind _
        · rintro payloads after rfl hpayloads
          obtain ⟨hkappas, hstands⟩ := hpayloads payloads rfl
          refine ⟨rfl, ?_⟩
          rintro all hall
          obtain rfl := Except.ok.inj hall
          refine ⟨by simp [hkappas], ?_⟩
          intro payload hpayload
          rcases List.mem_cons.mp hpayload with rfl | hmem
          · exact hfound bytes rfl
          · exact hstands payload hmem
        · exact fun error after _ _ => nofun
    · exact fun error after _ _ => nofun

section Push
variable (store : DiskStore) (codec : JsonCodec) (before : Registry) (files : FileSystem)
  (reference : ArtifactRef) (inspection : HoloInspection) (force : Bool)

/-- The two refusals: a tag that exists and is not to be moved, and a payload that is
missing. -/
def Refused : Prop :=
  (before.tags reference.repository reference.tag).isSome ∧ force = false ∨
    ∃ kappa ∈ externalPayloads inspection, ∀ bytes, store.cached files kappa ≠ .ok (some bytes)

/-- The tag resolves to what it did or to a complete manifest, and a refused push has
written nothing. -/
structure Safe (observed : Observed) : Prop where
  tag : observed.registry.tags reference.repository reference.tag =
      before.tags reference.repository reference.tag ∨
    ∃ manifest, Resolves codec store.debug observed.registry reference manifest ∧
      Complete store.blake3 reference.repository observed.writes manifest
  refused : Refused store before files reference inspection force → observed.writes = []

/-- What a report says of the manifest the tag resolves to. -/
def Reported (observed : Observed) (report : PushReport) : Prop :=
  ∃ manifest, Resolves codec store.debug observed.registry reference manifest ∧
    Complete store.blake3 reference.repository observed.writes manifest ∧
    report.layersPublished = manifest.layers.length ∧
    report.bytesTransferred = min (manifest.layers.map (·.size)).sum DiskStore.u64Max

/-- While layers go up, the tag stays as it was. -/
structure Uploading (uploaded : Uploaded) (observed : Observed) : Prop where
  tag : observed.registry.tags reference.repository reference.tag =
    before.tags reference.repository reference.tag
  archive : ∃ archive, uploaded.layers.filter (fun layer => layer.role = .archive) = [archive]
  put : ∀ layer ∈ uploaded.layers,
    Uploads store.blake3 reference.repository observed.writes layer
  bytes : uploaded.bytesTransferred = min (uploaded.layers.map (·.size)).sum DiskStore.u64Max

variable {store codec before files reference inspection force} {uploaded : Uploaded}
  {observed : Observed} {state : Observed × FileSystem}

theorem Uploads.mono {writes more : List Write} {layer : ArtifactLayer}
    (h : Uploads store.blake3 reference.repository writes layer) :
    Uploads store.blake3 reference.repository (writes ++ more) layer := by
  obtain ⟨bytes, hwrite, haddress, hsize⟩ := h
  exact ⟨bytes, List.mem_append_left _ hwrite, haddress, hsize⟩

theorem Uploading.safe (h : Uploading store before reference uploaded observed)
    (hheld : ¬Refused store before files reference inspection force) :
    Safe store codec before files reference inspection force observed :=
  ⟨.inl h.tag, fun hrefused => absurd hrefused hheld⟩

theorem Uploading.add (h : Uploading store before reference uploaded observed) {bytes : Bytes}
    (kappa mediaType : String) (haddress : address store.blake3 bytes = kappa) :
    Uploading store before reference (uploaded.add kappa mediaType .layer bytes)
      (observed.serve (.putBlob reference.repository kappa mediaType bytes) .given).2 := by
  refine ⟨h.tag, ?_, ?_, ?_⟩
  · obtain ⟨archive, harchive⟩ := h.archive
    exact ⟨archive, by simp [Uploaded.add, harchive]⟩
  · intro layer hlayer
    rcases List.mem_append.mp hlayer with hold | hnew
    · exact (h.put layer hold).mono
    · obtain rfl := List.mem_singleton.mp hnew
      refine ⟨bytes, ?_, haddress, rfl⟩
      exact List.mem_append_right _ List.mem_cons_self
  · have hbytes := h.bytes
    simp only [Uploaded.add, List.map_append, List.map_cons, List.map_nil, List.sum_append,
      List.sum_cons, List.sum_nil]
    omega

theorem upload_ensures (hheld : ¬Refused store before files reference inspection force)
    {payloads : List (String × Bytes)}
    (hpayloads : ∀ payload ∈ payloads, address store.blake3 payload.2 = payload.1)
    (h : Uploading store before reference uploaded state.1) :
    Program.Ensures servePublish (fun _ => True)
      (fun state => Safe store codec before files reference inspection force state.1)
      (fun result state => ∀ all, result = .ok all →
        Uploading store before reference all state.1)
      (upload reference.repository payloads uploaded) state := by
  induction payloads generalizing uploaded state with
  | nil =>
    refine ⟨h.safe hheld, ?_⟩
    intro all hall
    obtain rfl := Except.ok.inj hall
    exact h
  | cons payload rest ih =>
    obtain ⟨kappa, bytes⟩ := payload
    refine ⟨h.safe hheld, ?_⟩
    rintro ⟨answer, verdict⟩ -
    cases answer with
    | given =>
      apply ih
      · exact fun other hother => hpayloads other (List.mem_cons_of_mem _ hother)
      · exact h.add kappa layerMediaType (hpayloads _ List.mem_cons_self)
    | failed error landed =>
      refine ⟨⟨.inl ?_, fun hrefused => absurd hrefused hheld⟩, nofun⟩
      cases landed with
      | false => exact h.tag
      | true => exact h.tag

/-- The manifest that goes up for what was put. -/
def manifestOf (reference : ArtifactRef) (uploaded : Uploaded) : ArtifactManifest :=
  { layers := uploaded.layers, kind := some "holo", name := some reference.name
    tag := some reference.tag }

theorem Uploading.reads (h : Uploading store before reference uploaded observed)
    (hcodec : KeepsManifests codec) {body : Bytes}
    (hbody : (manifestOf reference uploaded).encode codec = .ok body) :
    ArtifactManifest.decode codec store.debug body = .ok (manifestOf reference uploaded) := by
  have hlayers : ∀ layer ∈ uploaded.layers, layer.Printable := by
    intro layer hlayer
    obtain ⟨bytes, _, haddress, hsize⟩ := h.put layer hlayer
    refine ⟨?_, ?_⟩
    · rw [← haddress]
      exact isBlake3_address store.blake3 bytes
    · rw [hsize]
      exact byteCount_lt bytes
  apply decode_encode _ hlayers hbody
  intro archive harchive
  exact hcodec _ archive harchive hlayers

theorem Uploading.complete (h : Uploading store before reference uploaded observed) (more : List Write) :
    Complete store.blake3 reference.repository (observed.writes ++ more)
      (manifestOf reference uploaded) :=
  ⟨h.archive, fun layer hlayer => (h.put layer hlayer).mono⟩

/-- Whether the manifest lands or not, the tag is well; on success it resolves to the
manifest reported. -/
theorem putManifest_ensures (hcodec : KeepsManifests codec)
    (hheld : ¬Refused store before files reference inspection force)
    (h : Uploading store before reference uploaded state.1) {body : Bytes}
    (hbody : (manifestOf reference uploaded).encode codec = .ok body) (report : PushReport)
    (hcount : report.layersPublished = uploaded.layers.length)
    (hbytes : report.bytesTransferred = uploaded.bytesTransferred) :
    Program.Ensures servePublish (fun _ => True)
      (fun state => Safe store codec before files reference inspection force state.1)
      (fun result state => ∀ report, result = .ok report →
        Reported store codec reference state.1 report)
      (publish (.putManifest reference.repository reference.tag body) >>= fun _ => pure report)
      state := by
  have hreads := h.reads hcodec hbody
  have hput : (state.1.registry.putManifest reference.repository reference.tag body).tags
      reference.repository reference.tag = some body := if_pos ⟨rfl, rfl⟩
  refine ⟨h.safe hheld, ?_⟩
  rintro ⟨answer, verdict⟩ -
  cases answer with
  | given =>
    have hresolves : Resolves codec store.debug
        (state.1.registry.putManifest reference.repository reference.tag body) reference
        (manifestOf reference uploaded) := ⟨body, hput, hreads⟩
    refine ⟨⟨.inr ⟨_, hresolves, h.complete _⟩, fun hrefused => absurd hrefused hheld⟩, ?_⟩
    intro found hfound
    obtain rfl := Except.ok.inj hfound
    exact ⟨_, hresolves, h.complete _, hcount, hbytes.trans h.bytes⟩
  | failed error landed =>
    refine ⟨⟨?_, fun hrefused => absurd hrefused hheld⟩, nofun⟩
    cases landed with
    | false => exact .inl h.tag
    | true => exact .inr ⟨_, ⟨body, hput, hreads⟩, h.complete _⟩

theorem archive_first (reference : ArtifactRef) (archiveBytes : Bytes) (observed : Observed)
    (hbefore : observed.registry = before) :
    Uploading store before reference
      (Uploaded.add ⟨[], 0⟩ (address store.blake3 archiveBytes) holoMediaType .archive archiveBytes)
      (observed.serve (.putBlob reference.repository (address store.blake3 archiveBytes)
        holoMediaType archiveBytes) .given).2 := by
  subst hbefore
  refine ⟨rfl, ⟨_, rfl⟩, ?_, ?_⟩
  · intro layer hlayer
    obtain rfl := List.mem_singleton.mp hlayer
    exact ⟨archiveBytes, List.mem_append_right _ List.mem_cons_self, rfl, rfl⟩
  · simp [Uploaded.add]

/-- A push that got past both checks was not to be refused. -/
theorem not_refused {payloads : List (String × Bytes)}
    (hfree : ¬((before.tags reference.repository reference.tag).isSome && !force) = true)
    (hkappas : payloads.map Prod.fst = externalPayloads inspection)
    (hstands : ∀ payload ∈ payloads, store.cached files payload.1 = .ok (some payload.2)) :
    ¬Refused store before files reference inspection force := by
  rintro (⟨hsome, rfl⟩ | ⟨kappa, hkappa, hmissing⟩)
  · exact hfree (by simp [hsome])
  · rw [← hkappas] at hkappa
    obtain ⟨payload, hpayload, rfl⟩ := List.mem_map.mp hkappa
    exact hmissing _ (hstands payload hpayload)

theorem uploads_ensures (hcodec : KeepsManifests codec)
    (hheld : ¬Refused store before files reference inspection force)
    {payloads : List (String × Bytes)}
    (hpayloads : ∀ payload ∈ payloads, address store.blake3 payload.2 = payload.1)
    (h : Uploading store before reference uploaded state.1) (archiveKappa : String)
    (replacedExistingTag : Bool) :
    Program.Ensures servePublish (fun _ => True)
      (fun state => Safe store codec before files reference inspection force state.1)
      (fun result state => ∀ report, result = .ok report →
        Reported store codec reference state.1 report)
      (do
        let uploaded ← upload reference.repository payloads uploaded
        let body ← .ofExcept ((manifestOf reference uploaded).encode codec)
        publish (.putManifest reference.repository reference.tag body)
        pure
          { reference := reference.display, archiveKappa
            layersPublished := uploaded.layers.length
            bytesTransferred := uploaded.bytesTransferred
            replacedExistingTag })
      state := by
  apply (upload_ensures hheld hpayloads h).bind _
  · intro all state hsafe hall
    have hall := hall all rfl
    apply Program.Ensures.ofExcept
    · exact hsafe
    · exact fun error _ => nofun
    · intro body hbody
      exact putManifest_ensures hcodec hheld hall hbody _ rfl rfl
  · exact fun error state _ _ => nofun

theorem push_ensures (hcodec : KeepsManifests codec) (hfiles : store.Addressed files)
    (archiveBytes : Bytes) :
    Program.Ensures servePublish (fun _ => True)
      (fun state => Safe store codec before files reference inspection force state.1)
      (fun result state => ∀ report, result = .ok report →
        ¬Refused store before files reference inspection force ∧
        Reported store codec reference state.1 report)
      (push store codec reference archiveBytes inspection force) (⟨before, []⟩, files) := by
  have hstart : Safe store codec before files reference inspection force ⟨before, []⟩ :=
    ⟨.inl rfl, fun _ => rfl⟩
  refine ⟨hstart, ?_⟩
  rintro ⟨answer, verdict⟩ -
  cases answer with
  | failed error landed => exact ⟨hstart, nofun⟩
  | given =>
    change Program.Ensures servePublish _ _ _
      (if (before.tags reference.repository reference.tag).isSome && !force then _ else _) _
    split
    · exact ⟨hstart, nofun⟩
    · rename_i hfree
      apply Program.Ensures.bind fun result state => state = (⟨before, []⟩, files) ∧
        ∀ payloads, result = .ok payloads →
          payloads.map Prod.fst = externalPayloads inspection ∧
          ∀ payload ∈ payloads, store.cached files payload.1 = .ok (some payload.2)
      · apply (gather_ensures store (externalPayloads inspection) (⟨before, []⟩, files)).mono
        · rintro state rfl
          exact hstart
        · exact fun result state hstate hresult => ⟨hstate, hresult⟩
      · rintro payloads state - ⟨rfl, hpayloads⟩
        obtain ⟨hkappas, hstands⟩ := hpayloads payloads rfl
        have hheld : ¬Refused store before files reference inspection force :=
          not_refused hfree hkappas hstands
        refine ⟨hstart, ?_⟩
        rintro ⟨answer, verdict⟩ -
        cases answer with
        | failed error landed =>
          refine ⟨⟨.inl ?_, fun hrefused => absurd hrefused hheld⟩, nofun⟩
          cases landed with
          | false => rfl
          | true => rfl
        | given =>
          apply Program.Ensures.mono
          · apply uploads_ensures hcodec hheld
            · exact fun payload hpayload => hfiles.cached (hstands payload hpayload)
            · exact archive_first reference archiveBytes ⟨before, []⟩ rfl
          · exact fun _ hsafe => hsafe
          · exact fun result state _ hresult report hreport => ⟨hheld, hresult report hreport⟩
      · exact fun error state _ _ => nofun

end Push

/-- Wherever a push is cut off and whichever of its calls fail, the tag resolves to what it
did before or to a manifest with one archive layer, all of whose layers this push has put. A
push that is to be refused writes nothing and does not succeed, and one that succeeds
reports the manifest the tag then resolves to. -/
theorem push_safe (store : DiskStore) (codec : JsonCodec) (hcodec : KeepsManifests codec)
    (registry : Registry) (files : FileSystem) (hfiles : store.Addressed files)
    (reference : ArtifactRef) (archiveBytes : Bytes) (inspection : HoloInspection) (force : Bool)
    (answers : List (Answer × Verdict)) :
    let ran := Program.advance servePublish answers
      (push store codec reference archiveBytes inspection force) (⟨registry, []⟩, files)
    Safe store codec registry files reference inspection force ran.2.1 ∧
      ∀ report, ran.1.outcome = some (.ok report) →
        ¬Refused store registry files reference inspection force ∧
        Reported store codec reference ran.2.1 report := by
  obtain ⟨hsafe, hended⟩ := (push_ensures hcodec hfiles archiveBytes).sound
    fun answer (_ : answer ∈ answers) => trivial
  exact ⟨hsafe, fun report hreport => hended _ hreport report rfl⟩

/-! A serializer that spells the manifests it is given as they are spelled. -/

instance : Encodable LayerRole :=
  Encodable.ofLeftInverse (fun role => decide (role = .archive))
    (fun archive => if archive then .archive else .layer) (by rintro (_ | _) <;> rfl)

instance : Encodable ArtifactLayer :=
  Encodable.ofLeftInverse
    (fun layer => (DiskStore.codes layer.kappa, DiskStore.codes layer.mediaType, layer.size, layer.role))
    (fun (kappa, mediaType, size, role) =>
      { kappa := DiskStore.spell kappa, mediaType := DiskStore.spell mediaType, size, role })
    (by
      rintro ⟨kappa, mediaType, size, role⟩
      simp only [DiskStore.spell_codes])

instance : Encodable ArtifactManifest :=
  Encodable.ofLeftInverse
    (fun manifest => (manifest.layers, manifest.kind.map DiskStore.codes,
      manifest.name.map DiskStore.codes, manifest.tag.map DiskStore.codes))
    (fun (layers, kind, name, tag) =>
      { layers, kind := kind.map DiskStore.spell, name := name.map DiskStore.spell
        tag := tag.map DiskStore.spell })
    (by
      rintro ⟨layers, kind, name, tag⟩
      simp [Function.comp_def, DiskStore.spell_codes])

def documentOf (manifest : ArtifactManifest) : Except String Json :=
  match manifest.archive with
  | .ok archive => .ok (document archive manifest)
  | .error error => .error error.message

def listedCodec (known : List (ArtifactManifest × Bytes)) : JsonCodec where
  toVec json :=
    match ArtifactManifest.ofDocument id json with
    | .error _ => []
    | .ok manifest => match known.lookup manifest with
      | some text => text
      | none => List.replicate (Encodable.encode manifest) 0
  fromSlice bytes :=
    match known.find? fun entry => entry.2 = bytes with
    | some entry => documentOf entry.1
    | none => match Encodable.decode bytes.length with
      | some manifest => documentOf manifest
      | none => .error "expected value at line 1 column 1"

theorem listedCodec_keeps {known : List (ArtifactManifest × Bytes)}
    (hdistinct : ∀ entry ∈ known, known.find? (fun other => other.2 = entry.2) = some entry)
    (htext : ∀ entry ∈ known, ∃ byte ∈ entry.2, byte ≠ 0) : KeepsManifests (listedCodec known) := by
  intro manifest archive harchive hlayers
  have hdocument : documentOf manifest = .ok (document archive manifest) := by
    rw [documentOf, harchive]
  simp only [JsonCodec.Keeps, listedCodec, ofDocument_document archive hlayers]
  cases hknown : known.lookup manifest with
  | some text =>
    obtain ⟨first, last, hsplit, _⟩ := List.lookup_eq_some_iff.mp hknown
    simp only [hdistinct (manifest, text) (by simp [hsplit]), hdocument]
  | none =>
    have hnone : known.find? (fun entry =>
        entry.2 = List.replicate (Encodable.encode manifest) (0 : UInt8)) = none := by
      rw [List.find?_eq_none]
      intro entry hentry heq
      obtain ⟨byte, hbyte, hne⟩ := htext entry hentry
      rw [of_decide_eq_true heq] at hbyte
      exact hne (List.eq_of_mem_replicate hbyte)
    simp only [hnone, List.length_replicate, Encodable.encodek, hdocument]

def sampleReference : ArtifactRef :=
  { host := "registry.example:5000", «namespace» := "models", name := "demo", tag := "v1" }

/-- A file with no application in it. -/
def sampleInspection : HoloInspection :=
  { kappa := address DiskStore.sampleStore.blake3 [], applicationKappa := none, name := "demo.holo"
    formatVersion := 4, byteLength := 0, archiveFingerprint := "", footerVerified := true
    directory := none, directoryEmbedded := false }

def sampleManifest : ArtifactManifest :=
  manifestOf sampleReference <|
    Uploaded.add ⟨[], 0⟩ (address DiskStore.sampleStore.blake3 []) holoMediaType .archive []

def sampleManifestText : Bytes := Utf8.encode <|
  "\x7b\"annotations\":\x7b\"dev.hologram.kind\":\"holo\",\"dev.hologram.name\":\"demo\"," ++
  "\"dev.hologram.tag\":\"v1\"\x7d,\"artifactType\":\"application/vnd.hologram.artifact.v1+json\"," ++
  "\"config\":\x7b\"digest\":" ++
  "\"blake3:af1349b9f5f9a1a6a0404dea36dcc9499bcb25c9adc112b7cc9a93cae41f3262\"," ++
  "\"mediaType\":\"application/vnd.oci.empty.v1+json\",\"size\":0\x7d," ++
  "\"layers\":[\x7b\"annotations\":\x7b\"dev.hologram.role\":\"archive\"\x7d,\"digest\":" ++
  "\"blake3:af1349b9f5f9a1a6a0404dea36dcc9499bcb25c9adc112b7cc9a93cae41f3262\"," ++
  "\"mediaType\":\"application/vnd.hologram.holo\",\"size\":0\x7d]," ++
  "\"mediaType\":\"application/vnd.oci.image.manifest.v1+json\",\"schemaVersion\":2\x7d"

def sampleCodec : JsonCodec := listedCodec [(sampleManifest, sampleManifestText)]

theorem sampleCodec_keeps : KeepsManifests sampleCodec := by
  apply listedCodec_keeps
  · simp
  · have hbrace : (0x7b : UInt8) ∈ sampleManifestText := by decide
    simpa using ⟨0x7b, hbrace, by decide⟩

theorem addressed_empty (store : DiskStore) : store.Addressed fun _ => none := by
  intro digest bytes _ hfile
  cases hfile

/-- The manifest lands although the registry's answer to it is lost. -/
theorem push_safe_sample :
    let ran := Program.advance servePublish
      [(.given, .granted), (.given, .granted), (.failed (.transport "timed out") true, .granted)]
      (push DiskStore.sampleStore sampleCodec sampleReference [] sampleInspection false)
      (⟨{}, []⟩, fun _ => none)
    Safe DiskStore.sampleStore sampleCodec {} (fun _ => none) sampleReference sampleInspection false
        ran.2.1 ∧
      ∀ report, ran.1.outcome = some (.ok report) →
        ¬Refused DiskStore.sampleStore {} (fun _ => none) sampleReference sampleInspection false ∧
        Reported DiskStore.sampleStore sampleCodec sampleReference ran.2.1 report :=
  push_safe DiskStore.sampleStore sampleCodec sampleCodec_keeps {} (fun _ => none)
    (addressed_empty _) sampleReference [] sampleInspection false _

end HologramLive.Artifact
