import HologramLive.Artifact.Published
import HologramLive.Registry.KappaClient

namespace HologramLive.Artifact
open Lib Lib.Result Registry.KappaClient

section
variable {codec : JsonCodec} {debug : String → String} {manifest : ArtifactManifest}

theorem decodeLayer_printable {entry : Json} {layer : ArtifactLayer}
    (h : decodeLayer debug entry = .ok layer) : layer.Printable := by
  unfold decodeLayer at h
  cases hdigest : (entry.get "digest").bind Json.asStr with
  | none => simp [hdigest] at h
  | some kappa =>
    simp only [hdigest, guard_ok] at h
    obtain ⟨hkappa, h⟩ := h
    obtain rfl := Except.ok.inj h
    refine ⟨by simpa using hkappa, ?_⟩
    cases hsize : (entry.get "size").bind Json.asU64 with
    | none => simp
    | some size =>
      obtain ⟨number, _, hnumber⟩ := Option.bind_eq_some_iff.mp hsize
      unfold Json.asU64 at hnumber
      split at hnumber
      · split at hnumber
        · rename_i hlt
          obtain rfl := Option.some.inj hnumber
          simpa [hsize] using hlt
        · cases hnumber
      · cases hnumber

theorem decode_printable {body : Bytes} (h : ArtifactManifest.decode codec debug body = .ok manifest) :
    ∀ layer ∈ manifest.layers, layer.Printable := by
  unfold ArtifactManifest.decode at h
  cases hbody : codec.fromSlice body with
  | error error => simp [hbody] at h
  | ok json =>
    simp only [hbody] at h
    unfold ArtifactManifest.ofDocument at h
    dsimp only at h
    split at h
    · cases h
    · rename_i entries hentries
      obtain ⟨layers, hlayers, h⟩ := bind_ok.mp h
      obtain rfl := Except.ok.inj h
      intro layer hlayer
      obtain ⟨entry, _, hentry⟩ := exists_of_mem_results (mapM_ok hlayers) hlayer
      exact decodeLayer_printable hentry

/-- What the store takes for an id and the registry for a tag of its own. -/
structure Addressable (debug : String → String) (kappa : String) : Prop where
  stored : ∃ digest, Store.validateId debug kappa = .ok digest
  tagged : kappaFor (tagFor kappa) = some kappa

theorem lowerHex_of_blake3 {c : Char} (h : (Store.isAsciiHexDigit c && !isAsciiUppercase c) = true) :
    isLowerHex c = true ∧ c ≠ ':' := by
  simp only [Store.isAsciiHexDigit, isAsciiUppercase, isLowerHex, Bool.and_eq_true, Bool.or_eq_true,
    Bool.not_eq_true', Bool.and_eq_false_iff, decide_eq_true_eq, decide_eq_false_iff_not,
    Store.char_le] at h ⊢
  refine ⟨?_, ?_⟩
  · obtain ⟨(hdigit | hlower) | hupper, hnot⟩ := h
    · exact .inl hdigit
    · exact .inr hlower
    · simp at hupper hnot
      omega
  · rintro rfl
    revert h
    decide

theorem isBlake3_addressable {kappa : String} (h : isBlake3 kappa = true) :
    Addressable debug kappa := by
  simp only [isBlake3, Bool.and_eq_true, decide_eq_true_eq] at h
  obtain ⟨⟨digest, hdigest⟩, hlength, hall⟩ := h
  have hdrop : kappa.toList.drop 7 = digest := by
    rw [← hdigest]
    rfl
  rw [hdrop] at hlength hall
  have hkappa : kappa = "blake3:" ++ String.ofList digest := by
    rw [← String.toList_inj, ← hdigest]
    simp
  have hchars : ∀ c ∈ digest, isLowerHex c = true ∧ c ≠ ':' :=
    fun c hc => lowerHex_of_blake3 (List.all_eq_true.mp hall c hc)
  refine ⟨⟨String.ofList digest, Store.validateId_ok.mpr ⟨hkappa, ?_⟩⟩, ?_⟩
  · refine ⟨by rw [String.toList_ofList]; exact hlength, ?_⟩
    rw [String.toList_ofList, List.all_eq_true]
    intro c hc
    have hhex := List.all_eq_true.mp hall c hc
    exact (Bool.and_eq_true _ _ ▸ hhex).1
  · have hsame : digest.map (fun c => if c = ':' then '_' else c) = digest := by
      rw [List.map_congr_left fun c hc => if_neg (hchars c hc).2, List.map_id']
    have htag : (tagFor kappa).toList = "blake3_".toList ++ digest := by
      rw [tagFor, String.toList_ofList, ← hdigest, List.map_append, hsame]
      rfl
    have hrest : digestOf (tagFor kappa).toList = some digest := by
      rw [digestOf, htag, if_pos (List.prefix_append _ _)]
      rfl
    have hlower : digest.all isLowerHex = true :=
      List.all_eq_true.mpr fun c hc => (hchars c hc).1
    simp only [kappaFor, hrest, hlength, hlower, ne_eq, not_true_eq_false, ↓reduceIte,
      Bool.not_true, Bool.false_eq_true, hdigest, String.ofList_toList]

theorem encode_accepts : (∃ body, manifest.encode codec = .ok body) ↔
    (manifest.layers.filter fun layer => layer.role = .archive).length = 1 := by
  constructor
  · rintro ⟨body, hbody⟩
    obtain ⟨archive, harchive, _⟩ := bind_ok.mp hbody
    rw [archive_ok harchive]
    rfl
  · intro hone
    obtain ⟨archive, harchive⟩ := List.length_eq_one_iff.mp hone
    exact ⟨_, bind_ok.mpr ⟨archive, archive_of_filter harchive, rfl⟩⟩

/-- A manifest of addressed layers reads back from its encoding. One that was read is made
of layers the store and the registry can address, is encoded again exactly where it has one
archive, and then reads back too. -/
theorem manifest_reads_back (hcodec : KeepsManifests codec) :
    ((∀ layer ∈ manifest.layers, layer.Printable) → ∀ body, manifest.encode codec = .ok body →
      ArtifactManifest.decode codec debug body = .ok manifest) ∧
    ∀ body, ArtifactManifest.decode codec debug body = .ok manifest →
      (∀ layer ∈ manifest.layers, Addressable debug layer.kappa) ∧
      ((∃ again, manifest.encode codec = .ok again) ↔
        (manifest.layers.filter fun layer => layer.role = .archive).length = 1) ∧
      ∀ again, manifest.encode codec = .ok again →
        ArtifactManifest.decode codec debug again = .ok manifest := by
  have hforth : (∀ layer ∈ manifest.layers, layer.Printable) → ∀ body,
      manifest.encode codec = .ok body →
      ArtifactManifest.decode codec debug body = .ok manifest := by
    intro hlayers body hbody
    exact decode_encode (fun archive harchive => hcodec manifest archive harchive hlayers) hlayers
      hbody
  refine ⟨hforth, ?_⟩
  intro body hbody
  have hlayers := decode_printable hbody
  exact ⟨fun layer hlayer => isBlake3_addressable (hlayers layer hlayer).kappa, encode_accepts,
    hforth hlayers⟩

end

theorem manifest_reads_back_sample :
    ((∀ layer ∈ sampleManifest.layers, layer.Printable) → ∀ body,
      sampleManifest.encode sampleCodec = .ok body →
      ArtifactManifest.decode sampleCodec id body = .ok sampleManifest) ∧
    ∀ body, ArtifactManifest.decode sampleCodec id body = .ok sampleManifest →
      (∀ layer ∈ sampleManifest.layers, Addressable id layer.kappa) ∧
      ((∃ again, sampleManifest.encode sampleCodec = .ok again) ↔
        (sampleManifest.layers.filter fun layer => layer.role = .archive).length = 1) ∧
      ∀ again, sampleManifest.encode sampleCodec = .ok again →
        ArtifactManifest.decode sampleCodec id again = .ok sampleManifest :=
  manifest_reads_back sampleCodec_keeps

/-- A payload without an archive. -/
def payloadManifest : ArtifactManifest where
  layers :=
    [{ kappa := "blake3:133f4a5d15cc232345f93adf581818b8910412c4b205e5f971faf93859037815"
       mediaType := "application/octet-stream", size := 30, role := .layer }]
  kind := none
  name := none
  tag := none

def payloadDocument : Json :=
  .object [("layers", .array (payloadManifest.layers.map layerDocument))]

def payloadText : Bytes := Utf8.encode <|
  "\x7b\"layers\":[\x7b\"annotations\":\x7b\"dev.hologram.role\":\"layer\"\x7d,\"digest\":" ++
  "\"blake3:133f4a5d15cc232345f93adf581818b8910412c4b205e5f971faf93859037815\"," ++
  "\"mediaType\":\"application/octet-stream\",\"size\":30\x7d]\x7d"

def payloadCodec : JsonCodec where
  toVec _ := payloadText
  fromSlice body :=
    if body = payloadText then .ok payloadDocument
    else .error "expected value at line 1 column 1"

/-- An archive under a digest of another kind. -/
def foreignManifest : ArtifactManifest where
  layers :=
    [{ kappa := "sha256:5ca494d6ec8cb393acefd75cf0f332f6fa3690ea2a1804e92e27373b95ea8373"
       mediaType := "application/vnd.hologram.holo", size := 30, role := .archive }]
  kind := none
  name := none
  tag := none

/-- What is read need not be publishable, and what is published need not be readable. -/
theorem manifest_lost :
    (ArtifactManifest.decode payloadCodec id payloadText = .ok payloadManifest ∧
      payloadManifest.encode payloadCodec =
        .error (.protocol "artifact manifest declares no archive layer")) ∧
    ∀ codec : JsonCodec, ∃ body, foreignManifest.encode codec = .ok body ∧
      ArtifactManifest.decode codec id body ≠ .ok foreignManifest := by
  refine ⟨⟨?_, rfl⟩, ?_⟩
  · have hread : payloadCodec.fromSlice payloadText = .ok payloadDocument := by
      simp [payloadCodec]
    have hdocument : (ArtifactManifest.ofDocument id payloadDocument).toOption =
        some payloadManifest := by decide
    rw [ArtifactManifest.decode, hread]
    exact toOption_eq_some.mp hdocument
  · intro codec
    refine ⟨_, rfl, ?_⟩
    intro h
    have hlayer := (decode_printable h _ List.mem_cons_self).kappa
    revert hlayer
    decide

end HologramLive.Artifact
