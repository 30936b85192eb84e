import HologramLive.Lib.Canonical
import HologramLive.Repo.Manifest

namespace HologramLive.Repo
open Lib Lib.Result Store

/-- The serializer at the manifest's own type, with the text of its errors. -/
structure ManifestCodec where
  toVec : RepoManifest → Except String Bytes
  fromSlice : Bytes → Except String RepoManifest

/-- What is written for a manifest reads back as that manifest. -/
def ManifestCodec.Exact (codec : ManifestCodec) : Prop :=
  ∀ {manifest bytes}, codec.toVec manifest = .ok bytes → codec.fromSlice bytes = .ok manifest

def pathBytes (file : ManifestFile) : List Nat := (Utf8.encode file.path).map UInt8.toNat

def sortByPath (files : List ManifestFile) : List ManifestFile :=
  files.insertionSort fun left right => pathBytes left ≤ pathBytes right

namespace RepoManifest
variable (codec : ManifestCodec) (debug : String → String)

def ordered (manifest : RepoManifest) : RepoManifest :=
  { manifest with files := sortByPath manifest.files }

/-- Canonical bytes. An invalid manifest is refused, so no revision is ever derived
from one. -/
def encode (manifest : RepoManifest) : Except LiveError Bytes := do
  manifest.validate debug
  (codec.toVec manifest.ordered).mapError fun error =>
    .protocol s!"encode repo manifest: {error}"

/-- Bytes that are not already the canonical encoding are refused. -/
def decode (bytes : Bytes) : Except LiveError RepoManifest := do
  let manifest ← (codec.fromSlice bytes).mapError fun error =>
    LiveError.protocol s!"decode repo manifest: {error}"
  let again ← manifest.encode codec debug
  if again ≠ bytes then .error (.protocol "repo manifest is not canonically encoded")
  else .ok manifest

def revision (blake3 : Blake3) (manifest : RepoManifest) : Except LiveError String := do
  let bytes ← manifest.encode codec debug
  .ok (kappaOf blake3 bytes)

/-- The manifest format as a canonical one. -/
def canonical : Canonical.Format RepoManifest Bytes LiveError where
  check := validate debug
  normal := ordered
  write manifest := (codec.toVec manifest).mapError fun error =>
    .protocol s!"encode repo manifest: {error}"
  read bytes := (codec.fromSlice bytes).mapError fun error =>
    .protocol s!"decode repo manifest: {error}"
  refusal := .protocol "repo manifest is not canonically encoded"

end RepoManifest

theorem pathBytes_inj {left right : ManifestFile} :
    pathBytes left = pathBytes right ↔ left.path = right.path := by
  constructor
  · intro h
    have hbytes := List.map_injective_iff.mpr (fun _ _ => UInt8.toNat_inj.mp) h
    have hdecoded := congrArg Utf8.decode hbytes
    rwa [Utf8.decode_encode, Utf8.decode_encode, Option.some.injEq] at hdecoded
  · intro h
    rw [pathBytes, pathBytes, h]

section Valid
variable {debug : String → String}

theorem validateFiles_ok {files : List ManifestFile} :
    validateFiles debug seen files = .ok () ↔
      (∀ file ∈ files, validateFile debug file = .ok () ∧ file.path ∉ seen) ∧
        (files.map ManifestFile.path).Nodup := by
  induction files generalizing seen with
  | nil => simp [validateFiles]
  | cons file files ih =>
    rw [validateFiles, check_ok, guard_ok, ih, List.forall_mem_cons, List.map_cons,
      List.nodup_cons]
    simp only [List.mem_map, List.mem_cons, not_or]
    constructor
    · rintro ⟨hfile, hnew, hrest, hdistinct⟩
      refine ⟨⟨⟨hfile, hnew⟩, fun other hother => ?_⟩, ?_, hdistinct⟩
      · exact ⟨(hrest other hother).1, (hrest other hother).2.2⟩
      · rintro ⟨other, hother, hpath⟩
        exact (hrest other hother).2.1 hpath
    · rintro ⟨⟨⟨hfile, hnew⟩, hrest⟩, hfirst, hdistinct⟩
      refine ⟨hfile, hnew, fun other hother => ?_, hdistinct⟩
      exact ⟨(hrest other hother).1, fun hpath => hfirst ⟨other, hother, hpath⟩,
        (hrest other hother).2⟩

namespace RepoManifest

theorem validate_ok {manifest : RepoManifest} : manifest.validate debug = .ok () ↔
    manifest.format = repoManifestFormat ∧ validateRepoName debug manifest.name = .ok () ∧
      validateSource debug manifest.source = .ok () ∧
      (∀ file ∈ manifest.files, validateFile debug file = .ok ()) ∧
      (manifest.files.map ManifestFile.path).Nodup := by
  rw [validate, guard_ok, check_ok, check_ok, validateFiles_ok]
  simp

/-- Validity does not look at the order of the files. -/
theorem validate_perm {manifest : RepoManifest} (h : shuffled.Perm manifest.files) :
    validate debug { manifest with files := shuffled } = .ok () ↔
      manifest.validate debug = .ok () := by
  have hpaths := (h.map ManifestFile.path).nodup_iff
  simp only [validate_ok, h.mem_iff, hpaths]

end RepoManifest
end Valid

theorem sortByPath_perm (files : List ManifestFile) : (sortByPath files).Perm files :=
  List.perm_insertionSort _ files

def StrictlySorted (files : List ManifestFile) : Prop :=
  files.Pairwise fun left right => pathBytes left < pathBytes right

theorem sortByPath_sorted (h : (files.map ManifestFile.path).Nodup) :
    StrictlySorted (sortByPath files) := by
  have hsorted : (sortByPath files).Pairwise fun left right => pathBytes left ≤ pathBytes right :=
    List.pairwise_insertionSort _ files
  have hdistinct : (sortByPath files).Pairwise fun left right => left.path ≠ right.path :=
    List.pairwise_map.mp (((sortByPath_perm files).map _).nodup_iff.mpr h)
  refine (hsorted.and hdistinct).imp ?_
  rintro left right ⟨hle, hne⟩
  exact lt_of_le_of_ne hle fun h => hne (pathBytes_inj.mp h)

theorem StrictlySorted.sortByPath_eq (h : StrictlySorted files) : sortByPath files = files :=
  (h.imp fun hlt => le_of_lt hlt).insertionSort_eq

/-- Files with distinct paths have one sorted order. -/
theorem StrictlySorted.unique (hleft : StrictlySorted left) (hright : StrictlySorted right)
    (h : left.Perm right) : left = right :=
  h.eq_of_pairwise (fun _ _ _ _ hlt hgt => absurd hlt (lt_asymm hgt)) hleft hright

namespace RepoManifest
variable {codec : ManifestCodec} {debug : String → String} {blake3 : Blake3}

theorem decode_format : decode codec debug = (canonical codec debug).decode := rfl

theorem encode_format : encode codec debug = (canonical codec debug).encode := rfl

theorem format_lawful (hcodec : codec.Exact) : (canonical codec debug).Lawful where
  read_write h := mapError_ok.mpr (hcodec (mapError_ok.mp h))
  check_normal h := (validate_perm (sortByPath_perm _)).mpr h
  normal_normal h := by
    have hsorted := sortByPath_sorted (validate_ok.mp h).2.2.2.2
    exact congrArg (RepoManifest.mk _ _ _) hsorted.sortByPath_eq

/-- A valid manifest is its own normal form when its files are strictly sorted. -/
theorem ordered_eq_iff {manifest : RepoManifest} (h : manifest.validate debug = .ok ()) :
    manifest.ordered = manifest ↔ StrictlySorted manifest.files := by
  constructor
  · intro hordered
    have hsorted := sortByPath_sorted (validate_ok.mp h).2.2.2.2
    exact congrArg RepoManifest.files hordered ▸ hsorted
  · intro hsorted
    exact congrArg (RepoManifest.mk _ _ _) hsorted.sortByPath_eq

theorem encode_valid {manifest : RepoManifest} (h : manifest.encode codec debug = .ok bytes) :
    manifest.validate debug = .ok () :=
  (Canonical.Format.encode_ok.mp (encode_format ▸ h)).1

theorem revision_ok {manifest : RepoManifest} : manifest.revision codec debug blake3 = .ok kappa ↔
    ∃ bytes, manifest.encode codec debug = .ok bytes ∧ kappaOf blake3 bytes = kappa := by
  simp [revision, bind_ok]

/-- The order the files are listed in is not part of what is written. -/
theorem encode_perm {manifest : RepoManifest} (h : shuffled.Perm manifest.files)
    (hencode : manifest.encode codec debug = .ok bytes) :
    encode codec debug { manifest with files := shuffled } = .ok bytes := by
  obtain ⟨hvalid, hwrite⟩ := Canonical.Format.encode_ok.mp (encode_format ▸ hencode)
  have hvalid' := (validate_perm h).mpr hvalid
  have hfiles : sortByPath shuffled = sortByPath manifest.files :=
    (sortByPath_sorted (validate_ok.mp hvalid').2.2.2.2).unique
      (sortByPath_sorted (validate_ok.mp hvalid).2.2.2.2)
      ((sortByPath_perm shuffled).trans (h.trans (sortByPath_perm _).symm))
  refine encode_format ▸ Canonical.Format.encode_ok.mpr ⟨hvalid', ?_⟩
  have hordered : ordered { manifest with files := shuffled } = manifest.ordered :=
    congrArg (RepoManifest.mk _ _ _) hfiles
  exact (congrArg (canonical codec debug).write hordered).trans hwrite

theorem revision_perm {manifest : RepoManifest} (h : shuffled.Perm manifest.files) :
    (revision codec debug blake3 { manifest with files := shuffled }).toOption =
      (manifest.revision codec debug blake3).toOption := by
  apply Option.ext
  intro kappa
  rw [toOption_eq_some, toOption_eq_some, revision_ok, revision_ok]
  constructor
  · rintro ⟨bytes, hencode, hkappa⟩
    have hback : manifest.files.Perm shuffled := h.symm
    exact ⟨bytes, @encode_perm _ _ _ _ { manifest with files := shuffled } hback hencode, hkappa⟩
  · rintro ⟨bytes, hencode, hkappa⟩
    exact ⟨bytes, encode_perm h hencode, hkappa⟩

theorem decode_iff (hcodec : codec.Exact) {manifest : RepoManifest} :
    decode codec debug bytes = .ok manifest ↔ manifest.validate debug = .ok () ∧
      StrictlySorted manifest.files ∧ manifest.encode codec debug = .ok bytes := by
  rw [decode_format, Canonical.Format.decode_iff (format_lawful hcodec), ← encode_format]
  constructor
  · rintro ⟨hordered, hencode⟩
    have hvalid := encode_valid hencode
    exact ⟨hvalid, (ordered_eq_iff hvalid).mp hordered, hencode⟩
  · rintro ⟨hvalid, hsorted, hencode⟩
    exact ⟨(ordered_eq_iff hvalid).mpr hsorted, hencode⟩

theorem kappaOf_inj : kappaOf blake3 left = kappaOf blake3 right ↔ blake3 left = blake3 right := by
  rw [kappaOf, kappaOf, String.append_right_inj, hexDigest_inj]

/-- A revision names one accepted byte string and one manifest, while the hash keeps
the accepted byte strings apart. -/
theorem decode_unique (hcodec : codec.Exact) {manifest other : RepoManifest}
    (hfirst : decode codec debug first = .ok manifest)
    (hsecond : decode codec debug second = .ok other)
    (hrevision : manifest.revision codec debug blake3 = other.revision codec debug blake3)
    (hapart : blake3 first = blake3 second → first = second) : first = second ∧ manifest = other := by
  have hkappa : manifest.revision codec debug blake3 = .ok (kappaOf blake3 first) :=
    revision_ok.mpr ⟨first, ((decode_iff hcodec).mp hfirst).2.2, rfl⟩
  rw [hrevision] at hkappa
  obtain ⟨bytes, hbytes, hsame⟩ := revision_ok.mp hkappa
  rw [((decode_iff hcodec).mp hsecond).2.2, Except.ok.injEq] at hbytes
  obtain rfl := hbytes
  obtain rfl := hapart (kappaOf_inj.mp hsame).symm
  rw [hfirst, Except.ok.injEq] at hsecond
  exact ⟨rfl, hsecond⟩

end RepoManifest

/-- An encoding decodes to the manifest it is of, in the order of its paths, and names
a revision whatever order its files were given in. Nothing decodes but the encoding of
a valid manifest whose files are in that order, so a revision has one byte string and
one manifest. -/
theorem manifest_codec {codec : ManifestCodec} (hcodec : codec.Exact) (debug : String → String)
    (blake3 : Blake3) :
    (∀ manifest bytes, RepoManifest.encode codec debug manifest = .ok bytes →
      RepoManifest.decode codec debug bytes = .ok manifest.ordered ∧
        manifest.revision codec debug blake3 = .ok (kappaOf blake3 bytes)) ∧
    (∀ (manifest : RepoManifest) (shuffled : List ManifestFile), shuffled.Perm manifest.files →
      (RepoManifest.revision codec debug blake3 { manifest with files := shuffled }).toOption =
        (manifest.revision codec debug blake3).toOption) ∧
    (∀ bytes manifest, RepoManifest.decode codec debug bytes = .ok manifest ↔
      manifest.validate debug = .ok () ∧ StrictlySorted manifest.files ∧
        manifest.encode codec debug = .ok bytes) ∧
    (∀ first second manifest other, RepoManifest.decode codec debug first = .ok manifest →
      RepoManifest.decode codec debug second = .ok other →
      manifest.revision codec debug blake3 = other.revision codec debug blake3 →
      (blake3 first = blake3 second → first = second) → first = second ∧ manifest = other) := by
  refine ⟨?_, ?_, ?_, ?_⟩
  · intro manifest bytes hencode
    have hdecode := Canonical.Format.decode_encode (RepoManifest.format_lawful hcodec)
      (RepoManifest.encode_format ▸ hencode)
    exact ⟨hdecode, RepoManifest.revision_ok.mpr ⟨bytes, hencode, rfl⟩⟩
  · intro manifest shuffled hperm
    exact RepoManifest.revision_perm hperm
  · intro bytes manifest
    exact RepoManifest.decode_iff hcodec
  · intro first second manifest other hfirst hsecond hrevision hapart
    exact RepoManifest.decode_unique hcodec hfirst hsecond hrevision hapart

section Sample

def emptyFile (path : String) : ManifestFile :=
  ⟨path, 0, none, none,
    "blake3:af1349b9f5f9a1a6a0404dea36dcc9499bcb25c9adc112b7cc9a93cae41f3262", []⟩

def sampleManifest : RepoManifest :=
  { RepoManifest.new "team/app" with files := [emptyFile "b", emptyFile "a"] }

def sampleJson : String :=
  "\x7b\"format\":\"hologram.repo-manifest/v1\",\"name\":\"team/app\",\"files\":[" ++
  "\x7b\"path\":\"a\",\"size\":0,\"blake3\":" ++
  "\"blake3:af1349b9f5f9a1a6a0404dea36dcc9499bcb25c9adc112b7cc9a93cae41f3262\"," ++
  "\"chunks\":[]\x7d,\x7b\"path\":\"b\",\"size\":0,\"blake3\":" ++
  "\"blake3:af1349b9f5f9a1a6a0404dea36dcc9499bcb25c9adc112b7cc9a93cae41f3262\"," ++
  "\"chunks\":[]\x7d]\x7d"

/-- The serializer on the one manifest at hand. -/
def sampleCodec : ManifestCodec where
  toVec manifest :=
    if manifest = sampleManifest.ordered then .ok (Utf8.encode sampleJson)
    else .error "another manifest"
  fromSlice bytes :=
    if bytes = Utf8.encode sampleJson then .ok sampleManifest.ordered
    else .error "expected value"

theorem sampleCodec_exact : sampleCodec.Exact := by
  intro manifest bytes h
  dsimp only [sampleCodec] at h ⊢
  split at h
  · rename_i hmanifest
    obtain rfl := Except.ok.inj h
    rw [if_pos rfl, hmanifest]
  · cases h

theorem sampleCodec_toVec :
    sampleCodec.toVec sampleManifest.ordered = .ok (Utf8.encode sampleJson) := by
  dsimp only [sampleCodec]
  rw [if_pos rfl]

theorem manifest_codec_sample :
    sampleManifest.ordered.files = [emptyFile "a", emptyFile "b"] ∧
    RepoManifest.decode sampleCodec id (Utf8.encode sampleJson) = .ok sampleManifest.ordered := by
  have hvalid : (sampleManifest.validate id).toOption = some () := by decide
  have hencode : sampleManifest.encode sampleCodec id = .ok (Utf8.encode sampleJson) := by
    rw [RepoManifest.encode, toOption_eq_some.mp hvalid, ok_bind, sampleCodec_toVec]
    rfl
  refine ⟨by decide, ?_⟩
  exact ((manifest_codec sampleCodec_exact id fun _ => Vector.replicate 32 0).1 _ _ hencode).1

end Sample
end HologramLive.Repo
