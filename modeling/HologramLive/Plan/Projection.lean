import HologramLive.Plan.DirectoryJson
import HologramLive.Plan.Inspect
import Mathlib.Data.List.Perm.Basic

namespace HologramLive.Plan
open Lib Lib.Result

/-- What planning reads of an archive: its manifest, who it is and what is packed in it. -/
structure ReadArchive where
  manifest : AppManifest
  canonicalManifest : Bytes
  identity : HoloIdentity
  embedded : List (String × Bytes)

/-- The planner's own decoding and directory step. -/
def readArchive (upstream : Upstream) (archiveBytes : Bytes) : Except LiveError ReadArchive := do
  requireCurrent archiveBytes
  let archive ← liftHolo (upstream.load archiveBytes)
  match archive.appManifest with
  | none => .error (.capability "application planning requires an AppManifest section")
  | some manifestBytes => do
    let manifest ← (upstream.decodeManifest manifestBytes).mapError fun error =>
      .invalidHolo s!"decode application manifest: {error}"
    (upstream.validateManifest manifest).mapError fun error =>
      .invalidHolo s!"validate application manifest: {error}"
    let canonicalManifest := upstream.canonicalizeManifest manifest
    let identity : HoloIdentity :=
      { archiveKappa := upstream.addressBytes archiveBytes
        archiveFingerprint := hex archive.fingerprint
        applicationKappa := upstream.addressBytes canonicalManifest }
    let extensions ← liftHolo archive.extensions
    let blobs ← liftHolo archive.contentBlobs
    let _ ← Directory.verifyRequired upstream manifest (Directory.directoriesOf extensions) blobs
    let embedded ← embeddedTable blobs []
    .ok { manifest, canonicalManifest, identity, embedded }

/-- Planning reads an archive by that step, and then its root out of the canonical manifest. -/
theorem readSource_eq (upstream : Upstream) (archiveBytes : Bytes) :
    readSource upstream archiveBytes = (do
      let read ← readArchive upstream archiveBytes
      let root ← (upstream.decodeManifest read.canonicalManifest).mapError fun error =>
        .invalidHolo s!"decode canonical application manifest: {error}"
      .ok { identity := read.identity, manifest := read.manifest, root, embedded := read.embedded }) := by
  unfold readSource readArchive
  simp only [bind_assoc]
  refine bind_congr fun _ => bind_congr fun archive => ?_
  cases archive.appManifest with
  | none => rfl
  | some manifestBytes => simp only [bind_assoc, ok_bind]

namespace Directory

/-- A blob and its row in the table. -/
structure Labelled (upstream : Upstream) (blob : Bytes × Bytes) (row : HoloBlob) : Prop where
  label : Utf8.decode blob.1 = some row.kappa
  address : upstream.addressBytes blob.2 = row.kappa
  byteLength : row.byteLength = blob.2.length

/-- No manifest or blob is larger than the machine can hold. -/
structure SizedInput (manifest : AppManifest) (blobs : List (Bytes × Bytes)) : Prop where
  primary : ∀ primary, manifest.primary = some primary → primary < 2 ^ 32
  blobs : ∀ blob ∈ blobs, blob.2.length < 2 ^ 64

section
variable {upstream : Upstream} {manifest : AppManifest} {blobs : List (Bytes × Bytes)}
  {indexed result : List HoloBlob} {directory : HoloDirectory}

theorem indexBlobs_ok : indexBlobs upstream blobs indexed = .ok result ↔
    ∃ rows, List.Forall₂ (Labelled upstream) blobs rows ∧ (rows.map HoloBlob.kappa).Nodup ∧
      (∀ row ∈ rows, ∀ blob ∈ indexed, blob.kappa ≠ row.kappa) ∧
      result = rows.reverse ++ indexed := by
  induction blobs generalizing indexed with
  | nil =>
    constructor
    · intro h
      obtain rfl := Except.ok.inj h
      exact ⟨[], .nil, by simp, by simp, rfl⟩
    · rintro ⟨rows, hrows, -, -, rfl⟩
      cases hrows
      rfl
  | cons blob rest ih =>
    obtain ⟨label, content⟩ := blob
    unfold indexBlobs
    cases hlabel : Utf8.decode label with
    | none =>
      refine iff_of_false (by simp) ?_
      rintro ⟨rows, hrows, -⟩
      cases hrows with
      | cons hfirst _ =>
        have := hfirst.label
        simp [hlabel] at this
    | some kappa =>
      dsimp only
      rw [guard_ok, guard_ok, ih]
      constructor
      · rintro ⟨haddress, hnew, rows, hrows, hnodup, hfresh, rfl⟩
        have hkappa : ∀ row ∈ rows, row.kappa ≠ kappa := fun row hrow heq =>
          hfresh row hrow ⟨kappa, content.length⟩ (by simp) heq.symm
        refine ⟨⟨kappa, content.length⟩ :: rows, .cons ⟨hlabel, not_not.mp haddress, rfl⟩ hrows,
          ?_, ?_, by simp⟩
        · rw [List.map_cons, List.nodup_cons]
          refine ⟨?_, hnodup⟩
          intro hmem
          obtain ⟨row, hrow, heq⟩ := List.mem_map.mp hmem
          exact hkappa row hrow heq
        · rw [List.forall_mem_cons]
          refine ⟨?_, fun row hrow blob hblob => hfresh row hrow blob (by simp [hblob])⟩
          intro blob hblob heq
          exact hnew (List.any_eq_true.mpr ⟨blob, hblob, by simpa using heq⟩)
      · rintro ⟨rows, hrows, hnodup, hfresh, rfl⟩
        cases hrows with
        | @cons _ row _ rows hfirst hrest =>
          obtain ⟨hnot, hrestNodup⟩ := List.nodup_cons.mp hnodup
          obtain ⟨hnew, hrestFresh⟩ := List.forall_mem_cons.mp hfresh
          have hkappa : kappa = row.kappa := by
            have := hfirst.label
            rw [hlabel] at this
            exact Option.some.inj this
          have hrow : row = ⟨kappa, content.length⟩ := by
            rw [hkappa, ← hfirst.byteLength]
          subst hrow
          refine ⟨not_not.mpr hfirst.address, ?_, rows, hrest, hrestNodup, ?_, by simp⟩
          · intro hany
            obtain ⟨blob, hblob, heq⟩ := List.any_eq_true.mp hany
            exact hnew blob hblob (by simpa using heq)
          · intro other hother
            rw [List.forall_mem_cons]
            refine ⟨?_, hrestFresh other hother⟩
            intro heq
            exact hnot (List.mem_map.mpr ⟨other, hother, heq.symm⟩)

/-- The table a directory gets, whatever order the blobs come in. -/
theorem indexBlobs_perm {order : List (Bytes × Bytes)} (horder : order.Perm blobs)
    (h : indexBlobs upstream blobs [] = .ok indexed) :
    ∃ indexed', indexBlobs upstream order [] = .ok indexed' ∧
      indexed'.insertionSort (fun left right => left.kappa ≤ right.kappa) =
        indexed.insertionSort (fun left right => left.kappa ≤ right.kappa) := by
  obtain ⟨rows, hrows, hnodup, -, rfl⟩ := indexBlobs_ok.mp h
  obtain ⟨rows', hrows', hperm⟩ := List.perm_comp_forall₂ horder hrows
  have hnodup' : (rows'.map HoloBlob.kappa).Nodup := (hperm.map _).nodup_iff.mpr hnodup
  refine ⟨rows'.reverse ++ [], indexBlobs_ok.mpr ⟨rows', hrows', hnodup', by simp, rfl⟩, ?_⟩
  have hinj : ∀ left ∈ rows, ∀ right ∈ rows, left.kappa = right.kappa → left = right :=
    List.inj_on_of_nodup_map hnodup
  have htotal : Std.Total fun left right : HoloBlob => left.kappa ≤ right.kappa :=
    ⟨fun left right => le_total left.kappa right.kappa⟩
  have htrans : IsTrans HoloBlob fun left right => left.kappa ≤ right.kappa :=
    ⟨fun _ _ _ => le_trans⟩
  refine List.Perm.eq_of_pairwise ?_ (List.pairwise_insertionSort ..)
    (List.pairwise_insertionSort ..) ?_
  · intro left right hleft hright hle hge
    rw [List.mem_insertionSort] at hleft hright
    refine hinj left (hperm.mem_iff.mp (by simpa using hleft)) right (by simpa using hright) ?_
    exact le_antisymm hle hge
  · exact (List.perm_insertionSort _ _).trans <|
      ((List.reverse_perm rows').append_right [] |>.trans
        ((hperm.trans (List.reverse_perm rows).symm).append_right [])).trans
      (List.perm_insertionSort _ _).symm

theorem mapM_self {α ε : Type} {list : List α} {f : α → Except ε α}
    (h : ∀ a ∈ list, f a = .ok a) : list.mapM f = .ok list := by
  induction list with
  | nil => rfl
  | cons a rest ih =>
    have hrest := ih fun b hb => h b (by simp [hb])
    rw [List.mapM_cons, h a (by simp), ok_bind, hrest]
    rfl

theorem guestContract_self {value contract : String}
    (h : guestContract upstream value = .ok contract) :
    guestContract upstream contract = .ok contract := by
  have hnormal := mapError_ok.mp h
  rw [normalizeWasmContract] at hnormal
  split at hnormal
  · rename_i hknown
    obtain rfl := Except.ok.inj hnormal
    exact h
  · cases hnormal

/-- Every row that is projected is one that decoding leaves as it is. -/
theorem projectLayer_ok {layer : Layer} {position : Nat} {row : HoloLayer}
    (h : projectLayer upstream layer position = .ok row) :
    row.Sized ∧ checkLayer upstream row = .ok row := by
  obtain ⟨hposition, h⟩ := guard_ok.mp h
  obtain ⟨kind, content, entry, aux⟩ := layer
  cases kind with
  | wasmCodemodule =>
    obtain ⟨contract, hcontract, h⟩ := bind_ok.mp h
    obtain rfl := Except.ok.inj h
    refine ⟨not_le.mp hposition, ?_⟩
    simp [checkLayer, layerKindName, guestContract_self hcontract]
  | tensorPlan =>
    obtain rfl := Except.ok.inj h
    exact ⟨not_le.mp hposition, rfl⟩
  | rootfsImage =>
    obtain rfl := Except.ok.inj h
    exact ⟨not_le.mp hposition, rfl⟩
  | view =>
    obtain rfl := Except.ok.inj h
    exact ⟨not_le.mp hposition, rfl⟩
  | inferenceModel =>
    obtain rfl := Except.ok.inj h
    exact ⟨not_le.mp hposition, rfl⟩

theorem projectChild_ok {child : String × String} {position : Nat} {row : HoloChild}
    (h : projectChild child position = .ok row) : row.Sized := by
  obtain ⟨hposition, h⟩ := guard_ok.mp h
  obtain rfl := Except.ok.inj h
  exact ⟨not_le.mp hposition, by simp⟩

/-- What a derived directory consists of. -/
structure Derived (upstream : Upstream) (manifest : AppManifest) (blobs : List (Bytes × Bytes))
    (indexed : List HoloBlob) (layers : List HoloLayer) (children : List HoloChild) : Prop where
  valid : upstream.validateManifest manifest = .ok ()
  indexed : indexBlobs upstream blobs [] = .ok indexed
  layers : manifest.layers.zipIdx.mapM
    (fun (layer, position) => projectLayer upstream layer position) = .ok layers
  children : manifest.children.zipIdx.mapM
    (fun (child, position) => projectChild child position) = .ok children

def directoryOf (manifest : AppManifest) (indexed : List HoloBlob) (layers : List HoloLayer)
    (children : List HoloChild) : HoloDirectory where
  schemaVersion := directorySchemaVersion
  primaryLayer := manifest.primary
  requiresKappa := manifest.requires
  layers
  children
  blobs := indexed.insertionSort fun left right => left.kappa ≤ right.kappa

theorem derive_ok : derive upstream manifest blobs = .ok directory ↔
    ∃ indexed layers children, Derived upstream manifest blobs indexed layers children ∧
      directory = directoryOf manifest indexed layers children := by
  unfold derive
  constructor
  · intro h
    split at h
    · cases h
    · rename_i hvalid
      obtain ⟨indexed, hindexed, h⟩ := bind_ok.mp h
      obtain ⟨layers, hlayers, h⟩ := bind_ok.mp h
      obtain ⟨children, hchildren, h⟩ := bind_ok.mp h
      exact ⟨indexed, layers, children, ⟨hvalid, hindexed, hlayers, hchildren⟩,
        (Except.ok.inj h).symm⟩
  · rintro ⟨indexed, layers, children, ⟨hvalid, hindexed, hlayers, hchildren⟩, rfl⟩
    rw [hvalid]
    exact bind_ok.mpr ⟨indexed, hindexed, bind_ok.mpr ⟨layers, hlayers,
      bind_ok.mpr ⟨children, hchildren, rfl⟩⟩⟩

example :
    (derive (Catalog.upstream { wasmContracts := ["core"] })
      ⟨some 0, "ab", [⟨.wasmCodemodule, "ab", "run", "core"⟩], [("c", "ab")]⟩
      [([99], [99]), ([97, 98], [97, 98])]).toOption =
    some ⟨1, some 0, "ab", [⟨0, "wasm", "ab", "run", some "core", none, none, none⟩],
      [{ position := 0, applicationKappa := "c", capabilitiesKappa := "ab" }],
      [⟨"ab", 2⟩, ⟨"c", 1⟩]⟩ := by decide

/-- The order the blobs come in does not show. -/
theorem derive_perm {order : List (Bytes × Bytes)} (horder : order.Perm blobs)
    (h : derive upstream manifest blobs = .ok directory) :
    derive upstream manifest order = .ok directory := by
  obtain ⟨indexed, layers, children, ⟨hvalid, hindexed, hlayers, hchildren⟩, rfl⟩ := derive_ok.mp h
  obtain ⟨indexed', hindexed', hsort⟩ := indexBlobs_perm horder hindexed
  refine derive_ok.mpr ⟨indexed', layers, children, ⟨hvalid, hindexed', hlayers, hchildren⟩, ?_⟩
  rw [directoryOf, directoryOf, hsort]

theorem derive_sized (hsized : SizedInput manifest blobs)
    (h : derive upstream manifest blobs = .ok directory) : directory.Sized := by
  obtain ⟨indexed, layers, children, hderived, rfl⟩ := derive_ok.mp h
  obtain ⟨rows, hrows, -, -, rfl⟩ := indexBlobs_ok.mp hderived.indexed
  have hschema : directorySchemaVersion < 2 ^ 16 := by decide
  refine ⟨hschema, hsized.primary, ?_, ?_, ?_⟩
  · intro layer hlayer
    obtain ⟨source, -, hproject⟩ := exists_of_mem_results (mapM_ok hderived.layers) hlayer
    exact (projectLayer_ok hproject).1
  · intro child hchild
    obtain ⟨source, -, hproject⟩ := exists_of_mem_results (mapM_ok hderived.children) hchild
    exact projectChild_ok hproject
  · intro row hrow
    have hmem : row ∈ rows := by simpa [directoryOf] using hrow
    obtain ⟨blob, hblob, hlabelled⟩ := exists_of_mem_results hrows hmem
    have hlength := hsized.blobs blob hblob
    rw [← hlabelled.byteLength] at hlength
    exact hlength

/-- Decoding leaves a derived directory as it is. -/
theorem derive_checked (h : derive upstream manifest blobs = .ok directory) :
    directory.schemaVersion = directorySchemaVersion ∧
      directory.layers.mapM (checkLayer upstream) = .ok directory.layers := by
  obtain ⟨indexed, layers, children, hderived, rfl⟩ := derive_ok.mp h
  refine ⟨rfl, mapM_self fun layer hlayer => ?_⟩
  obtain ⟨source, -, hproject⟩ := exists_of_mem_results (mapM_ok hderived.layers) hlayer
  exact (projectLayer_ok hproject).2

theorem decode_ok {encoded : Bytes} : decode upstream encoded = .ok directory ↔
    ∃ written, upstream.directoryFromSlice encoded = .ok written ∧
      written.schemaVersion = directorySchemaVersion ∧
      ∃ layers, written.layers.mapM (checkLayer upstream) = .ok layers ∧
        directory = { written with layers } := by
  unfold decode
  cases upstream.directoryFromSlice encoded with
  | error error => simp
  | ok written =>
    dsimp only
    rw [guard_ok, bind_ok]
    constructor
    · rintro ⟨hschema, layers, hlayers, h⟩
      exact ⟨written, rfl, not_not.mp hschema, layers, hlayers, (Except.ok.inj h).symm⟩
    · rintro ⟨found, hfound, hschema, layers, hlayers, rfl⟩
      obtain rfl := Except.ok.inj hfound
      exact ⟨not_not.mpr hschema, layers, hlayers, rfl⟩

theorem verifyRequired_ok {directories : List Bytes} :
    verifyRequired upstream manifest directories blobs = .ok directory ↔
      ∃ encoded, directories = [encoded] ∧ decode upstream encoded = .ok directory ∧
        derive upstream manifest blobs = .ok directory := by
  unfold verifyRequired
  split
  · simp
  · simp
  · rename_i encoded
    rw [bind_ok]
    constructor
    · rintro ⟨declared, hdecode, h⟩
      obtain ⟨derived, hderive, h⟩ := bind_ok.mp h
      obtain ⟨hsame, h⟩ := guard_ok.mp h
      obtain rfl := Except.ok.inj h
      rw [not_not.mp hsame] at hdecode
      exact ⟨encoded, rfl, hdecode, hderive⟩
    · rintro ⟨found, hfound, hdecode, hderive⟩
      obtain rfl := (List.cons.inj hfound).1
      exact ⟨directory, hdecode, bind_ok.mpr ⟨directory, hderive, guard_ok.mpr ⟨by simp, rfl⟩⟩⟩

/-- The one encoding of a derived directory is accepted as what it was derived from. -/
theorem verifyRequired_encoded {codec : JsonCodec} {refusal : Bytes → String}
    {order : List (Bytes × Bytes)} (hsized : SizedInput manifest blobs)
    (h : derive (upstream.serde codec refusal) manifest blobs = .ok directory)
    (hkeeps : codec.Keeps directory.toJson) (horder : order.Perm blobs) :
    decode (upstream.serde codec refusal) (encode (upstream.serde codec refusal) directory) =
        .ok directory ∧
      verifyRequired (upstream.serde codec refusal) manifest
        [encode (upstream.serde codec refusal) directory] order = .ok directory := by
  obtain ⟨hschema, hlayers⟩ := derive_checked h
  have hread : (upstream.serde codec refusal).directoryFromSlice
      (encode (upstream.serde codec refusal) directory) = .ok directory :=
    hkeeps.read (HoloDirectory.ofJson_toJson (derive_sized hsized h))
  have hdecode := decode_ok.mpr ⟨directory, hread, hschema, directory.layers, hlayers, rfl⟩
  exact ⟨hdecode, verifyRequired_ok.mpr ⟨_, rfl, hdecode, derive_perm horder h⟩⟩

end
end Directory

section
variable {upstream : Upstream}

/-- An archive with a manifest inspects exactly where planning gets past reading it. -/
theorem inspectBytes_reads {bytes : Bytes} {archive : Archive} (kappa name : String)
    (hload : upstream.load bytes = .ok archive) (hmanifest : archive.appManifest ≠ none) :
    (∃ inspection, inspectBytes upstream kappa name bytes = .ok inspection) ↔
      ∃ read, readArchive upstream bytes = .ok read := by
  obtain ⟨manifestBytes, hbytes⟩ := Option.ne_none_iff_exists'.mp hmanifest
  have hlift : liftHolo (upstream.load bytes) = .ok archive := by rw [hload]; rfl
  constructor
  · rintro ⟨inspection, h⟩
    obtain ⟨_, hcurrent, h⟩ := bind_ok.mp h
    obtain ⟨archive', hload', h⟩ := bind_ok.mp h
    obtain rfl := Except.ok.inj (hlift.symm.trans hload')
    obtain ⟨extensions, hextensions, h⟩ := bind_ok.mp h
    obtain ⟨pair, hdirectory, -⟩ := bind_ok.mp h
    rw [inspectDirectory, hbytes] at hdirectory
    obtain ⟨manifest, hdecode, hdirectory⟩ := bind_ok.mp hdirectory
    obtain ⟨blobs, hblobs, hdirectory⟩ := bind_ok.mp hdirectory
    obtain ⟨derived, hderived, -⟩ := bind_ok.mp hdirectory
    obtain ⟨hvalidate, indexed, hindexed⟩ := verifyRequired_derives hderived
    obtain ⟨embedded, hembedded⟩ := indexBlobs_labels hindexed []
    have hread := mapError_ok.mp hdecode
    unfold readArchive
    rw [hcurrent, ok_bind, hlift, ok_bind, hbytes]
    simp only [hread, hvalidate, hextensions, hblobs, hderived, hembedded, ok_bind,
      Except.mapError]
    exact ⟨_, rfl⟩
  · rintro ⟨read, h⟩
    obtain ⟨_, hcurrent, h⟩ := bind_ok.mp h
    obtain ⟨archive', hload', h⟩ := bind_ok.mp h
    obtain rfl := Except.ok.inj (hlift.symm.trans hload')
    rw [hbytes] at h
    obtain ⟨manifest, hdecode, h⟩ := bind_ok.mp h
    obtain ⟨-, h⟩ := check_ok.mp h
    obtain ⟨extensions, hextensions, h⟩ := bind_ok.mp h
    obtain ⟨blobs, hblobs, h⟩ := bind_ok.mp h
    obtain ⟨derived, hderived, -⟩ := bind_ok.mp h
    have hdirectory : inspectDirectory upstream archive (Directory.directoriesOf extensions) =
        .ok (some derived, some (upstream.addressBytes (upstream.canonicalizeManifest manifest))) := by
      rw [inspectDirectory, hbytes]
      exact bind_ok.mpr ⟨manifest, hdecode, bind_ok.mpr ⟨blobs, hblobs,
        bind_ok.mpr ⟨derived, hderived, rfl⟩⟩⟩
    unfold inspectBytes
    rw [hcurrent, ok_bind, hlift, ok_bind, hextensions, ok_bind, hdirectory, ok_bind]
    exact ⟨_, rfl⟩

end

/-- What the projection is to be: stable under its encoding whatever order the blobs come in,
accepted only as what is derived, and the same to both readers of an archive. -/
structure Exact (upstream : Upstream) (codec : JsonCodec) : Prop where
  kept : ∀ manifest blobs directory, Directory.SizedInput manifest blobs →
    Directory.derive upstream manifest blobs = .ok directory → codec.Keeps directory.toJson →
    ∀ order : List (Bytes × Bytes), order.Perm blobs →
      Directory.derive upstream manifest order = .ok directory ∧
      Directory.decode upstream (Directory.encode upstream directory) = .ok directory ∧
      Directory.verifyRequired upstream manifest [Directory.encode upstream directory] order =
        .ok directory
  only : ∀ manifest directories blobs found,
    Directory.verifyRequired upstream manifest directories blobs = .ok found →
    ∃ encoded, directories = [encoded] ∧ Directory.decode upstream encoded = .ok found ∧
      Directory.derive upstream manifest blobs = .ok found
  readers : ∀ kappa name bytes archive, upstream.load bytes = .ok archive →
    archive.appManifest ≠ none →
    ((∃ inspection, inspectBytes upstream kappa name bytes = .ok inspection) ↔
      ∃ read, readArchive upstream bytes = .ok read)

theorem projection_exact (upstream : Upstream) (codec : JsonCodec) (refusal : Bytes → String) :
    Exact (upstream.serde codec refusal) codec where
  kept _ _ _ hsized hderive hkeeps _ horder :=
    ⟨Directory.derive_perm horder hderive,
      Directory.verifyRequired_encoded hsized hderive hkeeps horder⟩
  only _ _ _ _ h := Directory.verifyRequired_ok.mp h
  readers kappa name _ _ hload hmanifest := inspectBytes_reads kappa name hload hmanifest

end HologramLive.Plan
