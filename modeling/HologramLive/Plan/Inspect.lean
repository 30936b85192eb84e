import HologramLive.Plan.Explain

namespace HologramLive.Plan
open Lib Lib.Result

structure HoloInspection where
  kappa : String
  applicationKappa : Option String
  name : String
  formatVersion : Nat
  byteLength : Nat
  archiveFingerprint : String
  footerVerified : Bool
  directory : Option HoloDirectory
  directoryEmbedded : Bool
  deriving DecidableEq

/-- The verified directory of an application archive, with the application's kappa. -/
def inspectDirectory (upstream : Upstream) (archive : Archive) (directories : List Bytes) :
    Except LiveError (Option HoloDirectory × Option String) :=
  match archive.appManifest with
  | some manifestBytes => do
    let manifest ← (upstream.decodeManifest manifestBytes).mapError fun error =>
      .invalidHolo s!"decode application manifest: {error}"
    let applicationKappa := upstream.addressBytes (upstream.canonicalizeManifest manifest)
    let blobs ← liftHolo archive.contentBlobs
    let derived ← Directory.verifyRequired upstream manifest directories blobs
    .ok (some derived, some applicationKappa)
  | none =>
    if directories ≠ [] then
      .error (.invalidHolo "application directory requires an application manifest")
    else .ok (none, none)

def inspectBytes (upstream : Upstream) (kappa name : String) (bytes : Bytes) :
    Except LiveError HoloInspection := do
  requireCurrent bytes
  let archive ← liftHolo (upstream.load bytes)
  let extensions ← liftHolo archive.extensions
  let (directory, applicationKappa) ←
    inspectDirectory upstream archive (Directory.directoriesOf extensions)
  .ok
    { kappa, applicationKappa, name
      formatVersion := (bytes.getD 4 0).toNat + 256 * (bytes.getD 5 0).toNat
      byteLength := bytes.length
      archiveFingerprint := hex archive.fingerprint
      footerVerified := true
      directory
      directoryEmbedded := directory.isSome }

section Inspect
variable {upstream : Upstream}

/-- Whether bytes are an archive does not depend on what they are called. -/
theorem inspectBytes_renamed (h : inspectBytes upstream kappa name bytes = .ok inspection)
    (kappa' name' : String) : inspectBytes upstream kappa' name' bytes =
      .ok { inspection with kappa := kappa', name := name' } := by
  obtain ⟨_, hcurrent, h⟩ := bind_ok.mp h
  obtain ⟨archive, hload, h⟩ := bind_ok.mp h
  obtain ⟨extensions, hextensions, h⟩ := bind_ok.mp h
  obtain ⟨⟨directory, applicationKappa⟩, hdirectory, h⟩ := bind_ok.mp h
  cases h
  unfold inspectBytes
  rw [hcurrent, ok_bind, hload, ok_bind, hextensions, ok_bind, hdirectory]
  rfl

theorem inspectBytes_names (h : inspectBytes upstream kappa name bytes = .ok inspection) :
    inspection.kappa = kappa ∧ inspection.name = name := by
  have hsame := inspectBytes_renamed h kappa name
  rw [h] at hsame
  have hfields := Except.ok.inj hsame
  exact ⟨congrArg HoloInspection.kappa hfields, congrArg HoloInspection.name hfields⟩

theorem indexBlobs_labels {blobs : List (Bytes × Bytes)} {indexed : List HoloBlob}
    (h : Directory.indexBlobs upstream blobs indexed = .ok result) (table : List (String × Bytes)) :
    ∃ embedded, embeddedTable blobs table = .ok embedded := by
  induction blobs generalizing indexed table with
  | nil => exact ⟨table, rfl⟩
  | cons blob rest ih =>
    obtain ⟨label, content⟩ := blob
    unfold Directory.indexBlobs at h
    unfold embeddedTable
    cases hlabel : Utf8.decode label with
    | none => simp [hlabel] at h
    | some kappa =>
      simp only [hlabel] at h
      obtain ⟨-, h⟩ := guard_ok.mp h
      obtain ⟨-, h⟩ := guard_ok.mp h
      exact ih h _

/-- A directory that is verified was derived from a valid manifest and well-labelled blobs. -/
theorem verifyRequired_derives {manifest : AppManifest} {directories : List Bytes}
    {blobs : List (Bytes × Bytes)}
    (h : Directory.verifyRequired upstream manifest directories blobs = .ok derived) :
    upstream.validateManifest manifest = .ok () ∧
      ∃ indexed, Directory.indexBlobs upstream blobs [] = .ok indexed := by
  unfold Directory.verifyRequired at h
  split at h
  · cases h
  · cases h
  obtain ⟨declared, -, h⟩ := bind_ok.mp h
  obtain ⟨found, hderive, -⟩ := bind_ok.mp h
  unfold Directory.derive at hderive
  split at hderive
  · cases hderive
  · rename_i hvalidate
    obtain ⟨indexed, hindexed, -⟩ := bind_ok.mp hderive
    exact ⟨hvalidate, indexed, hindexed⟩

/-- An archive inspects as an application exactly when planning can read it. -/
theorem readSource_inspected (hcanonical : upstream.Canonical) {bytes : Bytes}
    (h : inspectBytes upstream kappa name bytes = .ok inspection) :
    (∃ source, readSource upstream bytes = .ok source) ↔ inspection.applicationKappa.isSome := by
  obtain ⟨_, hcurrent, h⟩ := bind_ok.mp h
  obtain ⟨archive, hload, h⟩ := bind_ok.mp h
  obtain ⟨extensions, hextensions, h⟩ := bind_ok.mp h
  obtain ⟨⟨directory, applicationKappa⟩, hdirectory, h⟩ := bind_ok.mp h
  cases h
  unfold inspectDirectory at hdirectory
  unfold readSource
  rw [hcurrent, ok_bind, hload, ok_bind]
  cases hmanifest : archive.appManifest with
  | none =>
    rw [hmanifest] at hdirectory
    obtain ⟨-, hdirectory⟩ := guard_ok.mp hdirectory
    cases hdirectory
    simp
  | some manifestBytes =>
    rw [hmanifest] at hdirectory
    obtain ⟨manifest, hdecode, hdirectory⟩ := bind_ok.mp hdirectory
    obtain ⟨blobs, hblobs, hdirectory⟩ := bind_ok.mp hdirectory
    obtain ⟨derived, hderived, hdirectory⟩ := bind_ok.mp hdirectory
    cases hdirectory
    obtain ⟨hvalidate, indexed, hindexed⟩ := verifyRequired_derives hderived
    obtain ⟨embedded, hembedded⟩ := indexBlobs_labels hindexed []
    have hread := mapError_ok.mp hdecode
    have hroot := hcanonical manifestBytes manifest hread hvalidate
    refine iff_of_true ?_ rfl
    simp only [hread, hvalidate, hextensions, hblobs, hderived, hembedded, hroot, ok_bind,
      Except.mapError]
    exact ⟨_, rfl⟩

end Inspect

end HologramLive.Plan
