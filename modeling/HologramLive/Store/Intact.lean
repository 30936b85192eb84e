import HologramLive.Store.Disk
import Mathlib.Data.Set.Function

namespace HologramLive.Store
open Lib Lib.Files

section Update
variable {files state : FileSystem} {path : Path} {pid : Nat} {new : Contents}

/-- Where an update of a file has come to: at its path stands the old file, nothing or
the new one, and nothing else but its temporary has changed. -/
structure Updating (pid : Nat) (path : Path) (new : Contents) (before after : FileSystem) :
    Prop where
  others : ∀ other, other ≠ path → other ≠ temporaryFor pid path → after other = before other
  target : after path = before path ∨ after path = none ∨ after path = some new

theorem Updating.start : Updating pid path new files files := ⟨fun _ _ _ => rfl, .inl rfl⟩

theorem Updating.scratched (h : Updating pid path new files state) (bytes : Contents) :
    Updating pid path new files (state.write (temporaryFor pid path) bytes) := by
  constructor
  · intro other hpath htemporary
    rw [FileSystem.write_other htemporary]
    exact h.others other hpath htemporary
  · rw [FileSystem.write_other (temporaryFor_ne pid path).symm]
    exact h.target

theorem Updating.removed (h : Updating pid path new files state) :
    Updating pid path new files (state.remove path) := by
  constructor
  · intro other hpath htemporary
    rw [FileSystem.remove_other hpath]
    exact h.others other hpath htemporary
  · exact .inr (.inl (FileSystem.remove_same ..))

theorem Updating.moved (h : Updating pid path new files state) :
    Updating pid path new files ((state.remove (temporaryFor pid path)).write path new) := by
  constructor
  · intro other hpath htemporary
    rw [FileSystem.write_other hpath, FileSystem.remove_other htemporary]
    exact h.others other hpath htemporary
  · exact .inr (.inr (FileSystem.write_same ..))

/-- A write that returned has put the new file in place. It fails only over a refusal. -/
def Placed (may : Verdict → Prop) (path : Path) (new : Contents) (result : Except LiveError Unit)
    (state : FileSystem) : Prop :=
  match result with
  | .ok () => state path = some new
  | .error _ => ∃ verdict, may verdict ∧ verdict ≠ .granted

theorem rename_ensures {may : Verdict → Prop} (h : Updating pid path new files state)
    (htemporary : state (temporaryFor pid path) = some new) :
    Program.Ensures serve may (Updating pid path new files) (Placed may path new)
      (attempt (.rename (temporaryFor pid path) path) (ioError path.display)) state := by
  refine ⟨h, ?_⟩
  intro verdict hmay
  cases verdict with
  | granted =>
    simp only [serve_granted, FileSystem.granted, htemporary]
    exact ⟨h.moved, FileSystem.write_same ..⟩
  | refused error written => exact ⟨h, _, hmay, by simp⟩

theorem atomicWrite_ensures (may : Verdict → Prop) (pid : Nat) (path : Path) (new : Contents)
    (files : FileSystem) :
    Program.Ensures serve may (Updating pid path new files) (Placed may path new)
      (atomicWrite pid path new) files := by
  apply ensures_attempt .start
  case hrefused => exact fun error _ hmay => ⟨.start, error, rfl, _, hmay, nofun⟩
  apply ensures_attempt .start
  case hrefused =>
    intro error written hmay
    refine ⟨?_, error, rfl, _, hmay, nofun⟩
    cases written with
    | none => exact .start
    | some count => exact Updating.start.scratched _
  have hwritten : Updating pid path new files (files.write (temporaryFor pid path) new) :=
    Updating.start.scratched _
  have htemporary : files.write (temporaryFor pid path) new (temporaryFor pid path) = some new :=
    FileSystem.write_same ..
  apply ensures_pathExists hwritten
  intro verdict hmay
  cases hfound : found verdict (files.write (temporaryFor pid path) new) path with
  | false => exact rename_ensures hwritten htemporary
  | true =>
    apply ensures_attempt hwritten
    case hrefused => exact fun error _ hmay => ⟨hwritten, error, rfl, _, hmay, nofun⟩
    have hthere : ∃ old, files.write (temporaryFor pid path) new path = some old := by
      cases verdict with
      | granted => exact Option.isSome_iff_exists.mp hfound
      | refused error written => cases hfound
    obtain ⟨old, hold⟩ := hthere
    simp only [FileSystem.granted, hold]
    apply rename_ensures hwritten.removed
    rw [FileSystem.remove_other (temporaryFor_ne pid path), htemporary]

/-- With no call refused the new file ends up in place. -/
theorem atomicWrite_granted (pid : Nat) (path : Path) (new : Contents) (files : FileSystem) :
    Program.Ensures serve (· = .granted) (fun _ => True)
      (fun result state => result = .ok () ∧ Updating pid path new files state ∧
        state path = some new)
      (atomicWrite pid path new) files := by
  apply (atomicWrite_ensures _ pid path new files).mono
  · exact fun _ _ => trivial
  · intro result state hupdate hplaced
    cases result with
    | ok value => exact ⟨rfl, hupdate, hplaced⟩
    | error error =>
      obtain ⟨verdict, rfl, hne⟩ := hplaced
      exact absurd rfl hne

end Update

namespace DiskStore
variable {store : DiskStore} {contents : Set Contents} {files state : FileSystem} {pid : Nat}

/-- Blob files hold what their names say, and records describe them. -/
structure Intact (store : DiskStore) (files : FileSystem) : Prop where
  blobs : ∀ digest bytes, ValidDigest digest → files (store.blobPath digest) = some bytes →
    hexDigest store.blake3 bytes = digest
  records : ∀ digest bytes, ValidDigest digest → files (store.metadataPath digest) = some bytes →
    ∃ metadata blob, store.fromSlice bytes = .ok metadata ∧ metadata.id = "blake3:" ++ digest ∧
      files (store.blobPath digest) = some blob ∧ metadata.size = blob.length

/-- The blobs come from the contents the store was given. -/
structure Kept (store : DiskStore) (contents : Set Contents) (files : FileSystem) : Prop
    extends Intact store files where
  given : ∀ digest bytes, ValidDigest digest → files (store.blobPath digest) = some bytes →
    bytes ∈ contents

theorem dots_digest {digest : String} (h : ValidDigest digest) : dots digest = 0 := by
  rw [dots, List.count_eq_zero]
  intro hdot
  exact absurd (List.all_eq_true.mp h.2 '.' hdot) (by decide)

theorem blob_ne_metadata (digest other : String) :
    store.blobPath digest ≠ store.metadataPath other := by
  intro h
  have := congrArg (fun path => path.directory.length) h
  simp [blobPath, metadataPath] at this

theorem blob_ne_temporary (path : Path) {digest : String} (h : ValidDigest digest) :
    store.blobPath digest ≠ temporaryFor pid path := by
  intro heq
  have htwo := two_dots_temporaryFor pid path
  rw [← heq] at htwo
  simp [blobPath, dots_digest h] at htwo

theorem metadata_ne_temporary (path : Path) {digest : String} (h : ValidDigest digest) :
    store.metadataPath digest ≠ temporaryFor pid path := by
  intro heq
  have htwo := two_dots_temporaryFor pid path
  have hone : dots ".json" = 1 := by decide
  rw [← heq] at htwo
  simp [metadataPath, dots_append, dots_digest h, hone] at htwo

theorem blobPath_injective : Function.Injective store.blobPath := by
  intro digest other h
  exact congrArg Path.name h

theorem metadataPath_injective : Function.Injective store.metadataPath := by
  intro digest other h
  simpa [metadataPath] using h

/-- Blobs and records other than the one that is being updated stay as they were. -/
theorem blob_unmoved {path : Path} {new : Contents} (h : Updating pid path new files state)
    {digest : String} (hvalid : ValidDigest digest) (hne : store.blobPath digest ≠ path) :
    state (store.blobPath digest) = files (store.blobPath digest) :=
  h.others _ hne (blob_ne_temporary path hvalid)

theorem metadata_unmoved {path : Path} {new : Contents} (h : Updating pid path new files state)
    {digest : String} (hvalid : ValidDigest digest) (hne : store.metadataPath digest ≠ path) :
    state (store.metadataPath digest) = files (store.metadataPath digest) :=
  h.others _ hne (metadata_ne_temporary path hvalid)

section Blob
variable {bytes : Contents}

/-- A blob that is still there after an update of its file, or was never there. -/
theorem Kept.of_blob (h : Kept store contents files) (hbytes : bytes ∈ contents)
    (hupdate : Updating pid (store.blobPath (hexDigest store.blake3 bytes)) bytes files state)
    (hstays : ∀ blob, files (store.blobPath (hexDigest store.blake3 bytes)) = some blob →
      state (store.blobPath (hexDigest store.blake3 bytes)) = some blob) :
    Kept store contents state := by
  have hblob : ∀ digest blob, ValidDigest digest → state (store.blobPath digest) = some blob →
      hexDigest store.blake3 blob = digest ∧ blob ∈ contents := by
    intro digest blob hvalid hstate
    by_cases hsame : digest = hexDigest store.blake3 bytes
    · subst digest
      rcases hupdate.target with hbefore | hnone | hnew
      · rw [hbefore] at hstate
        exact ⟨h.blobs _ _ hvalid hstate, h.given _ _ hvalid hstate⟩
      · rw [hnone] at hstate
        cases hstate
      · rw [hnew] at hstate
        obtain rfl := Option.some.inj hstate
        exact ⟨rfl, hbytes⟩
    · rw [blob_unmoved hupdate hvalid (blobPath_injective.ne hsame)] at hstate
      exact ⟨h.blobs _ _ hvalid hstate, h.given _ _ hvalid hstate⟩
  refine ⟨⟨fun digest blob hvalid hstate => (hblob digest blob hvalid hstate).1, ?_⟩,
    fun digest blob hvalid hstate => (hblob digest blob hvalid hstate).2⟩
  intro digest record hvalid hstate
  rw [metadata_unmoved hupdate hvalid (blob_ne_metadata _ _).symm] at hstate
  obtain ⟨metadata, blob, hdecode, hid, hfile, hsize⟩ := h.records digest record hvalid hstate
  refine ⟨metadata, blob, hdecode, hid, ?_, hsize⟩
  by_cases hsame : digest = hexDigest store.blake3 bytes
  · subst digest
    exact hstays blob hfile
  · rw [blob_unmoved hupdate hvalid (blobPath_injective.ne hsame), hfile]

theorem Kept.blob_eq (h : Kept store contents files) (hinj : Set.InjOn store.blake3 contents)
    (hbytes : bytes ∈ contents) {blob : Contents}
    (hfile : files (store.blobPath (hexDigest store.blake3 bytes)) = some blob) : blob = bytes := by
  have hvalid := hexDigest_valid store.blake3 bytes
  exact hinj (h.given _ _ hvalid hfile) hbytes (hexDigest_inj.mp (h.blobs _ _ hvalid hfile))

end Blob

/-- A record being replaced by one that describes its blob. -/
theorem Kept.of_record (h : Kept store contents files) {digest : String}
    {record blob : Contents} {metadata : ObjectMetadata}
    (hupdate : Updating pid (store.metadataPath digest) record files state)
    (hdecode : store.fromSlice record = .ok metadata) (hid : metadata.id = "blake3:" ++ digest)
    (hfile : files (store.blobPath digest) = some blob) (hsize : metadata.size = blob.length) :
    Kept store contents state := by
  have hblob : ∀ other, ValidDigest other →
      state (store.blobPath other) = files (store.blobPath other) := fun other hvalid =>
    blob_unmoved hupdate hvalid (blob_ne_metadata _ _)
  refine ⟨⟨?_, ?_⟩, ?_⟩
  · intro other bytes hvalid hstate
    rw [hblob other hvalid] at hstate
    exact h.blobs other bytes hvalid hstate
  · intro other bytes hvalid hstate
    rw [hblob other hvalid]
    by_cases hsame : other = digest
    · subst other
      rcases hupdate.target with hbefore | hnone | hnew
      · rw [hbefore] at hstate
        exact h.records digest bytes hvalid hstate
      · rw [hnone] at hstate
        cases hstate
      · rw [hnew] at hstate
        obtain rfl := Option.some.inj hstate
        exact ⟨metadata, blob, hdecode, hid, hfile, hsize⟩
    · rw [metadata_unmoved hupdate hvalid (metadataPath_injective.ne hsame)] at hstate
      exact h.records other bytes hvalid hstate
  · intro other bytes hvalid hstate
    rw [hblob other hvalid] at hstate
    exact h.given other bytes hvalid hstate

theorem Kept.without_record (h : Kept store contents files) (digest : String) :
    Kept store contents (files.remove (store.metadataPath digest)) := by
  have hblob : ∀ other, files.remove (store.metadataPath digest) (store.blobPath other) =
      files (store.blobPath other) := fun other =>
    FileSystem.remove_other (blob_ne_metadata _ _)
  refine ⟨⟨?_, ?_⟩, ?_⟩
  · intro other bytes hvalid hstate
    rw [hblob] at hstate
    exact h.blobs other bytes hvalid hstate
  · intro other bytes hvalid hstate
    rw [hblob]
    by_cases hsame : other = digest
    · subst other
      rw [FileSystem.remove_same] at hstate
      cases hstate
    · rw [FileSystem.remove_other (metadataPath_injective.ne hsame)] at hstate
      exact h.records other bytes hvalid hstate
  · intro other bytes hvalid hstate
    rw [hblob] at hstate
    exact h.given other bytes hvalid hstate

end DiskStore
end HologramLive.Store
