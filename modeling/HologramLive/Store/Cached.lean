import HologramLive.Store.Intact

namespace HologramLive.Store
open Lib Lib.Files

namespace DiskStore
variable {store : DiskStore} {files : FileSystem} {may : Verdict → Prop} {id digest : String}
  {bytes : Contents}

/-- Blob files hold what their names say. -/
def Addressed (store : DiskStore) (files : FileSystem) : Prop :=
  ∀ digest bytes, ValidDigest digest → files (store.blobPath digest) = some bytes →
    hexDigest store.blake3 bytes = digest

/-- What stands under an id. -/
def cached (store : DiskStore) (files : FileSystem) (id : String) :
    Except LiveError (Option Contents) :=
  (validateId store.debug id).map fun digest => files (store.blobPath digest)

theorem cached_ok {found : Option Contents} :
    store.cached files id = .ok found ↔
      ∃ digest, id = "blake3:" ++ digest ∧ ValidDigest digest ∧
        files (store.blobPath digest) = found := by
  unfold cached
  constructor
  · intro h
    cases hid : validateId store.debug id with
    | error error =>
      rw [hid] at h
      cases h
    | ok digest =>
      rw [hid] at h
      obtain ⟨rfl, hvalid⟩ := validateId_ok.mp hid
      exact ⟨digest, rfl, hvalid, Except.ok.inj h⟩
  · rintro ⟨digest, rfl, hvalid, rfl⟩
    have hid : validateId store.debug ("blake3:" ++ digest) = .ok digest :=
      validateId_ok.mpr ⟨rfl, hvalid⟩
    rw [hid]
    rfl

theorem Addressed.cached (h : store.Addressed files) (hcached : store.cached files id = .ok (some bytes)) :
    address store.blake3 bytes = id := by
  obtain ⟨digest, rfl, hvalid, hfile⟩ := cached_ok.mp hcached
  rw [address, h digest bytes hvalid hfile]

/-- Reading changes nothing, finds only what is there, and misses nothing when no call is
refused. -/
theorem getCached_ensures (may : Verdict → Prop) (id : String) (files : FileSystem) :
    Program.Ensures serve may (· = files)
      (fun result _ =>
        (∀ bytes, result = .ok (some bytes) → store.cached files id = .ok (some bytes)) ∧
        ((∀ verdict, may verdict → verdict = .granted) → result = store.cached files id))
      (store.getCached id) files := by
  unfold getCached cached
  cases hid : validateId store.debug id with
  | error error => exact ⟨rfl, by simp, fun _ => rfl⟩
  | ok digest =>
    refine ⟨rfl, ?_⟩
    intro verdict hmay
    cases verdict with
    | granted =>
      simp only [serve_granted, FileSystem.granted]
      cases hfile : files (store.blobPath digest) with
      | none =>
        refine ⟨rfl, by simp, ?_⟩
        intro
        simp [Except.map, hfile]
      | some bytes =>
        refine ⟨rfl, ?_, ?_⟩
        · rintro found hfound
          simp_all [Except.map]
        · intro
          simp [Except.map, hfile]
    | refused error written =>
      have hnot : ¬∀ verdict, may verdict → verdict = .granted := by
        intro hgranted
        cases hgranted _ hmay
      change Program.Ensures serve may _ _
        (if error.notFound then pure none
          else .fail (ioError (store.blobPath digest).display error)) files
      split
      · exact ⟨rfl, by simp, fun hgranted => absurd hgranted hnot⟩
      · exact ⟨rfl, by simp, fun hgranted => absurd hgranted hnot⟩

/-- What `cacheAddressed` comes to for bytes that match a well-formed id. -/
theorem cacheAddressed_eq (pid : Nat) (bytes : Contents) :
    store.cacheAddressed pid (address store.blake3 bytes) bytes =
      (pathExists (store.blobPath (hexDigest store.blake3 bytes)) >>= fun found =>
        if found then .done ()
        else if bytes.length > u64Max then
          .fail (.capability "addressed object exceeds the permitted new-byte ceiling")
        else atomicWrite pid (store.blobPath (hexDigest store.blake3 bytes)) bytes >>= fun _ =>
          .done ()) := by
  have hid : validateId store.debug (address store.blake3 bytes) =
      .ok (hexDigest store.blake3 bytes) := validateId_ok.mpr ⟨rfl, hexDigest_valid _ _⟩
  simp only [cacheAddressed, cacheAddressedBounded, hid, Program.ofExcept, Program.done_bind, ne_eq,
    not_true_eq_false, ↓reduceIte, Program.bind_assoc]
  congr 1
  funext found
  cases found with
  | true => rfl
  | false =>
    simp only [Bool.false_eq_true, ↓reduceIte]
    split
    · rfl
    · exact Program.bind_assoc ..

/-- Bytes that do not match the id, or an id that is none, are refused before any call. -/
theorem cacheAddressed_fails (pid : Nat) (h : address store.blake3 bytes ≠ id) :
    ∃ error, store.cacheAddressed pid id bytes = .fail error := by
  unfold cacheAddressed cacheAddressedBounded
  cases hid : validateId store.debug id with
  | error error => exact ⟨error, rfl⟩
  | ok digest =>
    obtain ⟨hname, hvalid⟩ := validateId_ok.mp hid
    have hne : hexDigest store.blake3 bytes ≠ digest := by
      rintro rfl
      exact h hname.symm
    refine ⟨.invalidHolo s!"content blob {id} does not match its bytes", ?_⟩
    simp only [hid, Program.ofExcept, Program.done_bind, ne_eq, hne, not_false_eq_true, ↓reduceIte]
    rfl

theorem Addressed.updating {pid : Nat} {state : FileSystem} (h : store.Addressed files)
    (hupdate : Updating pid (store.blobPath (hexDigest store.blake3 bytes)) bytes files state) :
    store.Addressed state := by
  intro digest blob hvalid hstate
  by_cases hsame : digest = hexDigest store.blake3 bytes
  · subst digest
    rcases hupdate.target with hbefore | hnone | hnew
    · exact h _ blob hvalid (hbefore ▸ hstate)
    · rw [hnone] at hstate
      cases hstate
    · rw [hnew] at hstate
      obtain rfl := Option.some.inj hstate
      rfl
  · rw [blob_unmoved hupdate hvalid (blobPath_injective.ne hsame)] at hstate
    exact h digest blob hvalid hstate

/-- Other ids are not affected by an update of a blob. -/
theorem cached_updating {pid : Nat} {state : FileSystem}
    (hupdate : Updating pid (store.blobPath (hexDigest store.blake3 bytes)) bytes files state)
    (hne : id ≠ address store.blake3 bytes) : store.cached state id = store.cached files id := by
  unfold cached
  cases hid : validateId store.debug id with
  | error error => rfl
  | ok digest =>
    obtain ⟨rfl, hvalid⟩ := validateId_ok.mp hid
    have hdigest : digest ≠ hexDigest store.blake3 bytes := by
      rintro rfl
      exact hne rfl
    exact congrArg Except.ok (blob_unmoved hupdate hvalid (blobPath_injective.ne hdigest))

/-- However caching is interrupted, blob files hold what their names say. -/
theorem cacheAddressed_addressed (may : Verdict → Prop) (h : store.Addressed files) (pid : Nat)
    (id : String) (bytes : Contents) :
    Program.Ensures serve may store.Addressed (fun _ _ => True)
      (store.cacheAddressed pid id bytes) files := by
  by_cases hsame : address store.blake3 bytes = id
  · rw [← hsame, cacheAddressed_eq]
    apply ensures_pathExists h
    intro verdict _
    split
    · exact ⟨h, trivial⟩
    · split
      · exact ⟨h, trivial⟩
      · apply Program.Ensures.bind fun _ _ => True
        · apply (atomicWrite_ensures may pid _ _ files).mono
          · exact fun state hupdate => h.updating hupdate
          · exact fun _ _ _ _ => trivial
        · exact fun _ _ hstate _ => ⟨hstate, trivial⟩
        · exact fun _ _ _ _ => trivial
  · obtain ⟨error, hfails⟩ := cacheAddressed_fails pid hsame
    rw [hfails]
    exact ⟨h, trivial⟩

/-- A missing blob is put in place, or nothing happens. -/
theorem cacheAddressed_places (pid : Nat) (hmissing : store.cached files id = .ok none) :
    Program.Ensures serve (· = .granted) (fun _ => True)
      (fun result state =>
        (result = .ok () ∧ address store.blake3 bytes = id ∧
          Updating pid (store.blobPath (hexDigest store.blake3 bytes)) bytes files state ∧
          state (store.blobPath (hexDigest store.blake3 bytes)) = some bytes) ∨
        (∃ error, result = .error error) ∧ state = files)
      (store.cacheAddressed pid id bytes) files := by
  by_cases hsame : address store.blake3 bytes = id
  · have hnone : files (store.blobPath (hexDigest store.blake3 bytes)) = none := by
      obtain ⟨digest, hid, _, hfile⟩ := cached_ok.mp hmissing
      obtain rfl : hexDigest store.blake3 bytes = digest := by
        simpa [address] using hsame.trans hid
      exact hfile
    rw [← hsame, cacheAddressed_eq]
    apply ensures_pathExists trivial
    rintro verdict rfl
    simp only [found, hnone, Option.isSome_none, Bool.false_eq_true, ↓reduceIte]
    split
    · exact ⟨trivial, .inr ⟨⟨_, rfl⟩, rfl⟩⟩
    · apply Program.Ensures.bind fun result state => result = .ok () ∧
        Updating pid (store.blobPath (hexDigest store.blake3 bytes)) bytes files state ∧
        state (store.blobPath (hexDigest store.blake3 bytes)) = some bytes
      · exact atomicWrite_granted pid _ _ files
      · rintro value state - ⟨-, hupdate, hstored⟩
        exact ⟨trivial, .inl ⟨rfl, trivial, hupdate, hstored⟩⟩
      · rintro error state - ⟨hresult, -⟩
        cases hresult
  · obtain ⟨error, hfails⟩ := cacheAddressed_fails pid hsame
    rw [hfails]
    exact ⟨trivial, .inr ⟨⟨error, rfl⟩, rfl⟩⟩

end DiskStore
end HologramLive.Store
