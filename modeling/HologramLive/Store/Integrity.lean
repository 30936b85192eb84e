import HologramLive.Store.Intact
import HologramLive.Lib.Utf8
import Mathlib.Logic.Encodable.Basic
import Mathlib.Logic.Equiv.List

namespace HologramLive.Store
open Lib Lib.Files Lib.Interleaving

namespace DiskStore
variable {store : DiskStore} {contents : Set Contents} {files state : FileSystem} {pid : Nat}

section Operations
variable {may : Verdict → Prop} {bytes : Contents}

theorem ensures_readMetadata {post : Except LiveError β → FileSystem → Prop} {digest : String}
    {rest : Option ObjectMetadata → FileProgram LiveError β} {holds : FileSystem → Prop}
    (hnow : holds files)
    (h : ∀ existing, Program.Ensures serve may holds post (rest existing) files) :
    Program.Ensures serve may holds post (store.readMetadata digest >>= rest) files := by
  refine ⟨hnow, ?_⟩
  intro verdict _
  cases verdict with
  | refused error written => exact h none
  | granted =>
    simp only [serve_granted, FileSystem.granted]
    cases files (store.metadataPath digest) with
    | none => exact h none
    | some bytes => exact h (store.fromSlice bytes).toOption

theorem describe_ensures (hcodec : ∀ metadata, store.fromSlice (store.toVecPretty metadata) = .ok metadata)
    (h : Kept store contents files)
    (hfile : files (store.blobPath (hexDigest store.blake3 bytes)) = some bytes)
    (now : Nat) (kind mediaType : String) (filename : Option String) :
    Program.Ensures serve may (Kept store contents) (fun _ _ => True)
      (store.describe pid now kind mediaType filename bytes) files := by
  apply ensures_readMetadata h
  intro existing
  apply Program.Ensures.bind (Placed may _ _)
  · apply (atomicWrite_ensures may pid _ _ files).mono
    · intro state hupdate
      exact h.of_record hupdate (hcodec _) rfl hfile rfl
    · exact fun _ _ _ hplaced => hplaced
  · exact fun _ _ hkept _ => ⟨hkept, trivial⟩
  · exact fun _ _ _ _ => trivial

/-- A blob that is missing, as the caller has just seen. -/
theorem placeBlob_ensures (h : Kept store contents files) (hbytes : bytes ∈ contents)
    (hmissing : files (store.blobPath (hexDigest store.blake3 bytes)) = none) :
    Program.Ensures serve may (Kept store contents)
      (Placed may (store.blobPath (hexDigest store.blake3 bytes)) bytes)
      (atomicWrite pid (store.blobPath (hexDigest store.blake3 bytes)) bytes) files := by
  apply (atomicWrite_ensures may pid _ _ files).mono
  · intro state hupdate
    apply h.of_blob hbytes hupdate
    intro blob hfile
    rw [hmissing] at hfile
    cases hfile
  · exact fun _ _ _ hplaced => hplaced

/-- A blob that may be there already is safe when its update is never refused. -/
theorem replaceBlob_ensures (hinj : Set.InjOn store.blake3 contents)
    (h : Kept store contents files) (hbytes : bytes ∈ contents) :
    Program.Ensures serve (· = .granted) (fun _ => True)
      (fun result state => result = .ok () ∧ Kept store contents state ∧
        state (store.blobPath (hexDigest store.blake3 bytes)) = some bytes)
      (atomicWrite pid (store.blobPath (hexDigest store.blake3 bytes)) bytes) files := by
  apply (atomicWrite_ensures _ pid _ _ files).mono
  · exact fun _ _ => trivial
  · intro result state hupdate hplaced
    cases result with
    | error error =>
      obtain ⟨verdict, hverdict, hne⟩ := hplaced
      exact absurd hverdict hne
    | ok value =>
      refine ⟨rfl, h.of_blob hbytes hupdate ?_, hplaced⟩
      intro blob hfile
      rw [h.blob_eq hinj hbytes hfile]
      exact hplaced

/-- A program that first looks for a file keeps the store when it does so on what is
there, and also on a wrong answer that nothing else goes wrong after. -/
theorem advance_looked {path : Path} {rest : Bool → FileProgram LiveError Unit}
    (h : Kept store contents files)
    (hseen : Program.Ensures serve (fun _ => True) (Kept store contents) (fun _ _ => True)
      (rest (files path).isSome) files)
    (hunseen : Program.Ensures serve (· = .granted) (fun _ => True)
      (fun _ state => Kept store contents state) (rest false) files)
    {verdicts : List Verdict}
    (hverdicts : ∀ error written others, verdicts = .refused error written :: others →
      (∀ other ∈ others, other = .granted) ∧
        (Program.advance serve verdicts (pathExists path >>= rest) files).1.outcome.isSome) :
    Kept store contents (Program.advance serve verdicts (pathExists path >>= rest) files).2 := by
  cases verdicts with
  | nil => simpa using h
  | cons verdict others =>
    rw [advance_pathExists] at hverdicts ⊢
    cases verdict with
    | granted => exact (hseen.sound fun _ _ => trivial).1
    | refused error written =>
      obtain ⟨hgranted, hended⟩ := hverdicts error written others rfl
      obtain ⟨result, hresult⟩ := Option.isSome_iff_exists.mp hended
      exact (hunseen.sound hgranted).2 result hresult

theorem recorded_ensures
    (hcodec : ∀ metadata, store.fromSlice (store.toVecPretty metadata) = .ok metadata)
    (h : Kept store contents files)
    (hfile : files (store.blobPath (hexDigest store.blake3 bytes)) = some bytes)
    (now : Nat) (kind mediaType : String) (filename : Option String) :
    Program.Ensures serve may (Kept store contents) (fun _ _ => True)
      (store.describe pid now kind mediaType filename bytes >>= fun _ => .done ()) files := by
  apply (describe_ensures hcodec h hfile now kind mediaType filename).bind _
  · exact fun _ _ hkept _ => ⟨hkept, trivial⟩
  · exact fun _ _ _ _ => trivial

theorem program_put (now : Nat) (kind mediaType : String) (filename : Option String) :
    store.program pid (.put now kind mediaType filename bytes) =
      (pathExists (store.blobPath (hexDigest store.blake3 bytes)) >>= fun found =>
        (if !found then atomicWrite pid (store.blobPath (hexDigest store.blake3 bytes)) bytes
          else .done ()) >>= fun _ =>
        (store.describe pid now kind mediaType filename bytes) >>= fun _ => .done ()) := by
  simp only [program, put, ensureBlob, Program.bind_assoc]
  rfl

theorem put_seen (hcodec : ∀ metadata, store.fromSlice (store.toVecPretty metadata) = .ok metadata)
    (hinj : Set.InjOn store.blake3 contents) (h : Kept store contents files)
    (hbytes : bytes ∈ contents) (now : Nat) (kind mediaType : String) (filename : Option String) :
    Program.Ensures serve may (Kept store contents) (fun _ _ => True)
      ((if !(files (store.blobPath (hexDigest store.blake3 bytes))).isSome then
          atomicWrite pid (store.blobPath (hexDigest store.blake3 bytes)) bytes
        else .done ()) >>= fun _ =>
      (store.describe pid now kind mediaType filename bytes) >>= fun _ => .done ()) files := by
  cases hfile : files (store.blobPath (hexDigest store.blake3 bytes)) with
  | none =>
    apply (placeBlob_ensures h hbytes hfile).bind _
    · exact fun _ state hstate hplaced =>
        recorded_ensures hcodec hstate hplaced now kind mediaType filename
    · exact fun _ _ _ _ => trivial
  | some blob =>
    obtain rfl := h.blob_eq hinj hbytes hfile
    exact recorded_ensures hcodec h hfile now kind mediaType filename

theorem put_unseen (hcodec : ∀ metadata, store.fromSlice (store.toVecPretty metadata) = .ok metadata)
    (hinj : Set.InjOn store.blake3 contents) (h : Kept store contents files)
    (hbytes : bytes ∈ contents) (now : Nat) (kind mediaType : String) (filename : Option String) :
    Program.Ensures serve (· = .granted) (fun _ => True) (fun _ state => Kept store contents state)
      (atomicWrite pid (store.blobPath (hexDigest store.blake3 bytes)) bytes >>= fun _ =>
      (store.describe pid now kind mediaType filename bytes) >>= fun _ => .done ()) files := by
  apply (replaceBlob_ensures hinj h hbytes).bind _
  · rintro value state - ⟨-, hstate, hfile⟩
    apply (recorded_ensures hcodec hstate hfile now kind mediaType filename).mono
    · exact fun _ _ => trivial
    · exact fun _ _ hkept _ => hkept
  · rintro error state - ⟨hresult, -⟩
    cases hresult

theorem cache_seen (h : Kept store contents files) (hbytes : bytes ∈ contents) :
    Program.Ensures serve may (Kept store contents) (fun _ _ => True)
      (if (files (store.blobPath (hexDigest store.blake3 bytes))).isSome then .done ()
        else if bytes.length > maxNewBytes then
          .fail (.capability "addressed object exceeds the permitted new-byte ceiling")
        else atomicWrite pid (store.blobPath (hexDigest store.blake3 bytes)) bytes >>= fun _ =>
          .done ()) files := by
  cases hfile : files (store.blobPath (hexDigest store.blake3 bytes)) with
  | some blob => exact ⟨h, trivial⟩
  | none =>
    simp only [Option.isSome_none, Bool.false_eq_true, ↓reduceIte]
    split
    · exact ⟨h, trivial⟩
    · apply (placeBlob_ensures h hbytes hfile).bind _
      · exact fun _ _ hkept _ => ⟨hkept, trivial⟩
      · exact fun _ _ _ _ => trivial

theorem cache_unseen (hinj : Set.InjOn store.blake3 contents) (h : Kept store contents files)
    (hbytes : bytes ∈ contents) :
    Program.Ensures serve (· = .granted) (fun _ => True) (fun _ state => Kept store contents state)
      (if bytes.length > maxNewBytes then
          .fail (.capability "addressed object exceeds the permitted new-byte ceiling")
        else atomicWrite pid (store.blobPath (hexDigest store.blake3 bytes)) bytes >>= fun _ =>
          .done ()) files := by
  split
  · exact ⟨trivial, h⟩
  · apply (replaceBlob_ensures hinj h hbytes).bind _
    · rintro value state - ⟨-, hstate, -⟩
      exact ⟨trivial, hstate⟩
    · rintro error state - ⟨hresult, -⟩
      cases hresult

theorem rename_program_ensures
    (hcodec : ∀ metadata, store.fromSlice (store.toVecPretty metadata) = .ok metadata)
    (h : Kept store contents files) (id filename : String) :
    Program.Ensures serve may (Kept store contents) (fun _ _ => True)
      (store.program pid (.renameFile id filename)) files := by
  simp only [program, renameFile, Program.bind_assoc]
  apply Program.Ensures.ofExcept h fun _ _ => trivial
  intro name _
  apply Program.Ensures.ofExcept h fun _ _ => trivial
  intro digest hid
  have hvalid := (validateId_ok.mp hid).2
  apply ensures_attempt h
  case hrefused => exact fun error _ _ => ⟨h, error, rfl, trivial⟩
  cases hfile : files (store.metadataPath digest) with
  | none =>
    simp only [FileSystem.granted, hfile]
    exact ⟨h, trivial⟩
  | some record =>
    simp only [FileSystem.granted, hfile, onReply_ok, Program.done_bind]
    obtain ⟨stored, blob, hdecode, hstored, hblob, hsize⟩ := h.records digest record hvalid hfile
    apply Program.Ensures.ofExcept h fun _ _ => trivial
    intro metadata hmetadata
    rw [hdecode] at hmetadata
    obtain rfl := Except.ok.inj hmetadata
    split
    · exact ⟨h, trivial⟩
    · apply Program.Ensures.bind fun _ _ => True
      · apply Program.Ensures.bind (Placed may _ _)
        · apply (atomicWrite_ensures may pid _ _ files).mono
          · intro state hupdate
            exact h.of_record hupdate (hcodec _) hstored hblob hsize
          · exact fun _ _ _ hplaced => hplaced
        · exact fun _ _ hkept _ => ⟨hkept, trivial⟩
        · exact fun _ _ _ _ => trivial
      · exact fun _ _ hkept _ => ⟨hkept, trivial⟩
      · exact fun _ _ _ _ => trivial

theorem remove_program_ensures (h : Kept store contents files) (id : String) :
    Program.Ensures serve may (Kept store contents) (fun _ _ => True)
      (store.program pid (.removeMetadata id)) files := by
  simp only [program, removeMetadata]
  apply Program.Ensures.ofExcept h fun _ _ => trivial
  intro digest _
  apply ensures_pathExists h
  intro verdict _
  cases hfound : found verdict files (store.metadataPath digest) with
  | false => exact ⟨h, trivial⟩
  | true =>
    refine ⟨h, ?_⟩
    intro other _
    cases other with
    | refused error written => exact ⟨h, trivial⟩
    | granted =>
      simp only [serve_granted, FileSystem.granted]
      cases files (store.metadataPath digest) with
      | none => exact ⟨h, trivial⟩
      | some record => exact ⟨h.without_record digest, trivial⟩

end Operations

/-- A call is interrupted at most once, or the first thing it asks of the file system is
answered: `exists` takes a refusal for absence, and a blob that is wrongly taken for
absent is written over. -/
def Bearable (store : DiskStore) (files : FileSystem) (attempted : Attempted) : Prop :=
  store.interruptions files attempted ≤ 1 ∨
    ∀ error written rest, attempted.verdicts ≠ .refused error written :: rest

theorem Bearable.spared {attempted : Attempted} (h : store.Bearable files attempted)
    {error : IoError} {written : Option Nat} {rest : List Verdict}
    (hverdicts : attempted.verdicts = .refused error written :: rest) :
    (∀ other ∈ rest, other = .granted) ∧ (store.ran files attempted).1.outcome.isSome := by
  have hone := h.resolve_right fun hfirst => hfirst error written rest hverdicts
  rw [interruptions, hverdicts, List.countP_cons_of_pos (by simp)] at hone
  constructor
  · intro other hother
    by_contra hne
    have : 0 < rest.countP (· ≠ .granted) := List.countP_pos_iff.mpr ⟨other, hother, by simpa using hne⟩
    omega
  · cases hended : (store.ran files attempted).1.outcome with
    | some result => rfl
    | none =>
      rw [hended] at hone
      simp at hone

theorem step_kept (hcodec : ∀ metadata, store.fromSlice (store.toVecPretty metadata) = .ok metadata)
    (hinj : Set.InjOn store.blake3 contents) (h : Kept store contents files) {attempted : Attempted}
    (hgiven : ∀ bytes, attempted.operation.bytes = some bytes → bytes ∈ contents)
    (hbearable : store.Bearable files attempted) : Kept store contents (store.ran files attempted).2 := by
  obtain ⟨pid, operation, verdicts⟩ := attempted
  have hspared := fun error written others => @hbearable.spared _ _ _ error written others
  cases operation with
  | renameFile id filename =>
    have hensures : Program.Ensures serve (fun _ => True) (store.Kept contents) (fun _ _ => True)
        (store.program pid (.renameFile id filename)) files :=
      rename_program_ensures hcodec h id filename
    exact (hensures.sound fun _ _ => trivial).1
  | removeMetadata id =>
    have hensures : Program.Ensures serve (fun _ => True) (store.Kept contents) (fun _ _ => True)
        (store.program pid (.removeMetadata id)) files :=
      remove_program_ensures h id
    exact (hensures.sound fun _ _ => trivial).1
  | put now kind mediaType filename bytes =>
    have hbytes := hgiven bytes rfl
    simp only [ran, program_put] at hspared ⊢
    exact advance_looked h (put_seen hcodec hinj h hbytes now kind mediaType filename)
      (put_unseen hcodec hinj h hbytes now kind mediaType filename) hspared
  | cacheAddressedBounded id bytes maxNewBytes =>
    have hbytes := hgiven bytes rfl
    cases hid : validateId store.debug id with
    | error error =>
      have hprogram : store.program pid (.cacheAddressedBounded id bytes maxNewBytes) =
          .fail error := by
        simp only [program, cacheAddressedBounded, hid]
        rfl
      simpa [ran, hprogram] using h
    | ok digest =>
      by_cases hsame : hexDigest store.blake3 bytes = digest
      · subst digest
        have hprogram : store.program pid (.cacheAddressedBounded id bytes maxNewBytes) =
            (pathExists (store.blobPath (hexDigest store.blake3 bytes)) >>= fun found =>
              if found then .done ()
              else if bytes.length > maxNewBytes then
                .fail (.capability "addressed object exceeds the permitted new-byte ceiling")
              else atomicWrite pid (store.blobPath (hexDigest store.blake3 bytes)) bytes >>= fun _ =>
                .done ()) := by
          simp only [program, cacheAddressedBounded, hid, Program.ofExcept, Program.done_bind,
            ne_eq, not_true_eq_false, ↓reduceIte, Program.bind_assoc]
          congr 1
          funext found
          cases found with
          | true => rfl
          | false =>
            simp only [Bool.false_eq_true, ↓reduceIte]
            split
            · rfl
            · exact Program.bind_assoc ..
        simp only [ran, hprogram] at hspared ⊢
        exact advance_looked h (cache_seen h hbytes) (cache_unseen hinj h hbytes) hspared
      · have hprogram : store.program pid (.cacheAddressedBounded id bytes maxNewBytes) =
            .fail (.invalidHolo s!"content blob {id} does not match its bytes") := by
          simp only [program, cacheAddressedBounded, hid, Program.ofExcept, Program.done_bind,
            ne_eq, hsame, not_false_eq_true, ↓reduceIte]
          rfl
        simpa [ran, hprogram] using h

theorem kept_empty : Kept store contents (fun _ => none) := by
  refine ⟨⟨?_, ?_⟩, ?_⟩
  · intro digest bytes _ hfile
    cases hfile
  · intro digest bytes _ hfile
    cases hfile
  · intro digest bytes _ hfile
    cases hfile

/-- Whatever calls are made on an empty root, by whichever processes, and wherever each of
them is interrupted: blobs are what their names say and records describe blobs. The byte
strings that are stored have different hashes. -/
theorem store_stays_intact (store : DiskStore) (contents : Set Contents)
    (hcodec : ∀ metadata, store.fromSlice (store.toVecPretty metadata) = .ok metadata)
    (hinj : Set.InjOn store.blake3 contents) (files : FileSystem)
    (h : Reaches store.step (fun files attempted => store.Bearable files attempted ∧
      ∀ bytes, attempted.operation.bytes = some bytes → bytes ∈ contents) (fun _ => none) files) :
    store.Intact files := by
  have hkept : Kept store contents files := by
    apply h.invariant
    · exact kept_empty
    · rintro state attempted next hstate ⟨hbearable, hgiven⟩ hstep
      obtain rfl := Option.some.inj hstep
      exact step_kept hcodec hinj hstate hgiven hbearable
  exact hkept.toIntact

/-! A store at which the hash of no bytes is the real one. -/

def emptyHash : Vector UInt8 32 :=
  #v[0xaf, 0x13, 0x49, 0xb9, 0xf5, 0xf9, 0xa1, 0xa6, 0xa0, 0x40, 0x4d, 0xea, 0x36, 0xdc, 0xc9, 0x49,
    0x9b, 0xcb, 0x25, 0xc9, 0xad, 0xc1, 0x12, 0xb7, 0xcc, 0x9a, 0x93, 0xca, 0xe4, 0x1f, 0x32, 0x62]

def emptyFile : ObjectMetadata :=
  { id := "blake3:af1349b9f5f9a1a6a0404dea36dcc9499bcb25c9adc112b7cc9a93cae41f3262"
    kind := "file", mediaType := "text/plain", filename := some "empty.txt", size := 0
    createdAtMillis := 5 }

def emptyFileRecord : Contents := Utf8.encode
  "\x7b\n  \"id\": \"blake3:af1349b9f5f9a1a6a0404dea36dcc9499bcb25c9adc112b7cc9a93cae41f3262\",
  \"kind\": \"file\",\n  \"media_type\": \"text/plain\",\n  \"filename\": \"empty.txt\",
  \"size\": 0,\n  \"created_at_millis\": 5\n\x7d"

def codes (text : String) : List Nat := text.toList.map Char.toNat

def spell (codes : List Nat) : String := String.ofList (codes.map Char.ofNat)

theorem spell_codes (text : String) : spell (codes text) = text := by
  simp [spell, codes, Function.comp_def, Char.ofNat_toNat]

instance : Encodable ObjectMetadata :=
  Encodable.ofLeftInverse
    (fun metadata => (codes metadata.id, codes metadata.kind, codes metadata.mediaType,
      metadata.filename.map codes, metadata.size, metadata.createdAtMillis))
    (fun (id, kind, mediaType, filename, size, createdAtMillis) =>
      { id := spell id, kind := spell kind, mediaType := spell mediaType
        filename := filename.map spell, size, createdAtMillis })
    (fun metadata => by
      have hnames : metadata.filename.map (spell ∘ codes) = metadata.filename := by
        rw [show spell ∘ codes = id from funext spell_codes, Option.map_id_fun, id]
      simp [spell_codes, hnames])

/-- The one file's record is spelled out, and any other is as many bytes as its number. -/
def sampleStore : DiskStore where
  root := ["", "var", "hologram"]
  blake3 _ := emptyHash
  debug text := text.quote
  toVecPretty metadata :=
    if metadata = emptyFile then emptyFileRecord
    else List.replicate (Encodable.encode metadata) 0
  fromSlice bytes :=
    if bytes = emptyFileRecord then .ok emptyFile
    else match Encodable.decode bytes.length with
      | some metadata => .ok metadata
      | none => .error "expected value at line 1 column 1"

theorem sampleStore_reads (metadata : ObjectMetadata) :
    sampleStore.fromSlice (sampleStore.toVecPretty metadata) = .ok metadata := by
  by_cases hfile : metadata = emptyFile
  · simp [sampleStore, hfile]
  · have hother : List.replicate (Encodable.encode metadata) 0 ≠ emptyFileRecord := by
      intro heq
      have hbrace : (0x7b : UInt8) ∈ emptyFileRecord := by decide +kernel
      rw [← heq] at hbrace
      exact absurd (List.eq_of_mem_replicate hbrace) (by decide)
    simp [sampleStore, hfile, hother, Encodable.encodek]

def sampleAttempt : Attempted :=
  { pid := 7, operation := .put 5 "file" "text/plain" (some "empty.txt") []
    verdicts := List.replicate 10 .granted }

theorem store_stays_intact_sample :
    sampleStore.Intact (sampleStore.ran (fun _ => none) sampleAttempt).2 :=
  store_stays_intact sampleStore {[]} sampleStore_reads (Set.injOn_singleton _ _) _
    (.step .start ⟨.inr (by rintro _ _ _ ⟨⟩), by rintro _ ⟨⟩; rfl⟩ rfl)

/-- Twice interrupted: the lookup of a stored blob is refused, and the call that then
writes it over is cut off after its removal. -/
example :
    let stored := (sampleStore.ran (fun _ => none) sampleAttempt).2
    let torn := (sampleStore.ran stored
      { sampleAttempt with verdicts := .refused missing none :: List.replicate 4 .granted }).2
    torn (sampleStore.blobPath (hex emptyHash.toList)) = none ∧
      torn (sampleStore.metadataPath (hex emptyHash.toList)) = some emptyFileRecord := by
  decide +kernel

end DiskStore
end HologramLive.Store
