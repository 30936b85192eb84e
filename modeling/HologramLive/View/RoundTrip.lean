import HologramLive.Lib.Codec
import HologramLive.View.Bundle
import Mathlib.Data.List.Pairwise

namespace HologramLive.View
open Lib Lib.Result Lib.Codec

def pathsBefore (previous : Option String) (files : List ViewFile) : List String :=
  previous.toList ++ files.map ViewFile.path

def sizes (files : List ViewFile) : Nat := (files.map fun file => file.bytes.length).sum

@[simp] theorem sizes_cons (file : ViewFile) (rest : List ViewFile) :
    sizes (file :: rest) = file.bytes.length + sizes rest := by
  simp [sizes]

/-- What the asset loop demands of the assets still to come. -/
structure Admissible (previous : Option String) (seen : List (List Char)) (total : Nat)
    (files : List ViewFile) : Prop where
  portable : ∀ file ∈ files, ∃ logical, portablePath file.path = .ok logical
  ordered : (pathsBefore previous files).Pairwise (· < ·)
  fresh : ∀ file ∈ files, folded file.path ∉ seen
  distinct : (files.map fun file => folded file.path).Nodup
  fileBytes : ∀ file ∈ files, file.bytes.length ≤ maxFileBytes
  small : files = [] ∨ total + sizes files < 2 ^ 64

theorem admissible_nil (previous : Option String) (seen : List (List Char)) (total : Nat) :
    Admissible previous seen total [] := by
  refine ⟨by simp, ?_, by simp, by simp, by simp, .inl rfl⟩
  cases previous <;> simp [pathsBefore]

theorem admissible_cons :
    Admissible previous seen total (file :: rest) ↔
      (∃ logical, portablePath file.path = .ok logical) ∧
      (∀ value, previous = some value → value < file.path) ∧ folded file.path ∉ seen ∧
      file.bytes.length ≤ maxFileBytes ∧ total + file.bytes.length < 2 ^ 64 ∧
      Admissible (some file.path) (folded file.path :: seen) (total + file.bytes.length) rest := by
  have horder : (pathsBefore previous (file :: rest)).Pairwise (· < ·) ↔
      (∀ value, previous = some value → value < file.path) ∧
        (pathsBefore (some file.path) rest).Pairwise (· < ·) := by
    cases previous with
    | none => simp [pathsBefore]
    | some value =>
      simp only [pathsBefore, Option.toList_some, List.singleton_append, List.map_cons,
        List.pairwise_cons_cons_iff_of_trans, Option.some.injEq, forall_eq']
  constructor
  · intro h
    obtain ⟨hprevious, hrest⟩ := horder.mp h.ordered
    have hsmall := h.small.resolve_left (by simp)
    have hdistinct := List.nodup_cons.mp h.distinct
    rw [sizes_cons] at hsmall
    refine ⟨h.portable file (by simp), hprevious, h.fresh file (by simp),
      h.fileBytes file (by simp), by omega, ?_⟩
    refine ⟨fun f hf => h.portable f (by simp [hf]), hrest, ?_, hdistinct.2,
      fun f hf => h.fileBytes f (by simp [hf]), .inr (by omega)⟩
    intro f hf hmem
    rcases List.mem_cons.mp hmem with heq | hseen
    · exact hdistinct.1 (List.mem_map.mpr ⟨f, hf, heq⟩)
    · exact h.fresh f (by simp [hf]) hseen
  · rintro ⟨hportable, hprevious, hfresh, hbytes, hsum, h⟩
    refine ⟨?_, horder.mpr ⟨hprevious, h.ordered⟩, ?_, ?_, ?_, .inr ?_⟩
    · exact List.forall_mem_cons.mpr ⟨hportable, h.portable⟩
    · exact List.forall_mem_cons.mpr
        ⟨hfresh, fun f hf hseen => h.fresh f hf (List.mem_cons_of_mem _ hseen)⟩
    · refine List.nodup_cons.mpr ⟨?_, h.distinct⟩
      intro hmem
      obtain ⟨f, hf, heq⟩ := List.mem_map.mp hmem
      exact h.fresh f hf (heq ▸ List.mem_cons_self)
    · exact List.forall_mem_cons.mpr ⟨hbytes, h.fileBytes⟩
    · rw [sizes_cons]
      rcases h.small with rfl | hsmall
      · simpa [sizes] using hsum
      · omega

theorem validateFiles_cons {error : String → LiveError} :
    validateFiles error entry previous seen hasEntry total (file :: rest) =
      match portablePath file.path with
      | .error _ => .error (error "invalid View asset path")
      | .ok _ =>
        if previous.any fun value => file.path ≤ value then
          .error (error "View assets must be strictly lexically ordered")
        else if folded file.path ∈ seen then
          .error (error "View assets contain a case-insensitive path collision")
        else if maxFileBytes < file.bytes.length then
          .error (error "View asset exceeds the format limit")
        else if 2 ^ 64 ≤ total + file.bytes.length then
          .error (error "View bundle byte length overflowed")
        else
          validateFiles error entry (some file.path) (folded file.path :: seen)
            (hasEntry || file.path = entry) (total + file.bytes.length) rest := rfl

theorem validateFiles_ok {error : String → LiveError} :
    validateFiles error entry previous seen hasEntry total files = .ok (found, sum) ↔
      Admissible previous seen total files ∧
      found = (hasEntry || files.any fun file => file.path = entry) ∧
      sum = total + sizes files := by
  induction files generalizing previous seen hasEntry total with
  | nil =>
    rw [show validateFiles error entry previous seen hasEntry total [] = .ok (hasEntry, total) from rfl]
    simp only [Except.ok.injEq, Prod.mk.injEq, List.any_nil, Bool.or_false, sizes,
      List.map_nil, List.sum_nil, Nat.add_zero, admissible_nil, true_and]
    exact and_congr eq_comm eq_comm
  | cons file rest ih =>
    rw [validateFiles_cons, admissible_cons]
    cases hpath : portablePath file.path with
    | error fault => simp
    | ok logical =>
      have hprevious : (¬(previous.any fun value => decide (file.path ≤ value)) = true) ↔
          ∀ value, previous = some value → value < file.path := by
        cases previous <;> simp
      simp only [guard_ok, ih, hprevious, not_lt, not_le, List.any_cons, Bool.or_assoc, sizes_cons,
        Nat.add_assoc, Except.ok.injEq, exists_eq', true_and, and_assoc]

theorem validateBundle_ok (bundle : ViewBundle) (archive : Bool) :
    validateBundle bundle archive = .ok () ↔ WellFormed bundle := by
  simp only [validateBundle, guard_ok, bind_ok, Prod.exists, validateFiles_ok]
  constructor
  · rintro ⟨hversion, hentry, hcount, found, sum, ⟨h, rfl, rfl⟩, hsum, hfound, -⟩
    obtain ⟨hnonempty, hcount⟩ := not_or.mp hcount
    refine ⟨not_not.mp hversion, not_not.mp hentry, hnonempty, not_lt.mp hcount, h.portable,
      List.pairwise_map.mp (by simpa only [pathsBefore, Option.toList_none, List.nil_append]
        using h.ordered), h.distinct, h.fileBytes, ?_, ?_⟩
    · simpa [sizes] using hsum
    · simpa using hfound
  · intro h
    have hbytes := h.bundleBytes
    have hsmall : 0 + sizes bundle.files < 2 ^ 64 := by
      simp only [sizes, maxBundleBytes] at hbytes ⊢
      omega
    refine ⟨not_not.mpr h.version, not_not.mpr h.entry, not_or.mpr ⟨h.nonempty, not_lt.mpr h.count⟩,
      _, _, ⟨⟨h.portable, ?_, by simp, h.distinct, h.fileBytes, .inr hsmall⟩, rfl, rfl⟩, ?_, ?_,
      trivial⟩
    · simpa only [pathsBefore, Option.toList_none, List.nil_append] using
        List.pairwise_map.mpr h.ordered
    · simpa [sizes] using hbytes
    · simpa using h.hasEntry

theorem writeLen_ok : writeLen length description = .ok bytes ↔
    length < 2 ^ 32 ∧ bytes = BigEndian.encode 4 length := by
  simp only [writeLen, guard_ok, not_le, Except.ok.injEq]
  exact and_congr_right fun _ => eq_comm

def stringBytes (text : String) : Bytes := BigEndian.encode 4 text.utf8ByteSize ++ utf8 text

def fileBytes (file : ViewFile) : Bytes :=
  stringBytes file.path ++ (BigEndian.encode 8 file.bytes.length ++ file.bytes)

def filesBytes (files : List ViewFile) : Bytes := files.flatMap fileBytes

/-- The one byte string a bundle has. -/
def bundleBytes (bundle : ViewBundle) : Bytes :=
  magic ++ (BigEndian.encode 2 bundle.version.toNat ++ (stringBytes bundle.entry ++
    (BigEndian.encode 4 bundle.files.length ++ filesBytes bundle.files)))

theorem encodeFiles_ok : encodeFiles files = .ok bytes ↔
    (∀ file ∈ files, file.path.utf8ByteSize < 2 ^ 32) ∧ bytes = filesBytes files := by
  induction files generalizing bytes with
  | nil => simp [encodeFiles, filesBytes, eq_comm]
  | cons file rest ih =>
    simp only [encodeFiles, bind_ok, writeLen_ok, ih, Except.ok.injEq, List.forall_mem_cons]
    constructor
    · rintro ⟨_, ⟨hpath, rfl⟩, _, ⟨hrest, rfl⟩, rfl⟩
      exact ⟨⟨hpath, hrest⟩, by simp [filesBytes, fileBytes, stringBytes]⟩
    · rintro ⟨⟨hpath, hrest⟩, rfl⟩
      exact ⟨_, ⟨hpath, rfl⟩, _, ⟨hrest, rfl⟩, by simp [filesBytes, fileBytes, stringBytes]⟩

theorem encode_ok : encode bundle = .ok bytes ↔ WellFormed bundle ∧
    (∀ file ∈ bundle.files, file.path.utf8ByteSize < 2 ^ 32) ∧ bytes = bundleBytes bundle := by
  simp only [encode, bind_ok, writeLen_ok, encodeFiles_ok, Except.ok.injEq]
  constructor
  · rintro ⟨⟨⟩, h, _, ⟨_, rfl⟩, _, ⟨_, rfl⟩, _, ⟨hpaths, rfl⟩, rfl⟩
    exact ⟨(validateBundle_ok bundle false).mp h, hpaths, by simp [bundleBytes, stringBytes]⟩
  · rintro ⟨h, hpaths, rfl⟩
    have hentry : bundle.entry.utf8ByteSize < 2 ^ 32 := by
      rw [h.entry]
      decide
    have hcount : bundle.files.length < 2 ^ 32 := by
      have := h.count
      simp only [maxFiles] at this
      omega
    exact ⟨(), (validateBundle_ok bundle false).mpr h, _, ⟨hentry, rfl⟩, _, ⟨hcount, rfl⟩, _, ⟨hpaths, rfl⟩,
      by simp [bundleBytes, stringBytes]⟩

theorem take_agrees (length : Nat) : Agrees Reader.remaining (fun value => value.length = length)
    (fun value => value) (Reader.take length) := by
  refine ⟨?_, ?_⟩
  · intro value reader rest hlength hahead
    have hfit : reader.offset + length ≤ reader.bytes.length := by
      have := congrArg List.length hahead
      have := reader.within
      simp only [Reader.remaining, List.length_drop, List.length_append] at *
      omega
    refine ⟨⟨reader.bytes, reader.offset + length, hfit⟩, ?_, ?_⟩
    · rw [Reader.take, dif_pos hfit, hahead, List.take_left' hlength]
    · have hdrop : (reader.bytes.drop reader.offset).drop length = rest := by
        rw [show reader.bytes.drop reader.offset = value ++ rest from hahead, ← hlength]
        exact List.drop_left
      simpa [Reader.remaining, List.drop_drop] using hdrop
  · intro value reader reader' h
    unfold Reader.take at h
    split at h
    · rename_i hfit
      cases h
      refine ⟨?_, ?_⟩
      · simp only [Reader.remaining, List.length_take, List.length_drop]
        omega
      · simp only [Reader.remaining, ← List.drop_drop, List.take_append_drop]
    · cases h

theorem number_agrees (width : Nat) :
    Agrees Reader.remaining (fun n => n < 256 ^ width) (BigEndian.encode width)
      (Reader.number width) := by
  refine (take_agrees width).map (BigEndian.encode width) ?_ ?_
  · rintro bytes rfl
    exact ⟨BigEndian.encode_decode bytes, BigEndian.decode_lt bytes⟩
  · intro n hn
    exact ⟨BigEndian.length_encode width n, BigEndian.decode_encode hn⟩

theorem u16_agrees : Agrees Reader.remaining (fun _ => True)
    (fun version : UInt16 => BigEndian.encode 2 version.toNat) Reader.u16 := by
  refine (number_agrees 2).map UInt16.toNat ?_ ?_
  · intro n hn
    exact ⟨UInt16.toNat_ofNat_of_lt' hn, trivial⟩
  · intro version _
    exact ⟨version.toNat_lt, UInt16.ofNat_toNat⟩

theorem fromUtf8_ok : Reader.fromUtf8 bytes = .ok text ↔ utf8 text = bytes := by
  rw [Reader.fromUtf8, utf8, ← Utf8.decode_eq_some]
  cases Utf8.decode bytes <;> simp

theorem length_utf8 (text : String) : (utf8 text).length = text.utf8ByteSize :=
  Utf8.length_encode text

theorem text_agrees (length : Nat) :
    Agrees Reader.remaining (fun text => text.utf8ByteSize = length) utf8 (Reader.text length) := by
  refine (take_agrees length).convert utf8 (fun bytes text hlength => ?_) (fun text h => ?_)
  · rw [fromUtf8_ok]
    exact ⟨fun h => ⟨h, by rw [← length_utf8, h, hlength]⟩, fun h => h.1⟩
  · rw [length_utf8, h]

def PathFits (text : String) : Prop := text.utf8ByteSize ≠ 0 ∧ text.utf8ByteSize ≤ maxPathBytes

theorem string_agrees : Agrees Reader.remaining PathFits stringBytes Reader.string := by
  have hbody : ∀ length, length < 256 ^ 4 → Agrees Reader.remaining
      (fun text => text.utf8ByteSize = length ∧ PathFits text) utf8 (fun reader =>
        if length = 0 ∨ maxPathBytes < length then
          .error (invalid "View string length is outside the format limit")
        else reader.text length) := by
    intro length _
    refine (Agrees.guarded fun _ => text_agrees length).congr fun text => ?_
    simp only [PathFits, not_or, not_lt]
    constructor
    · rintro ⟨rfl, hne, hle⟩
      exact ⟨⟨hne, hle⟩, rfl⟩
    · rintro ⟨⟨hne, hle⟩, rfl⟩
      exact ⟨rfl, hne, hle⟩
  refine ((number_agrees 4).framed String.utf8ByteSize hbody).congr fun text => ?_
  simp only [PathFits, maxPathBytes]
  omega

/-- What the decoder's asset loop accepts. -/
structure Framed (count total : Nat) (files : List ViewFile) : Prop where
  count : files.length = count
  paths : ∀ file ∈ files, PathFits file.path
  fileBytes : ∀ file ∈ files, file.bytes.length ≤ maxFileBytes
  small : files = [] ∨ total + sizes files ≤ maxBundleBytes

theorem framed_cons : Framed (count + 1) total (file :: rest) ↔
    PathFits file.path ∧ file.bytes.length ≤ maxFileBytes ∧
      total + file.bytes.length ≤ maxBundleBytes ∧
      Framed count (total + file.bytes.length) rest := by
  constructor
  · intro h
    have hsmall := h.small.resolve_left (by simp)
    rw [sizes_cons] at hsmall
    exact ⟨h.paths file (by simp), h.fileBytes file (by simp), by omega,
      by simpa using h.count, fun f hf => h.paths f (by simp [hf]),
      fun f hf => h.fileBytes f (by simp [hf]), .inr (by omega)⟩
  · rintro ⟨hpath, hbytes, hsum, h⟩
    refine ⟨by simp [h.count], List.forall_mem_cons.mpr ⟨hpath, h.paths⟩,
      List.forall_mem_cons.mpr ⟨hbytes, h.fileBytes⟩, .inr ?_⟩
    rw [sizes_cons]
    rcases h.small with rfl | hsmall
    · simpa [sizes] using hsum
    · omega

theorem decodeFiles_reads (h : Framed count total files)
    (hahead : reader.remaining = filesBytes files ++ rest) :
    ∃ reader', decodeFiles count total reader = .ok (files, reader') ∧
      reader'.remaining = rest := by
  induction count generalizing total files reader with
  | zero =>
    obtain rfl := List.length_eq_zero_iff.mp h.count
    exact ⟨reader, rfl, by simpa [filesBytes] using hahead⟩
  | succ count ih =>
    obtain ⟨file, others, rfl⟩ := List.exists_cons_of_length_eq_add_one h.count
    obtain ⟨hpath, hbytes, hsum, hrest⟩ := framed_cons.mp h
    have hsplit : reader.remaining = stringBytes file.path ++
        (BigEndian.encode 8 file.bytes.length ++ (file.bytes ++ (filesBytes others ++ rest))) := by
      rw [hahead]
      simp [filesBytes, fileBytes]
    have hwide : file.bytes.length < 256 ^ 8 := by
      simp only [maxFileBytes] at hbytes
      omega
    obtain ⟨r₁, hstring, h₁⟩ := string_agrees.reads hpath hsplit
    obtain ⟨r₂, hlength, h₂⟩ := (number_agrees 8).reads hwide h₁
    obtain ⟨r₃, htake, h₃⟩ := (take_agrees file.bytes.length).reads rfl h₂
    obtain ⟨r₄, hfiles, h₄⟩ := ih hrest h₃
    refine ⟨r₄, ?_, h₄⟩
    simp [decodeFiles, hstring, Reader.u64, hlength, htake, hfiles, not_lt.mpr hbytes,
      not_lt.mpr hsum]

theorem decodeFiles_wrote (h : decodeFiles count total reader = .ok (files, reader')) :
    Framed count total files ∧ reader.remaining = filesBytes files ++ reader'.remaining := by
  induction count generalizing total files reader with
  | zero =>
    simp only [decodeFiles, Except.ok.injEq, Prod.mk.injEq] at h
    obtain ⟨rfl, rfl⟩ := h
    exact ⟨⟨rfl, by simp, by simp, .inl rfl⟩, by simp [filesBytes]⟩
  | succ count ih =>
    simp only [decodeFiles, bind_ok, guard_ok, Prod.exists, Except.ok.injEq, Prod.mk.injEq,
      not_lt] at h
    obtain ⟨path, r₁, hstring, length, r₂, hlength, hfile, hsum, bytes, r₃, htake, others, r₄,
      hfiles, rfl, rfl⟩ := h
    obtain ⟨hpath, h₁⟩ := string_agrees.wrote hstring
    obtain ⟨_, h₂⟩ := (number_agrees 8).wrote hlength
    obtain ⟨rfl, h₃⟩ := (take_agrees length).wrote htake
    obtain ⟨hothers, h₄⟩ := ih hfiles
    refine ⟨framed_cons.mpr ⟨hpath, hfile, hsum, hothers⟩, ?_⟩
    simp [h₁, h₂, h₃, h₄, filesBytes, fileBytes]

theorem wellFormed_framed (h : WellFormed bundle)
    (hpaths : ∀ file ∈ bundle.files, PathFits file.path) :
    Framed bundle.files.length 0 bundle.files :=
  ⟨rfl, hpaths, h.fileBytes, .inr (by simpa [sizes] using h.bundleBytes)⟩

theorem decode_ok : decode bytes = .ok bundle ↔ WellFormed bundle ∧
    (∀ file ∈ bundle.files, PathFits file.path) ∧ bytes = bundleBytes bundle := by
  constructor
  · intro h
    simp only [decode, bind_ok, guard_ok, Prod.exists, Except.ok.injEq, not_not, not_lt] at h
    obtain ⟨found, r₁, hmagic, rfl, version, r₂, hversion, entry, r₃, hentry, count, r₄, hcount,
      hlimit, files, r₅, hfiles, hend, ⟨⟩, hvalid, rfl⟩ := h
    obtain ⟨_, h₁⟩ := (take_agrees magic.length).wrote hmagic
    obtain ⟨_, h₂⟩ := u16_agrees.wrote hversion
    obtain ⟨_, h₃⟩ := string_agrees.wrote hentry
    obtain ⟨_, h₄⟩ := (number_agrees 4).wrote hcount
    obtain ⟨hframed, h₅⟩ := decodeFiles_wrote hfiles
    refine ⟨(validateBundle_ok _ true).mp hvalid, hframed.paths, ?_⟩
    have hall : (Reader.new bytes).remaining = bytes := rfl
    rw [← hall, h₁, h₂, h₃, h₄, h₅, hend, ← hframed.count]
    simp [bundleBytes]
  · rintro ⟨h, hpaths, rfl⟩
    have hentry : PathFits bundle.entry := by
      rw [h.entry]
      unfold PathFits
      decide
    have hcount : bundle.files.length < 256 ^ 4 := by
      have := h.count
      simp only [maxFiles] at this
      omega
    obtain ⟨r₁, hmagic, h₁⟩ := (take_agrees magic.length).reads rfl
      (show (Reader.new (bundleBytes bundle)).remaining = _ from rfl)
    obtain ⟨r₂, hversion, h₂⟩ := u16_agrees.reads trivial h₁
    obtain ⟨r₃, hentry, h₃⟩ := string_agrees.reads hentry h₂
    obtain ⟨r₄, hcount, h₄⟩ := (number_agrees 4).reads hcount h₃
    obtain ⟨r₅, hfiles, h₅⟩ := decodeFiles_reads (wellFormed_framed h hpaths)
      (h₄.trans (List.append_nil _).symm)
    have hvalid := (validateBundle_ok bundle true).mpr h
    simp [decode, hmagic, hversion, hentry, Reader.u32, hcount, not_lt.mpr h.count, hfiles, h₅,
      hvalid]

theorem portable_nonempty (h : portablePath path = .ok logical) : path.utf8ByteSize ≠ 0 := by
  intro hzero
  rw [String.utf8ByteSize_eq_zero_iff] at hzero
  have hempty : portablePath "" = .error .length := by decide
  rw [hzero, hempty] at h
  cases h

/-- Encoding reads each path's length after normalization and decoding reads
the stored one, so a bundle survives exactly when its stored paths fit. -/
theorem bundle_round_trip (bundle : ViewBundle) (bytes : Bytes) :
    (encode bundle = .ok bytes →
      (decode bytes = .ok bundle ↔
        ∀ file ∈ bundle.files, file.path.utf8ByteSize ≤ maxPathBytes)) ∧
    (decode bytes = .ok bundle → encode bundle = .ok bytes) := by
  constructor
  · intro h
    obtain ⟨hwell, _, rfl⟩ := encode_ok.mp h
    rw [decode_ok]
    constructor
    · rintro ⟨_, hpaths, _⟩ file hf
      exact (hpaths file hf).2
    · intro hfits
      refine ⟨hwell, fun file hf => ⟨?_, hfits file hf⟩, rfl⟩
      obtain ⟨logical, hlogical⟩ := hwell.portable file hf
      exact portable_nonempty hlogical
  · intro h
    obtain ⟨hwell, hpaths, rfl⟩ := decode_ok.mp h
    refine encode_ok.mpr ⟨hwell, fun file hf => ?_, rfl⟩
    have := (hpaths file hf).2
    simp only [maxPathBytes] at this
    omega

theorem utf8ByteSize_ofList (chars : List Char) :
    (String.ofList chars).utf8ByteSize = (chars.map Char.utf8Size).sum := by
  induction chars with
  | nil => rfl
  | cons c chars ih =>
    have hsplit : String.ofList (c :: chars) = String.ofList [c] ++ String.ofList chars := by
      rw [← String.ofList_append]
      rfl
    rw [hsplit, String.utf8ByteSize_append, ih]
    simp

/-- A path of more than 1,024 stored bytes that normalizes to three. -/
def longChars : List Char := 'a' :: List.replicate 1024 '/' ++ ['b']

def longPathBundle : ViewBundle where
  version := viewBundleVersion
  entry := portableEntry
  files := [⟨String.ofList longChars, []⟩, ⟨portableEntry, []⟩]

theorem longPath_size : (String.ofList longChars).utf8ByteSize = 1026 := by
  rw [utf8ByteSize_ofList]
  decide +kernel

theorem longPath_portable : portablePath (String.ofList longChars) = .ok "a/b" := by
  have hparts : portableParts (components longChars) = .ok [['a'], ['b']] := by decide +kernel
  rw [portablePath, String.toList_ofList, hparts]
  decide

theorem longPathBundle_wellFormed : WellFormed longPathBundle := by
  have horder : String.ofList longChars < portableEntry := by
    rw [String.lt_iff, String.toList_ofList]
    decide
  have hfold : folded (String.ofList longChars) ≠ folded portableEntry := by
    rw [folded, String.toList_ofList]
    decide
  have hentry : portablePath portableEntry = .ok portableEntry := by decide
  refine ⟨rfl, rfl, by simp [longPathBundle], by decide, ?_, ?_, ?_, ?_, by decide, ?_⟩
  · simp [longPathBundle, longPath_portable, hentry]
  · simpa only [longPathBundle, List.pairwise_pair] using horder
  · simpa [longPathBundle] using hfold
  · simp [longPathBundle]
  · exact ⟨⟨portableEntry, []⟩, by simp [longPathBundle], rfl⟩

theorem long_path_lost :
    ∃ bytes, encode longPathBundle = .ok bytes ∧ decode bytes ≠ .ok longPathBundle := by
  have hfiles : ∀ file ∈ longPathBundle.files, file.path.utf8ByteSize < 2 ^ 32 := by
    have hentry : portableEntry.utf8ByteSize < 2 ^ 32 := by decide
    simp only [longPathBundle, List.forall_mem_cons, longPath_size, hentry]
    simp
  refine ⟨_, encode_ok.mpr ⟨longPathBundle_wellFormed, hfiles, rfl⟩, fun hdecode => ?_⟩
  have hfits := (decode_ok.mp hdecode).2.1 ⟨String.ofList longChars, []⟩ (by simp [longPathBundle])
  have := hfits.2
  rw [longPath_size] at this
  exact absurd this (by decide)

end HologramLive.View
