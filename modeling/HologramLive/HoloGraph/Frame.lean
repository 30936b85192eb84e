import HologramLive.HoloGraph.Resolve
import HologramLive.Lib.LittleEndian
import HologramLive.Lib.Result

/-! The frames of typed objects, and the references that are read out of them. -/

namespace HologramLive.HoloGraph
open Lib Lib.Result Store

/-! ## Offsets of 64 bits -/

/-- `checked_add` and `checked_mul`, by the error for what does not fit. -/
def fit (overflow : RealizationError) (n : Nat) : Except RealizationError Nat :=
  if n < 2 ^ 64 then .ok n else .error overflow

def readU32Within (overflow : RealizationError) (bytes : Bytes) (cursor : Nat) :
    Except RealizationError (Nat × Nat) := do
  let stop ← fit overflow (cursor + 4)
  if stop ≤ bytes.length then
    .ok (BigEndian.decode ((bytes.drop cursor).take 4).reverse, stop)
  else .error .truncated

/-- `validateCanonicalFrame` with its offsets checked, one operation after the other. -/
def validateWithin (overflow : RealizationError) (bytes : Bytes) (nul extractedReferences : Nat) :
    Except RealizationError Unit := do
  let cursor ← fit overflow (nul + 1)
  let (count, cursor) ← readU32Within overflow bytes cursor
  if count ≠ extractedReferences then .error .malformed
  else
    let references ← fit overflow (count * kappaLabelBytes)
    let cursor ← fit overflow (cursor + references)
    let (payloadLength, cursor) ← readU32Within overflow bytes cursor
    let stop ← fit overflow (cursor + payloadLength)
    if stop ≠ bytes.length then
      .error (if stop > bytes.length then .truncated else .malformed)
    else .ok ()

section Offsets
variable {overflow : RealizationError} {bytes : Bytes}

theorem fit_of_lt {n : Nat} (h : n < 2 ^ 64) : fit overflow n = .ok n := if_pos h

theorem readU32Within_eq {cursor : Nat} (h : cursor + 4 < 2 ^ 64) :
    readU32Within overflow bytes cursor = readU32 bytes cursor := by
  rw [readU32Within, fit_of_lt h]
  rfl

theorem readU32_ok {cursor count stop : Nat} (h : readU32 bytes cursor = .ok (count, stop)) :
    count < 2 ^ 32 ∧ stop = cursor + 4 ∧ stop ≤ bytes.length := by
  unfold readU32 at h
  split at h
  · rename_i hlong
    obtain ⟨rfl, rfl⟩ := Prod.mk.inj (Except.ok.inj h)
    have hlt := BigEndian.decode_lt ((bytes.drop cursor).take 4).reverse
    have hlength : ((bytes.drop cursor).take 4).reverse.length = 4 := by
      simp
      omega
    rw [hlength] at hlt
    exact ⟨hlt, rfl, hlong⟩
  · cases h

/-- Whatever is declared, on bytes that a slice can hold no offset leaves 64 bits. -/
theorem validateWithin_eq {nul : Nat} (hbytes : bytes.length < 2 ^ 63) (hnul : nul < bytes.length)
    (extractedReferences : Nat) : validateWithin overflow bytes nul extractedReferences =
      validateCanonicalFrame bytes nul extractedReferences := by
  unfold validateWithin validateCanonicalFrame
  rw [fit_of_lt (by omega)]
  change (readU32Within overflow bytes (nul + 1) >>= _) = _
  rw [readU32Within_eq (by omega)]
  cases hcount : readU32 bytes (nul + 1) with
  | error error => rfl
  | ok read =>
    obtain ⟨count, cursor⟩ := read
    obtain ⟨hlt, -, hstop⟩ := readU32_ok hcount
    change ite _ _ _ = ite _ _ _
    split
    · rfl
    · have hreferences : count * kappaLabelBytes < 2 ^ 39 := by
        rw [kappaLabelBytes]
        omega
      rw [fit_of_lt (by omega)]
      change (fit overflow (cursor + count * kappaLabelBytes) >>= _) = _
      rw [fit_of_lt (by omega)]
      change (readU32Within overflow bytes (cursor + count * kappaLabelBytes) >>= _) = _
      rw [readU32Within_eq (by omega)]
      cases hlength : readU32 bytes (cursor + count * kappaLabelBytes) with
      | error error => rfl
      | ok read =>
        obtain ⟨payloadLength, after⟩ := read
        obtain ⟨hpayload, -, hafter⟩ := readU32_ok hlength
        change (fit overflow (after + payloadLength) >>= _) = _
        rw [fit_of_lt (by omega)]
        rfl

end Offsets

/-! ## What a frame is made of -/

/-- The references a realization declares: as many labels as its count says. -/
def readLabels (label : Bytes → Option String) : Nat → Bytes → Option (List String)
  | 0, _ => some []
  | count + 1, bytes =>
    if bytes.length < kappaLabelBytes then none
    else do
      let reference ← label (bytes.take kappaLabelBytes)
      let more ← readLabels label count (bytes.drop kappaLabelBytes)
      some (reference :: more)

def declaredReferences (label : Bytes → Option String) (bytes : Bytes) : Option (List String) :=
  if bytes.length < 4 then none
  else readLabels label (LittleEndian.decode (bytes.take 4)) (bytes.drop 4)

/-- The canonical encoding, from the type on. -/
def encodeFrame (spell : String → Bytes) (iri : String) (references : List String)
    (payload : Bytes) : Bytes :=
  Utf8.encode iri ++ 0 :: (LittleEndian.encode 4 references.length ++ references.flatMap spell ++
    LittleEndian.encode 4 payload.length ++ payload)

/-- Labels are read as what they are spelled, in 71 bytes. -/
def Labels (spell : String → Bytes) (label : Bytes → Option String) : Prop :=
  ∀ bytes reference, bytes.length = kappaLabelBytes →
    (label bytes = some reference ↔ spell reference = bytes)

/-- The type of an object: what stands before its first NUL. -/
def Typed (bytes : Bytes) (iri : String) : Prop :=
  ∃ rest, bytes = Utf8.encode iri ++ 0 :: rest ∧ 0 ∉ Utf8.encode iri

/-- The extractors return the references that are declared, and else an error. -/
def Space.Extracts (space : Space) (label : Bytes → Option String) : Prop :=
  ∀ entry ∈ space.registry, ∀ rest, 0 ∉ Utf8.encode entry.1 →
    match declaredReferences label rest with
    | some references => entry.2 (Utf8.encode entry.1 ++ 0 :: rest) = .ok references
    | none => ∃ error, entry.2 (Utf8.encode entry.1 ++ 0 :: rest) = .error error

section Numbers

theorem littleEndian_eq (width n : Nat) :
    LittleEndian.encode width n = (BigEndian.encode width n).reverse := by
  induction width generalizing n with
  | zero => rfl
  | succ width ih => rw [LittleEndian.encode, ih, BigEndian.encode, List.reverse_concat]

theorem littleEndian_decode (bytes : Bytes) :
    LittleEndian.decode bytes = BigEndian.decode bytes.reverse := by
  rw [LittleEndian.decode, BigEndian.decode, List.foldl_reverse]
  congr 1
  funext byte n
  omega

theorem decode_encode_four {n : Nat} (h : n < 2 ^ 32) :
    LittleEndian.decode (LittleEndian.encode 4 n) = n := by
  rw [LittleEndian.decode_encode, Nat.mod_eq_of_lt (by simpa using h)]

theorem encode_decode_four {bytes : Bytes} (h : bytes.length = 4) :
    LittleEndian.encode 4 (LittleEndian.decode bytes) = bytes := by
  have hbytes := BigEndian.encode_decode bytes.reverse
  rw [List.length_reverse, h] at hbytes
  rw [littleEndian_eq, littleEndian_decode, hbytes, List.reverse_reverse]

theorem decode_four_lt {bytes : Bytes} (h : bytes.length = 4) :
    LittleEndian.decode bytes < 2 ^ 32 := by
  have hlt := BigEndian.decode_lt bytes.reverse
  rw [List.length_reverse, h] at hlt
  rw [littleEndian_decode]
  exact hlt

/-- A number is read where it stands. -/
theorem readU32_append (front rest : Bytes) {n : Nat} (h : n < 2 ^ 32) :
    readU32 (front ++ (LittleEndian.encode 4 n ++ rest)) front.length =
      .ok (n, front.length + 4) := by
  have hlong : front.length + 4 ≤ (front ++ (LittleEndian.encode 4 n ++ rest)).length := by
    simp
  rw [readU32, if_pos hlong, List.drop_left, ← littleEndian_decode,
    List.take_left' (LittleEndian.length_encode 4 n), decode_encode_four h]

/-- What is read as a number is the number. -/
theorem readU32_split {bytes : Bytes} {cursor n stop : Nat}
    (h : readU32 bytes cursor = .ok (n, stop)) :
    n < 2 ^ 32 ∧ stop = cursor + 4 ∧ ∃ rest,
      bytes.drop cursor = LittleEndian.encode 4 n ++ rest ∧ bytes.drop stop = rest := by
  obtain ⟨hlt, rfl, hlong⟩ := readU32_ok h
  refine ⟨hlt, rfl, bytes.drop (cursor + 4), ?_, rfl⟩
  unfold readU32 at h
  rw [if_pos hlong] at h
  obtain ⟨hn, -⟩ := Prod.mk.inj (Except.ok.inj h)
  have hlength : ((bytes.drop cursor).take 4).length = 4 := by
    simp
    omega
  rw [← hn, ← littleEndian_decode, encode_decode_four hlength, ← List.drop_drop,
    List.take_append_drop]

end Numbers

section Labels
variable {spell : String → Bytes} {label : Bytes → Option String} (hlabels : Labels spell label)
include hlabels

theorem readLabels_flatMap {references : List String}
    (hspelled : ∀ reference ∈ references, (spell reference).length = kappaLabelBytes)
    (rest : Bytes) :
    readLabels label references.length (references.flatMap spell ++ rest) = some references := by
  induction references with
  | nil => rfl
  | cons reference more ih =>
    obtain ⟨hfirst, hmore⟩ := List.forall_mem_cons.mp hspelled
    have hread : label (spell reference) = some reference := (hlabels _ _ hfirst).mpr rfl
    have hlong : ¬ (spell reference ++ (more.flatMap spell ++ rest)).length < kappaLabelBytes := by
      rw [List.length_append]
      omega
    rw [List.length_cons, readLabels, List.flatMap_cons, List.append_assoc, if_neg hlong,
      List.take_left' hfirst, List.drop_left' hfirst, hread, ih hmore]
    rfl

theorem readLabels_split {count : Nat} {bytes : Bytes} {references : List String}
    (h : readLabels label count bytes = some references) :
    references.length = count ∧
      (∀ reference ∈ references, (spell reference).length = kappaLabelBytes) ∧
        ∃ rest, bytes = references.flatMap spell ++ rest := by
  induction count generalizing bytes references with
  | zero =>
    cases h
    exact ⟨rfl, nofun, bytes, rfl⟩
  | succ count ih =>
    rw [readLabels] at h
    split at h
    · cases h
    · rename_i hlong
      obtain ⟨reference, hread, h⟩ := Option.bind_eq_some_iff.mp h
      obtain ⟨more, hmore, h⟩ := Option.bind_eq_some_iff.mp h
      cases h
      have hlength : (bytes.take kappaLabelBytes).length = kappaLabelBytes := by
        rw [List.length_take]
        omega
      have hspell := (hlabels _ _ hlength).mp hread
      obtain ⟨hcount, hspelled, rest, hrest⟩ := ih hmore
      refine ⟨by rw [List.length_cons, hcount], ?_, rest, ?_⟩
      · refine List.forall_mem_cons.mpr ⟨by rw [hspell, hlength], hspelled⟩
      · rw [List.flatMap_cons, hspell, List.append_assoc, ← hrest, List.take_append_drop]

end Labels

/-! ## The grammar -/

/-- What a frame may carry: as many labels and as long a payload as its numbers tell. -/
structure Fits (spell : String → Bytes) (references : List String) (payload : Bytes) : Prop where
  spelled : ∀ reference ∈ references, (spell reference).length = kappaLabelBytes
  references : references.length < 2 ^ 32
  payload : payload.length < 2 ^ 32

section Frame
variable {spell : String → Bytes} {label : Bytes → Option String} {iri : String}
  {references : List String} {payload : Bytes}

theorem length_spelled
    (hspelled : ∀ reference ∈ references, (spell reference).length = kappaLabelBytes) :
    (references.flatMap spell).length = references.length * kappaLabelBytes := by
  induction references with
  | nil => simp
  | cons reference more ih =>
    obtain ⟨hfirst, hmore⟩ := List.forall_mem_cons.mp hspelled
    rw [List.flatMap_cons, List.length_append, hfirst, ih hmore, List.length_cons, Nat.succ_mul,
      Nat.add_comm]

theorem validateCanonicalFrame_encode (h : Fits spell references payload) :
    validateCanonicalFrame (encodeFrame spell iri references payload) (Utf8.encode iri).length
      references.length = .ok () := by
  have hcount : readU32 (encodeFrame spell iri references payload) ((Utf8.encode iri).length + 1) =
      .ok (references.length, (Utf8.encode iri).length + 1 + 4) := by
    have hread := readU32_append (Utf8.encode iri ++ [0])
      (references.flatMap spell ++ (LittleEndian.encode 4 payload.length ++ payload)) h.references
    simpa [encodeFrame] using hread
  have hlength : readU32 (encodeFrame spell iri references payload)
      ((Utf8.encode iri).length + 1 + 4 + references.length * kappaLabelBytes) =
        .ok (payload.length,
          (Utf8.encode iri).length + 1 + 4 + references.length * kappaLabelBytes + 4) := by
    have hread := readU32_append (Utf8.encode iri ++ 0 ::
      (LittleEndian.encode 4 references.length ++ references.flatMap spell)) payload h.payload
    have hfront : (Utf8.encode iri ++ 0 ::
        (LittleEndian.encode 4 references.length ++ references.flatMap spell)).length =
          (Utf8.encode iri).length + 1 + 4 + references.length * kappaLabelBytes := by
      rw [List.length_append, List.length_cons, List.length_append, LittleEndian.length_encode,
        length_spelled h.spelled]
      omega
    rw [hfront] at hread
    simpa [encodeFrame] using hread
  have htotal : (encodeFrame spell iri references payload).length =
      (Utf8.encode iri).length + 1 + 4 + references.length * kappaLabelBytes + 4 +
        payload.length := by
    simp only [encodeFrame, List.length_append, List.length_cons, LittleEndian.length_encode,
      length_spelled h.spelled]
    omega
  rw [validateCanonicalFrame, hcount]
  change ite _ _ _ = _
  rw [if_neg (not_not.mpr rfl), hlength]
  change ite _ _ _ = _
  rw [if_neg (not_not.mpr htotal.symm)]

/-- A frame that is valid for the references it begins with is their encoding. -/
theorem encode_of_validate {rest : Bytes}
    (hspelled : ∀ reference ∈ references, (spell reference).length = kappaLabelBytes)
    (hrest : ∃ more, rest.drop 4 = references.flatMap spell ++ more)
    (hvalid : validateCanonicalFrame (Utf8.encode iri ++ 0 :: rest) (Utf8.encode iri).length
      references.length = .ok ()) :
    ∃ payload, Fits spell references payload ∧
      Utf8.encode iri ++ 0 :: rest = encodeFrame spell iri references payload := by
  obtain ⟨more, hmore⟩ := hrest
  unfold validateCanonicalFrame at hvalid
  obtain ⟨⟨count, cursor⟩, hcount, hvalid⟩ := bind_ok.mp hvalid
  obtain ⟨hsame, hvalid⟩ := guard_ok.mp hvalid
  obtain ⟨⟨payloadLength, after⟩, hlength, hvalid⟩ := bind_ok.mp hvalid
  obtain ⟨hstop, -⟩ := guard_ok.mp hvalid
  rw [not_not] at hsame hstop
  subst hsame
  obtain ⟨hreferences, rfl, tail, hfirst, -⟩ := readU32_split hcount
  obtain ⟨hpayload, rfl, payload, hsecond, hafter⟩ := readU32_split hlength
  have hdrop (n : Nat) : (Utf8.encode iri ++ 0 :: rest).drop ((Utf8.encode iri).length + 1 + n) =
      rest.drop n := by
    rw [Nat.add_assoc, List.drop_append]
    simp [Nat.add_comm 1 n]
  have hnumber : rest = LittleEndian.encode 4 references.length ++ tail := by
    simpa using (hdrop 0).symm.trans hfirst
  have htail : tail = references.flatMap spell ++ more := by
    rw [← hmore, hnumber, List.drop_left' (LittleEndian.length_encode 4 _)]
  have hmorebytes : more = LittleEndian.encode 4 payloadLength ++ payload := by
    rw [← hsecond, Nat.add_assoc, hdrop, hnumber, htail, ← List.drop_drop,
      List.drop_left' (LittleEndian.length_encode 4 _), List.drop_left' (length_spelled hspelled)]
  have hbytes : Utf8.encode iri ++ 0 :: rest = Utf8.encode iri ++ 0 ::
      (LittleEndian.encode 4 references.length ++ references.flatMap spell ++
        LittleEndian.encode 4 payloadLength ++ payload) := by
    rw [hnumber, htail, hmorebytes]
    simp
  have hlong : payloadLength = payload.length := by
    have htotal := congrArg List.length hbytes
    rw [← hstop] at htotal
    simp only [List.length_append, List.length_cons, LittleEndian.length_encode,
      length_spelled hspelled] at htotal
    omega
  subst hlong
  exact ⟨payload, ⟨hspelled, hreferences, hpayload⟩, hbytes⟩

end Frame

section Typed
variable {space : Space} {spell : String → Bytes} {label : Bytes → Option String} {bytes : Bytes}

theorem findIdx_nul (front rest : Bytes) (h : 0 ∉ front) :
    (front ++ 0 :: rest).findIdx? (· = 0) = some front.length := by
  have hnone : front.findIdx? (· = 0) = none := by
    rw [List.findIdx?_eq_none_iff]
    intro byte hbyte
    simpa using fun hzero : byte = 0 => h (hzero ▸ hbyte)
  rw [List.findIdx?_append, hnone]
  simp [List.findIdx?_cons]

theorem typed_of_nul {nul : Nat} {iri : String} (hnul : bytes.findIdx? (· = 0) = some nul)
    (hiri : Utf8.decode (bytes.take nul) = some iri) : Typed bytes iri := by
  obtain ⟨hlt, hzero, hbefore⟩ := List.findIdx?_eq_some_iff_getElem.mp hnul
  have hencode := Utf8.decode_eq_some.mp hiri
  refine ⟨bytes.drop (nul + 1), ?_, ?_⟩
  · rw [hencode]
    have hnulByte : bytes[nul] = 0 := by simpa using hzero
    rw [← hnulByte, ← List.drop_eq_getElem_cons hlt, List.take_append_drop]
  · rw [hencode]
    intro hmem
    obtain ⟨place, hplace, heq⟩ := List.mem_iff_getElem.mp hmem
    rw [List.length_take] at hplace
    have hnot := hbefore place (by omega)
    rw [List.getElem_take] at heq
    simp [heq] at hnot

/-- What is read of an object of a registered type. -/
theorem typedReferences_typed {iri : String} {rest : Bytes} (hnul : 0 ∉ Utf8.encode iri)
    (hregistered : iri ∈ space.registry.map Prod.fst) :
    ∃ entry ∈ space.registry, entry.1 = iri ∧
      ∀ references, typedReferences space (Utf8.encode iri ++ 0 :: rest) = .ok references ↔
        entry.2 (Utf8.encode iri ++ 0 :: rest) = .ok references ∧
          validateCanonicalFrame (Utf8.encode iri ++ 0 :: rest) (Utf8.encode iri).length
            references.length = .ok () := by
  have hfound : (space.registry.find? fun entry => entry.1 = iri).isSome = true := by
    rw [List.find?_isSome]
    obtain ⟨entry, hentry, rfl⟩ := List.mem_map.mp hregistered
    exact ⟨entry, hentry, by simp⟩
  obtain ⟨entry, hentry⟩ := Option.isSome_iff_exists.mp hfound
  have hname : entry.1 = iri := by simpa using List.find?_some hentry
  refine ⟨entry, List.mem_of_find?_eq_some hentry, hname, fun references => ?_⟩
  have hread : typedReferences space (Utf8.encode iri ++ 0 :: rest) = (do
      let references ← (entry.2 (Utf8.encode iri ++ 0 :: rest)).mapError fun _ => typedError
      (validateCanonicalFrame (Utf8.encode iri ++ 0 :: rest) (Utf8.encode iri).length
        references.length).mapError fun _ => typedError
      .ok references) := by
    unfold typedReferences
    rw [findIdx_nul _ _ hnul]
    simp only [List.take_left, Utf8.decode_encode, hentry]
  rw [hread, bind_ok]
  constructor
  · rintro ⟨found, hextracted, hchecked⟩
    obtain ⟨hvalid, hsame⟩ := check_ok.mp hchecked
    cases hsame
    exact ⟨mapError_ok.mp hextracted, mapError_ok.mp hvalid⟩
  · rintro ⟨hextracted, hvalid⟩
    exact ⟨references, mapError_ok.mpr hextracted, check_ok.mpr ⟨mapError_ok.mpr hvalid, rfl⟩⟩

section Grammar
variable (hlabels : Labels spell label) (hextracts : space.Extracts label)
include hlabels hextracts

theorem typedReferences_iff {iri : String} (hregistered : iri ∈ space.registry.map Prod.fst)
    (htyped : Typed bytes iri) (references : List String) :
    typedReferences space bytes = .ok references ↔
      ∃ payload, Fits spell references payload ∧ bytes = encodeFrame spell iri references payload := by
  obtain ⟨rest, rfl, hnul⟩ := htyped
  obtain ⟨entry, hentry, rfl, hread⟩ := typedReferences_typed hnul hregistered
  have hextract := hextracts entry hentry rest hnul
  rw [hread]
  constructor
  · rintro ⟨hextracted, hvalid⟩
    have hdeclared : declaredReferences label rest = some references := by
      cases hdeclares : declaredReferences label rest with
      | none =>
        rw [hdeclares] at hextract
        obtain ⟨error, herror⟩ := hextract
        rw [herror] at hextracted
        cases hextracted
      | some declared =>
        rw [hdeclares] at hextract
        exact congrArg some (Except.ok.inj (hextract.symm.trans hextracted))
    unfold declaredReferences at hdeclared
    split at hdeclared
    · cases hdeclared
    · obtain ⟨-, hspelled, hmore⟩ := readLabels_split hlabels hdeclared
      exact encode_of_validate hspelled hmore hvalid
  · rintro ⟨payload, hfits, hbytes⟩
    obtain ⟨-, hrest⟩ := List.cons.inj (List.append_cancel_left hbytes)
    have hdeclared : declaredReferences label rest = some references := by
      have hlong : ¬ rest.length < 4 := by
        rw [hrest]
        simp
      rw [declaredReferences, if_neg hlong, hrest, List.append_assoc, List.append_assoc,
        List.take_left' (LittleEndian.length_encode 4 _),
        List.drop_left' (LittleEndian.length_encode 4 _), decode_encode_four hfits.references]
      exact readLabels_flatMap hlabels hfits.spelled _
    rw [hdeclared] at hextract
    refine ⟨hextract, ?_⟩
    rw [hbytes]
    exact validateCanonicalFrame_encode hfits

omit hlabels hextracts in
theorem typedReferences_opaque (h : ∀ iri ∈ space.registry.map Prod.fst, ¬ Typed bytes iri) :
    typedReferences space bytes = .ok [] := by
  unfold typedReferences
  split
  · rfl
  · rename_i nul hnul
    split
    · rfl
    · rename_i iri hiri
      split
      · rfl
      · rename_i name extractor hfound
        have hname : name = iri := by simpa using List.find?_some hfound
        exact absurd (hname ▸ typed_of_nul hnul hiri)
          (h name (List.mem_map.mpr ⟨_, List.mem_of_find?_eq_some hfound, rfl⟩))

/-- Typed references are read of exactly the canonical frames of the registered types, each in one
way, and nothing of other bytes. No offset leaves 64 bits. -/
theorem typedReferences_canonical :
    (∀ bytes, ∀ iri ∈ space.registry.map Prod.fst, Typed bytes iri → ∀ references,
      (typedReferences space bytes = .ok references ↔ ∃ payload,
        Fits spell references payload ∧ bytes = encodeFrame spell iri references payload)) ∧
    (∀ iri ∈ space.registry.map Prod.fst, 0 ∉ Utf8.encode iri → ∀ references payload,
      Fits spell references payload →
        typedReferences space (encodeFrame spell iri references payload) = .ok references ∧
        ∀ others other, Fits spell others other →
          encodeFrame spell iri others other = encodeFrame spell iri references payload →
            others = references ∧ other = payload) ∧
    (∀ bytes, (∀ iri ∈ space.registry.map Prod.fst, ¬ Typed bytes iri) →
      typedReferences space bytes = .ok []) ∧
    ∀ overflow bytes nul, bytes.length < 2 ^ 63 → nul < bytes.length → ∀ extractedReferences,
      validateWithin overflow bytes nul extractedReferences =
        validateCanonicalFrame bytes nul extractedReferences := by
  refine ⟨?_, ?_, fun _ => typedReferences_opaque, fun _ _ _ hbytes hnul =>
    validateWithin_eq hbytes hnul⟩
  · exact fun bytes iri hiri htyped => typedReferences_iff hlabels hextracts hiri htyped
  · intro iri hiri hnul references payload hfits
    have hread {others : List String} {other : Bytes} (hother : Fits spell others other) :
        typedReferences space (encodeFrame spell iri others other) = .ok others :=
      (typedReferences_iff hlabels hextracts hiri ⟨_, rfl, hnul⟩ others).mpr ⟨other, hother, rfl⟩
    refine ⟨hread hfits, fun others other hother hsame => ?_⟩
    have hothers := hread hother
    rw [hsame, hread hfits] at hothers
    obtain rfl := Except.ok.inj hothers
    obtain ⟨-, hrest⟩ := List.cons.inj (List.append_cancel_left hsame)
    have hlength : other.length = payload.length := by
      have htotal := congrArg List.length hrest
      simp only [List.length_append, LittleEndian.length_encode] at htotal
      omega
    exact ⟨rfl, (List.append_inj' hrest hlength).2⟩

end Grammar

end Typed

/-- One registered type, whose objects are lists. -/
def listSpace : Space where
  addressBytes _ := ""
  registry := [("urn:list", fun bytes =>
    match declaredReferences Utf8.decode (bytes.drop 9) with
    | some references => .ok references
    | none => .error .truncated)]

theorem labels_utf8 : Labels Utf8.encode Utf8.decode := fun _ _ _ => Utf8.decode_eq_some

theorem listSpace_extracts : listSpace.Extracts Utf8.decode := by
  intro entry hentry rest hnul
  obtain rfl := List.mem_singleton.mp hentry
  have hdrop : (Utf8.encode "urn:list" ++ 0 :: rest).drop 9 = rest := by
    have hlength : (Utf8.encode "urn:list").length = 8 := by decide
    rw [List.drop_append, hlength]
    simp [hlength]
  cases hdeclared : declaredReferences Utf8.decode rest with
  | none => exact ⟨.truncated, by simp only [hdrop, hdeclared]⟩
  | some references => simp only [hdrop, hdeclared]

theorem listSpace_canonical :
    typedReferences listSpace (encodeFrame Utf8.encode "urn:list" [] [1, 2]) = .ok [] ∧
      typedReferences listSpace [1, 2] = .ok [] := by
  obtain ⟨-, hread, hopaque, -⟩ := typedReferences_canonical labels_utf8 listSpace_extracts
  refine ⟨?_, hopaque [1, 2] ?_⟩
  · exact (hread "urn:list" (by simp [listSpace]) (by decide) [] [1, 2]
      ⟨nofun, by decide, by decide⟩).1
  · rintro iri - ⟨rest, hbytes, -⟩
    have hmem : (0 : UInt8) ∈ [1, 2] := by
      rw [hbytes]
      simp
    exact absurd hmem (by decide)

end HologramLive.HoloGraph
