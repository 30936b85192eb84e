namespace HologramLive.Lib.Utf8

def encode (text : String) : List UInt8 := text.toByteArray.data.toList

/-- The text a byte string spells, if it is valid UTF-8. -/
def decode (bytes : List UInt8) : Option String := String.fromUTF8? ⟨bytes.toArray⟩

theorem decode_encode (text : String) : decode (encode text) = some text := by
  have hvalid : (⟨(encode text).toArray⟩ : ByteArray).IsValidUTF8 := by
    simpa [encode] using text.isValidUTF8
  rw [decode, String.fromUTF8?, dif_pos hvalid, Option.some.injEq, ← String.toByteArray_inj]
  simp [encode, String.fromUTF8]

theorem decode_eq_some : decode bytes = some text ↔ encode text = bytes := by
  constructor
  · intro h
    unfold decode String.fromUTF8? at h
    split at h
    · cases h
      simp [encode, String.fromUTF8]
    · cases h
  · rintro rfl
    exact decode_encode text

theorem length_encode (text : String) : (encode text).length = text.utf8ByteSize := by
  rw [encode, Array.length_toList]
  rfl

theorem encode_append (first second : String) :
    encode (first ++ second) = encode first ++ encode second := by
  simp [encode]

theorem encode_injective : Function.Injective encode := by
  intro first second h
  have hdecode := decode_encode first
  rw [h, decode_encode] at hdecode
  exact (Option.some.inj hdecode).symm

/-- A byte that is in no character of a text is not in the text. -/
theorem not_mem_encode {byte : UInt8} {text : String}
    (h : ∀ c ∈ text.toList, byte ∉ encode (String.singleton c)) : byte ∉ encode text := by
  obtain ⟨chars, rfl⟩ : ∃ chars, text = String.ofList chars := ⟨text.toList, by simp⟩
  rw [String.toList_ofList] at h
  induction chars with
  | nil => simp [encode]
  | cons c chars ih =>
    obtain ⟨hfirst, hrest⟩ := List.forall_mem_cons.mp h
    rw [String.ofList_cons, encode_append, List.mem_append, not_or]
    exact ⟨hfirst, ih hrest⟩

theorem encode_replicate {c : Char} {byte : UInt8} (h : encode (String.singleton c) = [byte])
    (count : Nat) : encode (String.ofList (List.replicate count c)) = List.replicate count byte := by
  induction count with
  | zero => rfl
  | succ count ih =>
    rw [List.replicate_succ, String.ofList_cons, encode_append, h, ih, List.replicate_succ]
    rfl

/-- How many bytes one replacement character stands for, where the bytes ahead spell no
character: as many as could still begin one. -/
def maximalSubpart (first second third : UInt8) : Nat :=
  let continues : UInt8 → Bool := fun byte => 0x80 ≤ byte && byte ≤ 0xbf
  if (first = 0xe0 ∧ 0xa0 ≤ second ∧ second ≤ 0xbf) ∨
      (0xe1 ≤ first ∧ first ≤ 0xec ∧ continues second) ∨
      (first = 0xed ∧ 0x80 ≤ second ∧ second ≤ 0x9f) ∨
      (0xee ≤ first ∧ first ≤ 0xef ∧ continues second) then 2
  else if (first = 0xf0 ∧ 0x90 ≤ second ∧ second ≤ 0xbf) ∨
      (0xf1 ≤ first ∧ first ≤ 0xf3 ∧ continues second) ∨
      (first = 0xf4 ∧ 0x80 ≤ second ∧ second ≤ 0x8f) then
    if continues third then 3 else 2
  else 1

/-- The characters of a byte string, with U+FFFD for what spells none. The fuel is the
number of bytes. -/
def replaceInvalid : Nat → List UInt8 → List Char
  | 0, _ => []
  | _ + 1, [] => []
  | fuel + 1, first :: rest =>
    match ByteArray.utf8DecodeChar? ⟨(first :: rest).toArray⟩ 0 with
    | some c => c :: replaceInvalid fuel ((first :: rest).drop c.utf8Size)
    | none => '\uFFFD' :: replaceInvalid fuel
        ((first :: rest).drop (maximalSubpart first (rest.getD 0 0) (rest.getD 1 0)))

/-- `String::from_utf8_lossy`. -/
def decodeLossy (bytes : List UInt8) : String :=
  match decode bytes with
  | some text => text
  | none => String.ofList (replaceInvalid bytes.length bytes)

@[simp] theorem decodeLossy_encode (text : String) : decodeLossy (encode text) = text := by
  simp [decodeLossy, decode_encode]

end HologramLive.Lib.Utf8
