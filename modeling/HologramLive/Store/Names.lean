import HologramLive.Error
import HologramLive.Lib.Strip
import HologramLive.Store

/-! Content addresses, the ids they are written as and the file names people give. -/

namespace HologramLive.Store

def hexTable : List Char := "0123456789abcdef".toList

def hexDigit (nibble : UInt8) : Char := hexTable.getD nibble.toNat '0'

def hex (bytes : Bytes) : String :=
  String.ofList (bytes.flatMap fun byte : UInt8 => [hexDigit (byte >>> 4), hexDigit (byte &&& 0x0f)])

/-- The content hash. -/
abbrev Blake3 := Bytes → Vector UInt8 32

def hexDigest (blake3 : Blake3) (bytes : Bytes) : String := hex (blake3 bytes).toList

/-- The id an object with these bytes has. -/
def address (blake3 : Blake3) (bytes : Bytes) : String := "blake3:" ++ hexDigest blake3 bytes

def isAsciiHexDigit (c : Char) : Bool :=
  ('0' ≤ c && c ≤ '9') || ('a' ≤ c && c ≤ 'f') || ('A' ≤ c && c ≤ 'F')

/-- What may stand behind `blake3:` in an id. -/
def ValidDigest (digest : String) : Prop :=
  digest.toList.length = 64 ∧ digest.toList.all isAsciiHexDigit = true

instance : DecidablePred ValidDigest := fun _ => inferInstanceAs (Decidable (_ ∧ _))

/-- The digest an id carries. Reports of a refused id show it through `debug`, the
`{:?}` text of a string. -/
def validateId (debug : String → String) (id : String) : Except LiveError String :=
  if "blake3:".toList <+: id.toList then
    let digest := String.ofList (id.toList.drop 7)
    if ValidDigest digest then .ok digest
    else .error (.notFound s!"malformed object id {debug id}")
  else .error (.notFound s!"unsupported object id {debug id}")

/-- The characters with the Unicode property White_Space. -/
def isWhitespace (c : Char) : Bool :=
  (0x09 ≤ c.toNat && c.toNat ≤ 0x0d) || c.toNat = 0x20 || c.toNat = 0x85 || c.toNat = 0xa0 ||
    c.toNat = 0x1680 || (0x2000 ≤ c.toNat && c.toNat ≤ 0x200a) || c.toNat = 0x2028 ||
    c.toNat = 0x2029 || c.toNat = 0x202f || c.toNat = 0x205f || c.toNat = 0x3000

def trim (text : String) : String :=
  String.ofList ((text.toList.dropWhile isWhitespace).reverse.dropWhile isWhitespace).reverse

theorem trim_toList (text : String) :
    (trim text).toList = Lib.Strip.strip isWhitespace text.toList :=
  String.toList_ofList

def isControl (c : Char) : Bool := c.toNat ≤ 0x1f || (0x7f ≤ c.toNat && c.toNat ≤ 0x9f)

def validateFilename (filename : String) : Except LiveError String :=
  let filename := trim filename
  if filename = "" then .error (.protocol "filename cannot be empty")
  else if filename.utf8ByteSize > 255 then
    .error (.protocol "filename cannot be longer than 255 characters")
  else if filename = "." ∨ filename = ".." ∨
      filename.toList.any (fun c => c = '/' || c = '\\') ∨ filename.toList.any isControl then
    .error (.protocol
      "filename cannot contain path separators, control characters, or reserved names")
  else .ok filename

theorem validateId_ok {debug : String → String} {id digest : String} :
    validateId debug id = .ok digest ↔ id = "blake3:" ++ digest ∧ ValidDigest digest := by
  unfold validateId
  constructor
  · intro h
    split at h
    · rename_i hstarts
      dsimp only at h
      split at h
      · rename_i hvalid
        obtain rfl := Except.ok.inj h
        obtain ⟨rest, hrest⟩ := hstarts
        have hdigest : (String.ofList (id.toList.drop 7)).toList = rest := by
          rw [String.toList_ofList, ← hrest]
          rfl
        refine ⟨?_, hvalid⟩
        rw [← String.toList_inj, String.toList_append, hdigest, hrest]
      · cases h
    · cases h
  · rintro ⟨rfl, hvalid⟩
    have hlist : ("blake3:" ++ digest).toList = "blake3:".toList ++ digest.toList :=
      String.toList_append ..
    have hdrop : String.ofList (("blake3:" ++ digest).toList.drop 7) = digest := by
      rw [hlist]
      exact String.ofList_toList
    have hstarts : "blake3:".toList <+: ("blake3:" ++ digest).toList := by
      rw [hlist]
      exact List.prefix_append ..
    simp only [hstarts, hdrop, hvalid, ↓reduceIte]

theorem char_le (a b : Char) : a ≤ b ↔ a.toNat ≤ b.toNat := Iff.rfl

/-- What is true of the sixteen digits is true of what is printed in them. -/
theorem hexDigit_all {p : Char → Bool} (h : hexTable.all p = true) (nibble : UInt8) :
    p (hexDigit nibble) = true := by
  rw [hexDigit, List.getD_eq_getElem?_getD]
  cases hdigit : hexTable[nibble.toNat]? with
  | none => exact List.all_eq_true.mp h '0' (by decide)
  | some c => exact List.all_eq_true.mp h c (List.mem_of_getElem? hdigit)

theorem hexDigit_injective {left right : UInt8} (hleft : left.toNat < 16)
    (hright : right.toNat < 16) (h : hexDigit left = hexDigit right) : left = right := by
  have htable : ∀ i < 16, ∀ j < 16, hexTable.getD i '0' = hexTable.getD j '0' → i = j := by decide
  exact UInt8.toNat_inj.mp (htable _ hleft _ hright h)

theorem toNat_high (byte : UInt8) : (byte >>> 4).toNat = byte.toNat / 16 := by
  simp [Nat.shiftRight_eq_div_pow]

theorem toNat_low (byte : UInt8) : (byte &&& 0x0f).toNat = byte.toNat % 16 := by
  rw [UInt8.toNat_and]
  exact Nat.and_two_pow_sub_one_eq_mod byte.toNat 4

theorem hex_nil : hex [] = "" := by simp [hex]

theorem hex_cons (byte : UInt8) (bytes : Bytes) : (hex (byte :: bytes)).toList =
    hexDigit (byte >>> 4) :: hexDigit (byte &&& 0x0f) :: (hex bytes).toList := by
  simp [hex]

theorem length_hex (bytes : Bytes) : (hex bytes).toList.length = 2 * bytes.length := by
  induction bytes with
  | nil => simp [hex_nil]
  | cons byte rest ih =>
    rw [hex_cons]
    simp only [List.length_cons, ih]
    omega

theorem hex_all {p : Char → Bool} (h : hexTable.all p = true) (bytes : Bytes) :
    (hex bytes).toList.all p = true := by
  induction bytes with
  | nil => simp [hex_nil]
  | cons byte rest ih => simp [hex_cons, hexDigit_all h, ih]

theorem hex_injective : Function.Injective hex := by
  intro left right h
  induction left generalizing right with
  | nil =>
    have := congrArg (fun text => text.toList.length) h
    simp only [length_hex, List.length_nil] at this
    exact (List.length_eq_zero_iff.mp (by omega)).symm
  | cons byte rest ih =>
    cases right with
    | nil =>
      have := congrArg (fun text => text.toList.length) h
      simp [length_hex] at this
    | cons other others =>
      have hlist := congrArg String.toList h
      rw [hex_cons, hex_cons, List.cons.injEq, List.cons.injEq] at hlist
      obtain ⟨hhigh, hlow, hrest⟩ := hlist
      have hbyte : byte = other := by
        have hbound := byte.toNat_lt
        have hbound' := other.toNat_lt
        have hh := congrArg UInt8.toNat (hexDigit_injective (by rw [toNat_high]; omega)
          (by rw [toNat_high]; omega) hhigh)
        have hl := congrArg UInt8.toNat (hexDigit_injective (by rw [toNat_low]; omega)
          (by rw [toNat_low]; omega) hlow)
        rw [toNat_high, toNat_high] at hh
        rw [toNat_low, toNat_low] at hl
        exact UInt8.toNat_inj.mp (by omega)
      rw [hbyte, ih (String.toList_inj.mp hrest)]

theorem hexDigest_valid (blake3 : Blake3) (bytes : Bytes) :
    ValidDigest (hexDigest blake3 bytes) := by
  refine ⟨?_, hex_all rfl _⟩
  rw [hexDigest, length_hex, Vector.length_toList]

theorem hexDigest_inj {blake3 : Blake3} {left right : Bytes} :
    hexDigest blake3 left = hexDigest blake3 right ↔ blake3 left = blake3 right := by
  rw [hexDigest, hexDigest, hex_injective.eq_iff, Vector.toList_inj]

end HologramLive.Store
