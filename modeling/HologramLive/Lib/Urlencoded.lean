import HologramLive.Lib.Pieces
import HologramLive.Lib.Utf8

/-! Forms in the shape of query strings: names and values, percent-encoded byte by byte. -/

namespace HologramLive.Lib.Urlencoded

abbrev Bytes := List UInt8

def hexUpper (digit : UInt8) : UInt8 := if digit < 10 then 0x30 + digit else 0x37 + digit

def hexValue (byte : UInt8) : Option UInt8 :=
  if 0x30 ≤ byte ∧ byte ≤ 0x39 then some (byte - 0x30)
  else if 0x41 ≤ byte ∧ byte ≤ 0x46 then some (byte - 0x37)
  else if 0x61 ≤ byte ∧ byte ≤ 0x66 then some (byte - 0x57)
  else none

/-- The letters and digits, and `*`, `-`, `.` and `_`. -/
def unreserved (byte : UInt8) : Bool :=
  (0x30 ≤ byte && byte ≤ 0x39) || (0x41 ≤ byte && byte ≤ 0x5a) || (0x61 ≤ byte && byte ≤ 0x7a) ||
    byte = 0x2a || byte = 0x2d || byte = 0x2e || byte = 0x5f

def percentByte (byte : UInt8) : Bytes := [0x25, hexUpper (byte >>> 4), hexUpper (byte &&& 0x0f)]

def formByte (byte : UInt8) : Bytes :=
  if byte = 0x20 then [0x2b] else if unreserved byte then [byte] else percentByte byte

def formEncode (text : String) : Bytes := (Utf8.encode text).flatMap formByte

/-- The serializer of a list of names and values. -/
def serialize (pairs : List (String × String)) : Bytes :=
  [0x26].intercalate (pairs.map fun pair => formEncode pair.1 ++ 0x3d :: formEncode pair.2)

/-- Sequences that are no escapes stay as they are. -/
def percentDecode : Bytes → Bytes
  | 0x25 :: high :: low :: rest =>
    match hexValue high, hexValue low with
    | some first, some second => (first <<< 4 ||| second) :: percentDecode rest
    | _, _ => 0x25 :: percentDecode (high :: low :: rest)
  | byte :: rest => byte :: percentDecode rest
  | [] => []

def plusToSpace (bytes : Bytes) : Bytes := bytes.map fun byte => if byte = 0x2b then 0x20 else byte

def formDecode (bytes : Bytes) : String := Utf8.decodeLossy (percentDecode (plusToSpace bytes))

/-- A name and its value, at the first `=`. -/
def parsePair (piece : Bytes) : String × String :=
  (formDecode (piece.takeWhile (· ≠ 0x3d)), formDecode ((piece.dropWhile (· ≠ 0x3d)).drop 1))

def parse (bytes : Bytes) : List (String × String) := (Pieces.pieces 0x26 bytes).map parsePair

/-- A way to write bytes that is read back byte by byte, and keeps clear of the separators. -/
structure Escape (escape : UInt8 → Bytes) : Prop where
  decoded : ∀ byte rest, percentDecode (plusToSpace (escape byte) ++ rest) = byte :: percentDecode rest
  separate : ∀ byte, ∀ escaped ∈ escape byte, escaped ≠ 0x26 ∧ escaped ≠ 0x3d

section Escape
variable {escape : UInt8 → Bytes}

theorem percentDecode_cons {byte : UInt8} (h : byte ≠ 0x25) (rest : Bytes) :
    percentDecode (byte :: rest) = byte :: percentDecode rest := by
  rw [percentDecode]
  intro high low more heq
  exact fun _ => h heq

theorem Escape.flatMap (h : Escape escape) (bytes : Bytes) :
    percentDecode (plusToSpace (bytes.flatMap escape)) = bytes := by
  induction bytes with
  | nil => rfl
  | cons byte rest ih =>
    rw [List.flatMap_cons, plusToSpace, List.map_append, ← plusToSpace, ← plusToSpace, h.decoded, ih]

theorem Escape.formDecode (h : Escape escape) (text : String) :
    formDecode ((Utf8.encode text).flatMap escape) = text := by
  rw [Urlencoded.formDecode, h.flatMap, Utf8.decodeLossy_encode]

theorem Escape.clear (h : Escape escape) (bytes : Bytes) :
    ∀ escaped ∈ bytes.flatMap escape, escaped ≠ 0x26 ∧ escaped ≠ 0x3d := by
  intro escaped hescaped
  obtain ⟨byte, -, hmem⟩ := List.mem_flatMap.mp hescaped
  exact h.separate byte escaped hmem

theorem parsePair_escaped (h : Escape escape) (name value : String) :
    parsePair ((Utf8.encode name).flatMap escape ++ 0x3d :: (Utf8.encode value).flatMap escape) =
      (name, value) := by
  have hname : ∀ escaped ∈ (Utf8.encode name).flatMap escape, decide (escaped ≠ 0x3d) = true := by
    intro escaped hescaped
    simpa using (h.clear _ escaped hescaped).2
  have htake : ((Utf8.encode name).flatMap escape ++
      0x3d :: (Utf8.encode value).flatMap escape).takeWhile (· ≠ 0x3d) =
        (Utf8.encode name).flatMap escape := by
    rw [List.takeWhile_append_of_pos hname]
    simp
  have hdrop : ((Utf8.encode name).flatMap escape ++
      0x3d :: (Utf8.encode value).flatMap escape).dropWhile (· ≠ 0x3d) =
        0x3d :: (Utf8.encode value).flatMap escape := by
    rw [List.dropWhile_append_of_pos hname]
    simp
  rw [parsePair, htake, hdrop, List.drop_one, List.tail_cons, h.formDecode, h.formDecode]

/-- What is written by an escape is parsed into what it was. -/
theorem parse_escaped (h : Escape escape) (pairs : List (String × String)) :
    parse ([0x26].intercalate (pairs.map fun pair => (Utf8.encode pair.1).flatMap escape ++
      0x3d :: (Utf8.encode pair.2).flatMap escape)) = pairs := by
  rw [parse, Pieces.pieces_join]
  · rw [List.map_map]
    conv_rhs => rw [← List.map_id pairs]
    apply List.map_congr_left
    intro pair _
    exact parsePair_escaped h pair.1 pair.2
  · intro piece hpiece
    obtain ⟨pair, -, rfl⟩ := List.mem_map.mp hpiece
    refine ⟨by simp, ?_⟩
    rw [List.mem_append, List.mem_cons, not_or, not_or]
    refine ⟨fun hmem => (h.clear _ _ hmem).1 rfl, by decide, fun hmem => (h.clear _ _ hmem).1 rfl⟩

end Escape

/-- One byte after the other is tried. -/
def everyByte (holds : UInt8 → Bool) : Bool := (List.range 256).all fun value => holds (.ofNat value)

theorem forall_byte {holds : UInt8 → Prop} [DecidablePred holds]
    (h : everyByte (fun byte => holds byte) = true) (byte : UInt8) : holds byte := by
  have hbyte := List.all_eq_true.mp h byte.toNat (List.mem_range.mpr byte.toNat_lt)
  rw [UInt8.ofNat_toNat] at hbyte
  exact of_decide_eq_true hbyte

theorem percentByte_decoded (byte : UInt8) (rest : Bytes) :
    percentDecode (plusToSpace (percentByte byte) ++ rest) = byte :: percentDecode rest := by
  have hplus : plusToSpace (percentByte byte) = percentByte byte := by
    revert byte
    exact forall_byte (by decide +kernel)
  have hdigits : hexValue (hexUpper (byte >>> 4)) = some (byte >>> 4) ∧
      hexValue (hexUpper (byte &&& 0x0f)) = some (byte &&& 0x0f) ∧
      byte >>> 4 <<< 4 ||| byte &&& 0x0f = byte := by
    revert byte
    exact forall_byte (by decide +kernel)
  obtain ⟨hhigh, hlow, hjoined⟩ := hdigits
  rw [hplus, percentByte, List.cons_append, List.cons_append, List.singleton_append, percentDecode,
    hhigh, hlow]
  simp [hjoined]

theorem percentByte_separate (byte : UInt8) :
    ∀ escaped ∈ percentByte byte, escaped ≠ 0x26 ∧ escaped ≠ 0x3d := by
  have hall : (percentByte byte).all (fun escaped => escaped ≠ 0x26 && escaped ≠ 0x3d) = true := by
    revert byte
    exact forall_byte (by decide +kernel)
  simpa using hall

theorem unreserved_plain : ∀ byte, unreserved byte = true →
    byte ≠ 0x25 ∧ byte ≠ 0x26 ∧ byte ≠ 0x2b ∧ byte ≠ 0x2c ∧ byte ≠ 0x3d :=
  forall_byte (by decide +kernel)

/-- A byte that stands for itself. -/
theorem plain_decoded {byte : UInt8} (hpercent : byte ≠ 0x25) (hplus : byte ≠ 0x2b) (rest : Bytes) :
    percentDecode (plusToSpace [byte] ++ rest) = byte :: percentDecode rest := by
  simp [plusToSpace, hplus, percentDecode_cons hpercent]

theorem escape_formByte : Escape formByte where
  decoded := by
    intro byte rest
    unfold formByte
    split
    · rename_i hspace
      subst hspace
      exact percentDecode_cons (by decide) rest
    · split
      · rename_i hplain
        obtain ⟨hpercent, -, hplus, -⟩ := unreserved_plain byte hplain
        exact plain_decoded hpercent hplus rest
      · exact percentByte_decoded byte rest
  separate := by
    intro byte escaped hescaped
    unfold formByte at hescaped
    split at hescaped
    · rw [List.mem_singleton.mp hescaped]
      decide
    · split at hescaped
      · rename_i hplain
        obtain ⟨-, hand, -, -, hequals⟩ := unreserved_plain byte hplain
        rw [List.mem_singleton.mp hescaped]
        exact ⟨hand, hequals⟩
      · exact percentByte_separate byte escaped hescaped

/-- What is serialized is parsed into what it was. -/
theorem parse_serialize (pairs : List (String × String)) : parse (serialize pairs) = pairs :=
  parse_escaped escape_formByte pairs

end HologramLive.Lib.Urlencoded
