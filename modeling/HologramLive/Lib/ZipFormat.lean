import HologramLive.Lib.Crc32
import HologramLive.Lib.LittleEndian

/-! Reading an archive of stored members, with the wide fields where the narrow ones are at
their limit. -/

namespace HologramLive.Lib.ZipFormat
open LittleEndian

def limit16 : Nat := 0xffff
def limit32 : Nat := 0xffffffff

def localSignature : Nat := 0x04034b50
def descriptorSignature : Nat := 0x08074b50
def centralSignature : Nat := 0x02014b50
def wideEndSignature : Nat := 0x06064b50
def locatorSignature : Nat := 0x07064b50
def endSignature : Nat := 0x06054b50

/-- The extra field that holds the wide values. -/
def wideId : Nat := 0x0001

def localWidths : List Nat := [4, 2, 2, 2, 2, 2, 4, 4, 4, 2, 2]
def centralWidths : List Nat := [4, 2, 2, 2, 2, 2, 2, 4, 4, 4, 2, 2, 2, 2, 2, 4, 4]
def wideEndWidths : List Nat := [4, 8, 2, 2, 4, 4, 8, 8, 8, 8]
def locatorWidths : List Nat := [4, 4, 8, 4]
def endWidths : List Nat := [4, 2, 2, 2, 2, 4, 4, 2]

/-- Where the directory is and how many members it lists. -/
structure EndRecord where
  count : Nat
  size : Nat
  start : Nat

structure Central where
  name : List UInt8
  flags : Nat
  method : Nat
  crc : Nat
  compressed : Nat
  size : Nat
  offset : Nat

def widen (limit value wide : Nat) : Nat := if value = limit then wide else value

/-- The wide end record, found through the locator just ahead of the end record. -/
def readWideEnd (bytes : List UInt8) (narrow : EndRecord) : Option EndRecord :=
  match read locatorWidths (bytes.drop (bytes.length - 42)) with
  | some ([signature, _, position, _], _) =>
    if signature ≠ locatorSignature then none
    else match read wideEndWidths (bytes.drop position) with
      | some ([signature, _, _, _, _, _, _, count, size, start], _) =>
        if signature ≠ wideEndSignature then none
        else some
          ⟨widen limit16 narrow.count count, widen limit32 narrow.size size,
            widen limit32 narrow.start start⟩
      | _ => none
  | _ => none

/-- The end record of an archive without a comment. -/
def readEnd (bytes : List UInt8) : Option EndRecord :=
  match read endWidths (bytes.drop (bytes.length - 22)) with
  | some ([signature, _, _, _, count, size, start, comment], rest) =>
    if signature ≠ endSignature ∨ comment ≠ 0 ∨ rest ≠ [] then none
    else if count = limit16 ∨ size = limit32 ∨ start = limit32 then
      readWideEnd bytes ⟨count, size, start⟩
    else some ⟨count, size, start⟩
  | _ => none

section
variable {bytes rest : List UInt8} {narrow : EndRecord}

theorem readWideEnd_of {disk position disks length made needed diskHere diskStart here count size
    start : Nat}
    (hlocator : read locatorWidths (bytes.drop (bytes.length - 42)) =
      some ([locatorSignature, disk, position, disks], rest))
    {after : List UInt8}
    (hend : read wideEndWidths (bytes.drop position) =
      some ([wideEndSignature, length, made, needed, diskHere, diskStart, here, count, size, start],
        after)) :
    readWideEnd bytes narrow = some
      ⟨widen limit16 narrow.count count, widen limit32 narrow.size size,
        widen limit32 narrow.start start⟩ := by
  unfold readWideEnd
  simp only [hlocator, hend, ne_eq, not_true_eq_false, ↓reduceIte]

theorem readEnd_of {disk start diskCount count size position : Nat}
    (hend : read endWidths (bytes.drop (bytes.length - 22)) =
      some ([endSignature, disk, start, diskCount, count, size, position, 0], [])) :
    readEnd bytes =
      if count = limit16 ∨ size = limit32 ∨ position = limit32 then
        readWideEnd bytes ⟨count, size, position⟩
      else some ⟨count, size, position⟩ := by
  unfold readEnd
  simp only [hend, ne_eq, not_true_eq_false, or_self, ↓reduceIte]

end

/-- The data of an extra field. The fuel is the number of bytes. -/
def extraField (id : Nat) : Nat → List UInt8 → Option (List UInt8)
  | 0, _ => none
  | fuel + 1, bytes =>
    match read [2, 2] bytes with
    | some ([found, length], rest) =>
      if rest.length < length then none
      else if found = id then some (rest.take length)
      else extraField id fuel (rest.drop length)
    | _ => none

/-- A value of 32 bits, or the next wide one where it is at its limit. -/
def wideValue (value : Nat) (wide : List UInt8) : Option (Nat × List UInt8) :=
  if value = limit32 then
    match read [8] wide with
    | some ([found], rest) => some (found, rest)
    | _ => none
  else some (value, wide)

def readCentral (bytes : List UInt8) : Option (Central × List UInt8) :=
  match read centralWidths bytes with
  | some ([signature, _, _, flags, method, _, _, crc, compressed, size, nameLength, extraLength,
      commentLength, _, _, _, offset], rest) =>
    if signature ≠ centralSignature ∨ rest.length < nameLength + extraLength + commentLength then
      none
    else do
      let extra := (rest.drop nameLength).take extraLength
      let wide := (extraField wideId extra.length extra).getD []
      let (size, wide) ← wideValue size wide
      let (compressed, wide) ← wideValue compressed wide
      let (offset, _) ← wideValue offset wide
      some
        (⟨rest.take nameLength, flags, method, crc, compressed, size, offset⟩,
          rest.drop (nameLength + extraLength + commentLength))
  | _ => none

/-- So many members, and nothing after them. -/
def readCentrals : Nat → List UInt8 → Option (List Central)
  | 0, bytes => if bytes = [] then some [] else none
  | count + 1, bytes => do
    let (central, rest) ← readCentral bytes
    let centrals ← readCentrals count rest
    some (central :: centrals)

/-- Whether what follows a member's data repeats its checksum and sizes. -/
def described (central : Central) (width : Nat) (after : List UInt8) : Bool :=
  match read [4, 4, width, width] after with
  | some (fields, _) =>
    fields = [descriptorSignature, central.crc, central.compressed, central.size]
  | none => false

/-- A member's name and content, where everything said of it agrees. -/
def readMember (bytes : List UInt8) (central : Central) : Option (List UInt8 × List UInt8) :=
  match read localWidths (bytes.drop central.offset) with
  | some ([signature, _, flags, method, _, _, _, _, _, nameLength, extraLength], rest) =>
    let extra := (rest.drop nameLength).take extraLength
    let data := rest.drop (nameLength + extraLength)
    let content := data.take central.compressed
    let width := if (extraField wideId extra.length extra).isSome then 8 else 4
    if signature = localSignature ∧ rest.take nameLength = central.name ∧ method = 0 ∧
        central.method = 0 ∧ flags = central.flags ∧ central.compressed = central.size ∧
        content.length = central.size ∧ (Crc32.checksum content).toNat = central.crc ∧
        (flags.testBit 3 = true → described central width (data.drop central.compressed) = true) then
      some (central.name, content)
    else none
  | _ => none

theorem readMember_of {bytes name extra content after : List UInt8} {version flags time date crc
    compressed size offset : Nat}
    (hlocal : read localWidths (bytes.drop offset) =
      some ([localSignature, version, flags, 0, time, date, crc, compressed, size, name.length,
        extra.length], name ++ (extra ++ (content ++ after))))
    (hdescribed : described
      ⟨name, flags, 0, (Crc32.checksum content).toNat, content.length, content.length, offset⟩
      (if (extraField wideId extra.length extra).isSome then 8 else 4) after = true) :
    readMember bytes
        ⟨name, flags, 0, (Crc32.checksum content).toNat, content.length, content.length, offset⟩ =
      some (name, content) := by
  have hdata : (name ++ (extra ++ (content ++ after))).drop (name.length + extra.length) =
      content ++ after := by
    rw [← List.append_assoc]
    exact List.drop_left' (List.length_append ..)
  unfold readMember
  simp only [hlocal, hdata, List.take_left, List.drop_left, hdescribed, implies_true, and_self,
    ↓reduceIte]

/-- The directory an archive's end record points at. -/
def readDirectory (bytes : List UInt8) : Option (EndRecord × List Central) := do
  let last ← readEnd bytes
  if bytes.length < last.start + last.size then none
  else do
    let centrals ← readCentrals last.count ((bytes.drop last.start).take last.size)
    some (last, centrals)

def readArchive (bytes : List UInt8) : Option (List (List UInt8 × List UInt8)) := do
  let (_, centrals) ← readDirectory bytes
  centrals.mapM (readMember bytes)

end HologramLive.Lib.ZipFormat
