import Mathlib.Algebra.GroupWithZero.Nat
import Mathlib.Data.Nat.Basic

namespace HologramLive.Lib.LittleEndian

/-- The low `width` bytes of a number, least significant first. -/
def encode : Nat → Nat → List UInt8
  | 0, _ => []
  | width + 1, n => UInt8.ofNat n :: encode width (n / 256)

def decode (bytes : List UInt8) : Nat := bytes.foldr (fun byte n => byte.toNat + 256 * n) 0

@[simp] theorem length_encode (width n : Nat) : (encode width n).length = width := by
  induction width generalizing n with
  | zero => rfl
  | succ width ih => simp [encode, ih]

/-- What does not fit the width is lost. -/
theorem decode_encode (width n : Nat) : decode (encode width n) = n % 256 ^ width := by
  induction width generalizing n with
  | zero => simp [encode, decode, Nat.mod_one]
  | succ width ih =>
    have hrest := ih (n / 256)
    rw [decode] at hrest
    rw [encode, decode, List.foldr_cons, hrest, pow_succ', Nat.mod_mul, UInt8.toNat_ofNat']

/-- A record of numbers, each of its own width. -/
def write (fields : List (Nat × Nat)) : List UInt8 :=
  fields.flatMap fun field => encode field.1 field.2

def read : List Nat → List UInt8 → Option (List Nat × List UInt8)
  | [], bytes => some ([], bytes)
  | width :: widths, bytes =>
    if bytes.length < width then none
    else (read widths (bytes.drop width)).map fun found =>
      (decode (bytes.take width) :: found.1, found.2)

theorem length_write (fields : List (Nat × Nat)) :
    (write fields).length = (fields.map Prod.fst).sum := by
  induction fields with
  | nil => rfl
  | cons field fields ih =>
    rw [write, List.flatMap_cons, List.length_append, length_encode, List.map_cons, List.sum_cons,
      ← ih, write]

/-- A record is read back as far as its numbers fit their widths. -/
theorem read_write (fields : List (Nat × Nat)) (rest : List UInt8) :
    read (fields.map Prod.fst) (write fields ++ rest) =
      some (fields.map fun field => field.2 % 256 ^ field.1, rest) := by
  induction fields with
  | nil => rfl
  | cons field fields ih =>
    obtain ⟨width, value⟩ := field
    have hbytes : write ((width, value) :: fields) ++ rest =
        encode width value ++ (write fields ++ rest) := by
      rw [write, List.flatMap_cons, List.append_assoc, write]
    have hlong : ¬(encode width value ++ (write fields ++ rest)).length < width := by
      rw [List.length_append, length_encode]
      omega
    have hdrop : (encode width value ++ (write fields ++ rest)).drop width =
        write fields ++ rest := List.drop_left' (length_encode ..)
    have htake : (encode width value ++ (write fields ++ rest)).take width = encode width value :=
      List.take_left' (length_encode ..)
    rw [hbytes, List.map_cons, read, if_neg hlong, hdrop, htake, ih, decode_encode]
    rfl

end HologramLive.Lib.LittleEndian
