import Mathlib.Logic.Function.Iterate

/-! CRC-32 bit by bit, and the table it is computed with. -/

namespace HologramLive.Lib.Crc32

def polynomial : BitVec 32 := 0xedb88320#32

/-- One bit of the remainder. -/
def bitStep (c : BitVec 32) : BitVec 32 :=
  if c.getLsbD 0 then polynomial ^^^ (c >>> 1) else c >>> 1

/-- One byte of the input. -/
def byteStep (c : BitVec 32) (byte : UInt8) : BitVec 32 :=
  bitStep^[8] (c ^^^ byte.toBitVec.setWidth 32)

/-- The remainder over some bytes, with both ends complemented. -/
def update (crc : BitVec 32) (bytes : List UInt8) : BitVec 32 :=
  ~~~(bytes.foldl byteStep (~~~crc))

def checksum (bytes : List UInt8) : BitVec 32 := update 0 bytes

def tableEntry (index : BitVec 32) : BitVec 32 := bitStep^[8] index

def tableStep (c : BitVec 32) (byte : UInt8) : BitVec 32 :=
  tableEntry ((c ^^^ byte.toBitVec.setWidth 32) &&& 0xff#32) ^^^ (c >>> 8)

/-- What is fed piece by piece comes to what is fed at once. -/
theorem update_append (crc : BitVec 32) (first second : List UInt8) :
    update crc (first ++ second) = update (update crc first) second := by
  simp [update, List.foldl_append]

theorem update_nil (crc : BitVec 32) : update crc [] = crc := by simp [update]

theorem bitStep_xor (x y : BitVec 32) : bitStep (x ^^^ y) = bitStep x ^^^ bitStep y := by
  have hshift : (x ^^^ y) >>> 1 = (x >>> 1) ^^^ (y >>> 1) := BitVec.ushiftRight_xor_distrib ..
  cases hx : x.getLsbD 0 with
  | false =>
    cases hy : y.getLsbD 0 with
    | false =>
      simp only [bitStep, BitVec.getLsbD_xor, hx, hy, hshift]
      simp only [Bool.xor_self, Bool.false_eq_true, ↓reduceIte]
    | true =>
      simp only [bitStep, BitVec.getLsbD_xor, hx, hy, hshift]
      simp only [Bool.false_xor, Bool.false_eq_true, ↓reduceIte]
      ac_rfl
  | true =>
    cases hy : y.getLsbD 0 with
    | false =>
      simp only [bitStep, BitVec.getLsbD_xor, hx, hy, hshift]
      simp only [Bool.xor_false, Bool.false_eq_true, ↓reduceIte]
      ac_rfl
    | true =>
      simp only [bitStep, BitVec.getLsbD_xor, hx, hy, hshift]
      simp only [Bool.xor_self, Bool.false_eq_true, ↓reduceIte]
      have hcancel : polynomial ^^^ (x >>> 1) ^^^ (polynomial ^^^ (y >>> 1)) =
          (polynomial ^^^ polynomial) ^^^ ((x >>> 1) ^^^ (y >>> 1)) := by ac_rfl
      rw [hcancel, BitVec.xor_self, BitVec.zero_xor]

theorem iterate_xor (count : Nat) (x y : BitVec 32) :
    bitStep^[count] (x ^^^ y) = bitStep^[count] x ^^^ bitStep^[count] y := by
  induction count generalizing x y with
  | zero => rfl
  | succ count ih =>
    rw [Function.iterate_succ_apply, Function.iterate_succ_apply, Function.iterate_succ_apply,
      bitStep_xor, ih]

/-- Low zeros are shifted out and nothing comes of them. -/
theorem iterate_zeros {count : Nat} {x : BitVec 32} (h : ∀ i < count, x.getLsbD i = false) :
    bitStep^[count] x = x >>> count := by
  induction count generalizing x with
  | zero => simp
  | succ count ih =>
    have hstep : bitStep x = x >>> 1 := by
      rw [bitStep, h 0 (by omega)]
      rfl
    have hrest : ∀ i < count, (x >>> 1).getLsbD i = false := by
      intro i hi
      rw [BitVec.getLsbD_ushiftRight]
      exact h (1 + i) (by omega)
    rw [Function.iterate_succ_apply, hstep, ih hrest, ← BitVec.shiftRight_add, Nat.add_comm]

theorem byte_high (byte : UInt8) : (byte.toBitVec.setWidth 32) >>> 8 = 0#32 := by
  apply BitVec.eq_of_toNat_eq
  have hlt := byte.toBitVec.isLt
  simp only [BitVec.toNat_ushiftRight, BitVec.toNat_setWidth, BitVec.toNat_ofNat]
  rw [Nat.shiftRight_eq_div_pow]
  omega

/-- A byte by its table entry is a byte bit by bit. -/
theorem tableStep_eq (c : BitVec 32) (byte : UInt8) : tableStep c byte = byteStep c byte := by
  have hsplit : ∀ x : BitVec 32, x = (x &&& 0xff#32) ^^^ (x &&& ~~~0xff#32) := by
    intro x
    ext i hi
    simp only [BitVec.getElem_xor, BitVec.getElem_and, BitVec.getElem_not]
    cases x[i] <;> cases (0xff#32)[i] <;> rfl
  have hzeros : ∀ x : BitVec 32, ∀ i < 8, (x &&& ~~~0xff#32).getLsbD i = false := by
    have hmask : ∀ i < 8, (~~~0xff#32).getLsbD i = false := by decide
    intro x i hi
    rw [BitVec.getLsbD_and, hmask i hi, Bool.and_false]
  have hhigh : ∀ x : BitVec 32, (x &&& ~~~0xff#32) >>> 8 = x >>> 8 := by
    intro x
    have hlow : (x &&& 0xff#32) >>> 8 = 0#32 := by
      rw [BitVec.ushiftRight_and_distrib]
      have hmask : (0xff#32) >>> 8 = 0#32 := by decide
      rw [hmask, BitVec.and_zero]
    have hwhole := congrArg (fun y : BitVec 32 => y >>> 8) (hsplit x)
    simp only [BitVec.ushiftRight_xor_distrib, hlow, BitVec.zero_xor] at hwhole
    exact hwhole.symm
  have hshift : (c ^^^ byte.toBitVec.setWidth 32) >>> 8 = c >>> 8 := by
    rw [BitVec.ushiftRight_xor_distrib, byte_high, BitVec.xor_zero]
  have hbyte : ∀ x : BitVec 32, bitStep^[8] x = tableEntry (x &&& 0xff#32) ^^^ (x >>> 8) := by
    intro x
    calc bitStep^[8] x = bitStep^[8] ((x &&& 0xff#32) ^^^ (x &&& ~~~0xff#32)) :=
          congrArg _ (hsplit x)
      _ = tableEntry (x &&& 0xff#32) ^^^ bitStep^[8] (x &&& ~~~0xff#32) := iterate_xor ..
      _ = tableEntry (x &&& 0xff#32) ^^^ (x >>> 8) := by rw [iterate_zeros (hzeros x), hhigh]
  rw [tableStep, byteStep, hbyte, hshift]

example : checksum [0x31, 0x32, 0x33, 0x34, 0x35, 0x36, 0x37, 0x38, 0x39] = 0xcbf43926#32 := by
  decide +kernel

end HologramLive.Lib.Crc32
