import HologramLive.Lib.Result

/-! A format that accepts a value's normal form and nothing else, by writing again
what it has read. -/

namespace HologramLive.Lib.Canonical
open Result
variable {α β ε : Type} [DecidableEq β]

structure Format (α β ε : Type) where
  check : α → Except ε Unit
  normal : α → α
  write : α → Except ε β
  read : β → Except ε α
  refusal : ε

variable (format : Format α β ε)

def Format.encode (a : α) : Except ε β := do
  format.check a
  format.write (format.normal a)

def Format.decode (b : β) : Except ε α := do
  let a ← format.read b
  let again ← format.encode a
  if again ≠ b then .error format.refusal else .ok a

structure Format.Lawful : Prop where
  read_write : ∀ {a b}, format.write a = .ok b → format.read b = .ok a
  check_normal : ∀ {a}, format.check a = .ok () → format.check (format.normal a) = .ok ()
  normal_normal : ∀ {a}, format.check a = .ok () →
    format.normal (format.normal a) = format.normal a

variable {format : Format α β ε}

theorem Format.encode_ok :
    format.encode a = .ok b ↔ format.check a = .ok () ∧ format.write (format.normal a) = .ok b := by
  rw [Format.encode, check_ok]

theorem Format.encode_normal (laws : format.Lawful) (h : format.encode a = .ok b) :
    format.encode (format.normal a) = .ok b := by
  obtain ⟨hcheck, hwrite⟩ := encode_ok.mp h
  refine encode_ok.mpr ⟨laws.check_normal hcheck, ?_⟩
  rw [laws.normal_normal hcheck]
  exact hwrite

theorem Format.decode_ok :
    format.decode b = .ok a ↔ format.read b = .ok a ∧ format.encode a = .ok b := by
  unfold Format.decode
  rw [bind_ok]
  constructor
  · rintro ⟨read, hread, h⟩
    obtain ⟨again, hagain, h⟩ := bind_ok.mp h
    obtain ⟨hsame, hok⟩ := guard_ok.mp h
    obtain rfl := Except.ok.inj hok
    exact ⟨hread, Decidable.not_not.mp hsame ▸ hagain⟩
  · rintro ⟨hread, hagain⟩
    exact ⟨a, hread, by simp [hagain]⟩

/-- What a value is written as reads back as its normal form. -/
theorem Format.decode_encode (laws : format.Lawful) (h : format.encode a = .ok b) :
    format.decode b = .ok (format.normal a) :=
  decode_ok.mpr ⟨laws.read_write (encode_ok.mp h).2, encode_normal laws h⟩

/-- What is read is normal, and is what the bytes are written for. -/
theorem Format.decode_iff (laws : format.Lawful) :
    format.decode b = .ok a ↔ format.normal a = a ∧ format.encode a = .ok b := by
  constructor
  · intro h
    obtain ⟨hread, hencode⟩ := decode_ok.mp h
    have hnormal := laws.read_write (encode_ok.mp hencode).2
    rw [hread, Except.ok.injEq] at hnormal
    exact ⟨hnormal.symm, hencode⟩
  · rintro ⟨hnormal, hencode⟩
    have hdecode := decode_encode laws hencode
    rwa [hnormal] at hdecode

end HologramLive.Lib.Canonical
