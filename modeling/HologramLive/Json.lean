import HologramLive.Error
import HologramLive.Store
import Mathlib.Data.Nat.Digits.Defs

namespace HologramLive

/-- A JSON document. Numbers are the unsigned integers the documents here hold. -/
inductive Json where
  | null
  | bool (value : Bool)
  | number (value : Nat)
  | string (value : String)
  | array (items : List Json)
  | object (fields : List (String × Json))

namespace Json

def get (document : Json) (key : String) : Option Json :=
  match document with
  | .object fields => fields.lookup key
  | _ => none

def asStr : Json → Option String
  | .string value => some value
  | _ => none

def asU64 : Json → Option Nat
  | .number value => if value < 2 ^ 64 then some value else none
  | _ => none

def asArray : Json → Option (List Json)
  | .array items => some items
  | _ => none

end Json

/-- The serializer as the code calls it, with the text of its parse errors. -/
structure JsonCodec where
  toVec : Json → Bytes
  fromSlice : Bytes → Except String Json

/-- What is written for a document reads back as that document. -/
def JsonCodec.Keeps (codec : JsonCodec) (document : Json) : Prop :=
  codec.fromSlice (codec.toVec document) = .ok document

/-- `str::parse::<u64>`: digits after an optional plus, within 64 bits. -/
def parseU64 (text : String) : Option Nat :=
  let digits := match text.toList with
    | '+' :: rest => rest
    | all => all
  if digits = [] ∨ !digits.all Char.isDigit then none
  else if Nat.ofDigitChars 10 digits 0 < 2 ^ 64 then some (Nat.ofDigitChars 10 digits 0)
  else none

theorem parseU64_toString (h : n < 2 ^ 64) : parseU64 (toString n) = some n := by
  have hdigits : ∀ c ∈ Nat.toDigits 10 n, c.isDigit := fun c hc =>
    Nat.isDigit_of_mem_toDigits (by decide) (by decide) hc
  have hlist : (toString n).toList = Nat.toDigits 10 n := Nat.toList_repr
  obtain ⟨first, rest, hcons⟩ := List.exists_cons_of_ne_nil (@Nat.toDigits_ne_nil n 10)
  have hplus : first ≠ '+' := by
    rintro rfl
    have := hdigits '+' (by simp [hcons])
    simp at this
  have hread : (match (toString n).toList with
      | '+' :: rest => rest
      | all => all) = Nat.toDigits 10 n := by
    rw [hlist, hcons]
    split
    · rename_i heq
      exact absurd (List.cons.inj heq).1 hplus
    · rfl
  have hall : (Nat.toDigits 10 n).all Char.isDigit = true := by
    simpa using hdigits
  simp only [parseU64, hread, Nat.toDigits_ne_nil, hall, Bool.not_true, Bool.false_eq_true,
    or_false, ↓reduceIte, Nat.ofDigitChars_ten_toDigits, h]

end HologramLive
