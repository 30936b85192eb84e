import HologramLive.Lib.LittleEndian
import Mathlib.Data.Nat.ModEq
import Mathlib.Tactic.NormNum

/-! Encodings whose words can be told apart in a stream of them. -/

namespace HologramLive.Lib.Framing
variable {α β γ : Type}

/-- What follows a word cannot be taken for a part of it. -/
def PrefixFree (valid : α → Prop) (encode : α → List γ) : Prop :=
  ∀ a b rest rest', valid a → valid b → encode a ++ rest = encode b ++ rest' → a = b ∧ rest = rest'

variable {valid : α → Prop} {encode : α → List γ}

/-- A stream of words spells one list of words. -/
theorem PrefixFree.flatMap_injective (h : PrefixFree valid encode) (hne : ∀ a, encode a ≠ []) :
    ∀ {words others : List α}, (∀ a ∈ words, valid a) → (∀ a ∈ others, valid a) →
      words.flatMap encode = others.flatMap encode → words = others := by
  intro words
  induction words with
  | nil =>
    intro others _ _ heq
    cases others with
    | nil => rfl
    | cons other others => simp [hne other] at heq
  | cons word words ih =>
    intro others hwords hothers heq
    cases others with
    | nil => simp [hne word] at heq
    | cons other others =>
      simp only [List.forall_mem_cons] at hwords hothers
      simp only [List.flatMap_cons] at heq
      obtain ⟨rfl, hrest⟩ := h _ _ _ _ hwords.1 hothers.1 heq
      rw [ih hwords.2 hothers.2 hrest]

/-- Words that are only told apart once their outlines are known. -/
theorem flatMap_injective_of_outline {outline : α → β}
    (h : ∀ a b rest rest', outline a = outline b → encode a ++ rest = encode b ++ rest' →
      a = b ∧ rest = rest') :
    ∀ {words others : List α}, words.map outline = others.map outline →
      words.flatMap encode = others.flatMap encode → words = others := by
  intro words
  induction words with
  | nil =>
    intro others houtline _
    cases others with
    | nil => rfl
    | cons other others => cases houtline
  | cons word words ih =>
    intro others houtline heq
    cases others with
    | nil => cases houtline
    | cons other others =>
      obtain ⟨hfirst, hrest⟩ := List.cons.inj houtline
      simp only [List.flatMap_cons] at heq
      obtain ⟨hword, hlater⟩ := h _ _ _ _ hfirst heq
      rw [hword, ih hrest hlater]

theorem PrefixFree.pair (h : PrefixFree valid encode) {validNext : β → Prop}
    {encodeNext : β → List γ} (hnext : PrefixFree validNext encodeNext) :
    PrefixFree (fun word : α × β => valid word.1 ∧ validNext word.2)
      fun word => encode word.1 ++ encodeNext word.2 := by
  intro word other rest rest' hword hother heq
  simp only [List.append_assoc] at heq
  obtain ⟨hfirst, heq⟩ := h _ _ _ _ hword.1 hother.1 heq
  obtain ⟨hsecond, hrest⟩ := hnext _ _ _ _ hword.2 hother.2 heq
  exact ⟨Prod.ext hfirst hsecond, hrest⟩

/-- Bytes behind their number. -/
def sized (width : Nat) (bytes : List UInt8) : List UInt8 :=
  LittleEndian.encode width bytes.length ++ bytes

theorem sized_ne_nil {width : Nat} (hwidth : width ≠ 0) (bytes : List UInt8) :
    sized width bytes ≠ [] := by
  have hlength := LittleEndian.length_encode width bytes.length
  intro h
  rw [(List.append_eq_nil_iff.mp h).1] at hlength
  exact hwidth hlength.symm

theorem prefixFree_sized (width : Nat) :
    PrefixFree (fun bytes : List UInt8 => bytes.length < 256 ^ width) (sized width) := by
  intro bytes other rest rest' hbytes hother heq
  simp only [sized, List.append_assoc] at heq
  obtain ⟨hsize, hbody⟩ := List.append_inj heq (by simp)
  have hlength := congrArg LittleEndian.decode hsize
  rw [LittleEndian.decode_encode, LittleEndian.decode_encode, Nat.mod_eq_of_lt hbytes,
    Nat.mod_eq_of_lt hother] at hlength
  exact List.append_inj hbody hlength

end HologramLive.Lib.Framing
