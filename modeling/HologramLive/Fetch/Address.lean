import Mathlib.Data.Nat.Bitwise
import Mathlib.Tactic.Tauto

/-! The addresses that a mediated fetch may connect to. -/

namespace HologramLive.Fetch

structure Ipv4Addr where
  (a b c d : UInt8)
  deriving DecidableEq

structure Ipv6Addr where
  (s0 s1 s2 s3 s4 s5 s6 s7 : UInt16)
  deriving DecidableEq

inductive IpAddr where
  | v4 (address : Ipv4Addr)
  | v6 (address : Ipv6Addr)
  deriving DecidableEq

/-- `Ipv6Addr::to_ipv4_mapped`. -/
def Ipv6Addr.toIpv4Mapped (address : Ipv6Addr) : Option Ipv4Addr :=
  if address.s0 = 0 ∧ address.s1 = 0 ∧ address.s2 = 0 ∧ address.s3 = 0 ∧ address.s4 = 0 ∧
      address.s5 = 0xffff then
    some ⟨(address.s6 >>> 8).toUInt8, address.s6.toUInt8, (address.s7 >>> 8).toUInt8,
      address.s7.toUInt8⟩
  else none

namespace Ipv6Addr

def isUnspecified (address : Ipv6Addr) : Bool := address = ⟨0, 0, 0, 0, 0, 0, 0, 0⟩

def isLoopback (address : Ipv6Addr) : Bool := address = ⟨0, 0, 0, 0, 0, 0, 0, 1⟩

def isMulticast (address : Ipv6Addr) : Bool := address.s0 &&& 0xff00 = 0xff00

end Ipv6Addr

def isPublicV4 (address : Ipv4Addr) : Bool :=
  !(address.a = 0
    || address.a = 10
    || address.a = 127
    || (address.a = 100 && 64 ≤ address.b && address.b ≤ 127)
    || (address.a = 169 && address.b = 254)
    || (address.a = 172 && 16 ≤ address.b && address.b ≤ 31)
    || (address.a = 192 && address.b = 0 && address.c = 0)
    || (address.a = 192 && address.b = 0 && address.c = 2)
    || (address.a = 192 && address.b = 88 && address.c = 99)
    || (address.a = 192 && address.b = 168)
    || (address.a = 198 && (address.b = 18 || address.b = 19))
    || (address.a = 198 && address.b = 51 && address.c = 100)
    || (address.a = 203 && address.b = 0 && address.c = 113)
    || 224 ≤ address.a)

def isPublicV6 (address : Ipv6Addr) : Bool :=
  match address.toIpv4Mapped with
  | some mapped => isPublicV4 mapped
  | none =>
    !(address.s0 &&& 0xe000 ≠ 0x2000
      || address.isUnspecified
      || address.isLoopback
      || address.isMulticast
      || address.s0 &&& 0xfe00 = 0xfc00
      || address.s0 &&& 0xffc0 = 0xfe80
      || (address.s0 = 0x2001 && address.s1 ≤ 0x01ff)
      || (address.s0 = 0x2001 && address.s1 = 0x0db8)
      || address.s0 = 0x2002)

def isPublicDestination : IpAddr → Bool
  | .v4 address => isPublicV4 address
  | .v6 address => isPublicV6 address

/-! ### The blocks that are set aside -/

/-- The addresses whose first `length` bits are those of `base`. -/
structure Block where
  base : Nat
  length : Nat

def Block.Holds (block : Block) (width address : Nat) : Prop :=
  address / 2 ^ (width - block.length) = block.base / 2 ^ (width - block.length)

instance (block : Block) (width address : Nat) : Decidable (block.Holds width address) :=
  inferInstanceAs (Decidable (_ = _))

def Ipv4Addr.value (address : Ipv4Addr) : Nat :=
  ((address.a.toNat * 2 ^ 8 + address.b.toNat) * 2 ^ 8 + address.c.toNat) * 2 ^ 8 + address.d.toNat

/-- The bits of an address above and below the first two segments' end. -/
def Ipv6Addr.top (address : Ipv6Addr) : Nat := address.s0.toNat * 2 ^ 16 + address.s1.toNat

def Ipv6Addr.low (address : Ipv6Addr) : Nat :=
  ((((address.s2.toNat * 2 ^ 16 + address.s3.toNat) * 2 ^ 16 + address.s4.toNat) * 2 ^ 16 +
    address.s5.toNat) * 2 ^ 16 + address.s6.toNat) * 2 ^ 16 + address.s7.toNat

def Ipv6Addr.value (address : Ipv6Addr) : Nat := address.top * 2 ^ 96 + address.low

def block4 (a b c d length : Nat) : Block := ⟨((a * 2 ^ 8 + b) * 2 ^ 8 + c) * 2 ^ 8 + d, length⟩

def specialV4 : List Block :=
  [ block4 0 0 0 0 8 -- this network, with the unspecified address
  , block4 10 0 0 0 8 -- private
  , block4 127 0 0 0 8 -- loopback
  , block4 100 64 0 0 10 -- shared
  , block4 169 254 0 0 16 -- link-local
  , block4 172 16 0 0 12 -- private
  , block4 192 0 0 0 24 -- protocol assignments
  , block4 192 0 2 0 24 -- documentation
  , block4 192 88 99 0 24 -- 6to4 relays
  , block4 192 168 0 0 16 -- private
  , block4 198 18 0 0 15 -- benchmarking
  , block4 198 51 100 0 24 -- documentation
  , block4 203 0 113 0 24 -- documentation
  , block4 224 0 0 0 4 -- multicast
  , block4 240 0 0 0 4 ] -- reserved

def block6 (s0 s1 s2 length : Nat) : Block :=
  ⟨((s0 * 2 ^ 16 + s1) * 2 ^ 16 + s2) * 2 ^ 80, length⟩

/-- What lies outside of it is reserved, or of one of the kinds below. -/
def globalUnicast : Block := block6 0x2000 0 0 3

def newDocumentation : Block := block6 0x3fff 0 0 20

def specialV6 : List Block :=
  [ block6 0 0 0 128 -- unspecified
  , ⟨1, 128⟩ -- loopback
  , block6 0xfc00 0 0 7 -- unique-local
  , block6 0xfe80 0 0 10 -- link-local
  , block6 0xff00 0 0 8 -- multicast
  , block6 0x2001 0 0 23 -- protocol assignments
  , block6 0x2001 2 0 48 -- benchmarking
  , block6 0x2001 0 0 32 -- Teredo
  , block6 0x2002 0 0 16 -- 6to4
  , block6 0x2001 0xdb8 0 32, newDocumentation ] -- documentation

def SpecialV4 (address : Ipv4Addr) : Prop := ∃ block ∈ specialV4, block.Holds 32 address.value

/-- An address that carries one of the older kind is as special as that one. -/
def SpecialV6 (address : Ipv6Addr) : Prop :=
  match address.toIpv4Mapped with
  | some mapped => SpecialV4 mapped
  | none => ¬ globalUnicast.Holds 128 address.value ∨
      ∃ block ∈ specialV6, block.Holds 128 address.value

/-- An address that no fetch is to reach. -/
def Special : IpAddr → Prop
  | .v4 address => SpecialV4 address
  | .v6 address => SpecialV6 address

/-- The block of documentation addresses that was set aside last, 3fff::/20. -/
def InNewDocumentation : IpAddr → Prop
  | .v4 _ => False
  | .v6 address => newDocumentation.Holds 128 address.value

/-! ### The code's tests against the blocks -/

section
variable (x : Ipv4Addr)

theorem block4_holds8 (a : Nat) : (block4 a 0 0 0 8).Holds 32 x.value ↔ x.a.toNat = a := by
  have := x.b.toNat_lt
  have := x.c.toNat_lt
  have := x.d.toNat_lt
  simp only [Block.Holds, block4, Ipv4Addr.value]
  omega

theorem block4_holds16 (a : Nat) {b : Nat} (hb : b < 256) :
    (block4 a b 0 0 16).Holds 32 x.value ↔ x.a.toNat = a ∧ x.b.toNat = b := by
  have := x.b.toNat_lt
  have := x.c.toNat_lt
  have := x.d.toNat_lt
  simp only [Block.Holds, block4, Ipv4Addr.value]
  omega

theorem block4_holds24 (a : Nat) {b c : Nat} (hb : b < 256) (hc : c < 256) :
    (block4 a b c 0 24).Holds 32 x.value ↔
      x.a.toNat = a ∧ x.b.toNat = b ∧ x.c.toNat = c := by
  have := x.b.toNat_lt
  have := x.c.toNat_lt
  have := x.d.toNat_lt
  simp only [Block.Holds, block4, Ipv4Addr.value]
  omega

/-- A block of 9 to 16 bits is a range of second bytes. -/
theorem block4_holds_within (a : Nat) {b length : Nat} (hb : b < 256) (hlow : 8 < length)
    (hhigh : length ≤ 16) :
    (block4 a b 0 0 length).Holds 32 x.value ↔
      x.a.toNat = a ∧ x.b.toNat / 2 ^ (16 - length) = b / 2 ^ (16 - length) := by
  have := x.b.toNat_lt
  have := x.c.toNat_lt
  have := x.d.toNat_lt
  simp only [Block.Holds, block4, Ipv4Addr.value]
  rcases (by omega : length = 9 ∨ length = 10 ∨ length = 11 ∨ length = 12 ∨ length = 13 ∨
    length = 14 ∨ length = 15 ∨ length = 16) with h | h | h | h | h | h | h | h <;> subst h <;>
    omega

theorem block4_holds4 {a : Nat} :
    (block4 a 0 0 0 4).Holds 32 x.value ↔ x.a.toNat / 16 = a / 16 := by
  have := x.b.toNat_lt
  have := x.c.toNat_lt
  have := x.d.toNat_lt
  simp only [Block.Holds, block4, Ipv4Addr.value]
  omega

end

theorem isPublicV4_iff (address : Ipv4Addr) : isPublicV4 address ↔ ¬ SpecialV4 address := by
  have shared : address.b.toNat / 2 ^ (16 - 10) = 64 / 2 ^ (16 - 10) ↔
      64 ≤ address.b.toNat ∧ address.b.toNat ≤ 127 := by omega
  have inner : address.b.toNat / 2 ^ (16 - 12) = 16 / 2 ^ (16 - 12) ↔
      16 ≤ address.b.toNat ∧ address.b.toNat ≤ 31 := by omega
  have benchmark : address.b.toNat / 2 ^ (16 - 15) = 18 / 2 ^ (16 - 15) ↔
      address.b.toNat = 18 ∨ address.b.toNat = 19 := by omega
  have upper : address.a.toNat / 16 = 224 / 16 ∨ address.a.toNat / 16 = 240 / 16 ↔
      224 ≤ address.a.toNat := by
    have := address.a.toNat_lt
    omega
  rw [isPublicV4, Bool.not_eq_true', ← Bool.not_eq_true]
  simp only [SpecialV4, specialV4, List.mem_cons, List.not_mem_nil, or_false, exists_eq_or_imp,
    exists_eq_left, block4_holds8, block4_holds4,
    block4_holds16 _ _ (by decide : (168 : Nat) < 256),
    block4_holds16 _ _ (by decide : (254 : Nat) < 256),
    block4_holds24 _ _ (by decide : (0 : Nat) < 256) (by decide : (0 : Nat) < 256),
    block4_holds24 _ _ (by decide : (0 : Nat) < 256) (by decide : (2 : Nat) < 256),
    block4_holds24 _ _ (by decide : (51 : Nat) < 256) (by decide : (100 : Nat) < 256),
    block4_holds24 _ _ (by decide : (0 : Nat) < 256) (by decide : (113 : Nat) < 256),
    block4_holds24 _ _ (by decide : (88 : Nat) < 256) (by decide : (99 : Nat) < 256),
    block4_holds_within _ _ (by decide : (16 : Nat) < 256) (by decide : 8 < 12) (by decide),
    block4_holds_within _ _ (by decide : (64 : Nat) < 256) (by decide : 8 < 10) (by decide),
    block4_holds_within _ _ (by decide : (18 : Nat) < 256) (by decide : 8 < 15) (by decide),
    shared, inner, benchmark, upper]
  simp only [Bool.or_eq_true, Bool.and_eq_true, decide_eq_true_eq, ← UInt8.toNat_inj,
    UInt8.le_iff_toNat_le, or_assoc, and_assoc]
  rfl

/-! The first 32 bits decide of every block that is not longer. -/

theorem Ipv6Addr.value_div (address : Ipv6Addr) : address.value / 2 ^ 96 = address.top := by
  have := address.s2.toNat_lt
  have := address.s3.toNat_lt
  have := address.s4.toNat_lt
  have := address.s5.toNat_lt
  have := address.s6.toNat_lt
  have := address.s7.toNat_lt
  have hlow : address.low < 2 ^ 96 := by
    simp only [Ipv6Addr.low]
    omega
  rw [Ipv6Addr.value, Nat.mul_comm, Nat.mul_add_div (by decide), Nat.div_eq_of_lt hlow,
    Nat.add_zero]

theorem Block.holds_top {block : Block} (length : Nat) (address : Ipv6Addr)
    (hlen : block.length = length) (hle : length ≤ 32) :
    block.Holds 128 address.value ↔
      address.top / 2 ^ (32 - length) = block.base / 2 ^ 96 / 2 ^ (32 - length) := by
  have split : (2 : Nat) ^ (128 - length) = 2 ^ 96 * 2 ^ (32 - length) := by
    rw [← Nat.pow_add]
    congr 1
    omega
  rw [Block.Holds, hlen, split, ← Nat.div_div_eq_div_mul, ← Nat.div_div_eq_div_mul,
    Ipv6Addr.value_div]

theorem Block.top_eq {block : Block} {address : Ipv6Addr} (hlen : 32 ≤ block.length)
    (h : block.Holds 128 address.value) : address.top = block.base / 2 ^ 96 := by
  have split : (2 : Nat) ^ 96 = 2 ^ (128 - block.length) * 2 ^ (96 - (128 - block.length)) := by
    rw [← Nat.pow_add]
    congr 1
    omega
  rw [← Ipv6Addr.value_div, split, ← Nat.div_div_eq_div_mul, ← Nat.div_div_eq_div_mul, h]

/-- A mask of the topmost bits reads a quotient. -/
theorem and_mask {x : Nat} (n k : Nat) (h : x < 2 ^ (n + k)) :
    x &&& ((2 ^ n - 1) * 2 ^ k) = x / 2 ^ k * 2 ^ k := by
  rw [← Nat.shiftLeft_eq, ← Nat.shiftRight_eq_div_pow, ← Nat.shiftLeft_eq]
  refine Nat.eq_of_testBit_eq fun i => ?_
  rw [Nat.testBit_and, Nat.testBit_shiftLeft, Nat.testBit_shiftLeft, Nat.testBit_shiftRight,
    Nat.testBit_two_pow_sub_one]
  by_cases hk : k ≤ i
  · rw [Nat.add_sub_cancel' hk]
    by_cases hn : i - k < n
    · simp [hk, hn]
    · have hlt : x < 2 ^ i := lt_of_lt_of_le h (Nat.pow_le_pow_right (by decide) (by omega))
      simp [Nat.testBit_lt_two_pow hlt]
  · simp [hk]

theorem global_mask (s : UInt16) : s &&& 0xe000 = 0x2000 ↔ s.toNat / 2 ^ 13 = 1 := by
  have hmask := and_mask 3 13 s.toNat_lt
  rw [← UInt16.toNat_inj, UInt16.toNat_and]
  change s.toNat &&& ((2 ^ 3 - 1) * 2 ^ 13) = 2 ^ 13 ↔ _
  rw [hmask]
  omega

/-- A further test by mask fails within the unicast addresses when the masks' common bits do. -/
theorem mask_ne {s mask value : UInt16} (hs : s &&& 0xe000 = 0x2000)
    (hmask : mask &&& 0xe000 = 0xe000) (hvalue : value &&& 0xe000 ≠ 0x2000) :
    s &&& mask ≠ value := by
  rintro rfl
  rw [UInt16.and_assoc, hmask] at hvalue
  exact hvalue hs

/-- What the code asks of an address that carries no older one. -/
theorem isPublicV6_iff {address : Ipv6Addr} (h : address.toIpv4Mapped = none) :
    isPublicV6 address ↔ address.s0.toNat / 2 ^ 13 = 1 ∧
      ¬ (address.s0 = 0x2001 ∧ address.s1 ≤ 0x01ff) ∧
      ¬ (address.s0 = 0x2001 ∧ address.s1 = 0x0db8) ∧ address.s0 ≠ 0x2002 := by
  rw [isPublicV6, h, Bool.not_eq_true', ← Bool.not_eq_true, ← global_mask]
  simp only [Bool.or_eq_true, Bool.and_eq_true, decide_eq_true_eq, not_or, Decidable.not_not]
  constructor
  · rintro ⟨⟨⟨⟨⟨⟨⟨⟨hglobal, -⟩, -⟩, -⟩, -⟩, -⟩, hassigned⟩, hdocument⟩, htunnel⟩
    exact ⟨hglobal, hassigned, hdocument, htunnel⟩
  · rintro ⟨hglobal, hassigned, hdocument, htunnel⟩
    have hzero : address.s0 ≠ 0 := by
      intro hzero
      rw [hzero] at hglobal
      exact absurd hglobal (by decide)
    refine ⟨⟨⟨⟨⟨⟨⟨⟨hglobal, ?_⟩, ?_⟩, ?_⟩, ?_⟩, ?_⟩, hassigned⟩, hdocument⟩, htunnel⟩
    · intro hun
      exact hzero (congrArg Ipv6Addr.s0 (of_decide_eq_true hun))
    · intro hloop
      exact hzero (congrArg Ipv6Addr.s0 (of_decide_eq_true hloop))
    · intro hmulti
      exact mask_ne hglobal (by decide) (by decide) (of_decide_eq_true hmulti)
    · exact mask_ne hglobal (by decide) (by decide)
    · exact mask_ne hglobal (by decide) (by decide)

/-- The blocks add what the code asks and the documentation block that was set aside last. -/
theorem specialV6_iff {address : Ipv6Addr} (h : address.toIpv4Mapped = none) :
    ¬ SpecialV6 address ↔ (address.s0.toNat / 2 ^ 13 = 1 ∧
      ¬ (address.s0 = 0x2001 ∧ address.s1 ≤ 0x01ff) ∧
      ¬ (address.s0 = 0x2001 ∧ address.s1 = 0x0db8) ∧ address.s0 ≠ 0x2002) ∧
      ¬ newDocumentation.Holds 128 address.value := by
  have h1 := address.s1.toNat_lt
  have hglobal : globalUnicast.Holds 128 address.value ↔ address.s0.toNat / 2 ^ 13 = 1 := by
    rw [Block.holds_top 3 address rfl (by decide)]
    simp only [globalUnicast, block6, Ipv6Addr.top]
    omega
  have hassigned : (block6 0x2001 0 0 23).Holds 128 address.value ↔
      address.s0.toNat = 0x2001 ∧ address.s1.toNat ≤ 0x01ff := by
    rw [Block.holds_top 23 address rfl (by decide)]
    simp only [block6, Ipv6Addr.top]
    omega
  have hdocument : (block6 0x2001 0xdb8 0 32).Holds 128 address.value ↔
      address.s0.toNat = 0x2001 ∧ address.s1.toNat = 0x0db8 := by
    rw [Block.holds_top 32 address rfl (by decide)]
    simp only [block6, Ipv6Addr.top]
    omega
  have htunnel : (block6 0x2002 0 0 16).Holds 128 address.value ↔
      address.s0.toNat = 0x2002 := by
    rw [Block.holds_top 16 address rfl (by decide)]
    simp only [block6, Ipv6Addr.top]
    omega
  simp only [SpecialV6, h, not_or, Decidable.not_not, not_exists, not_and, hglobal,
    ← UInt16.toNat_inj, UInt16.le_iff_toNat_le, Ne]
  constructor
  · rintro ⟨hunicast, hblocks⟩
    refine ⟨⟨hunicast, fun hs0 hs1 => ?_, fun hs0 hs1 => ?_, fun hs0 => ?_⟩, ?_⟩
    · exact hblocks _ (by simp [specialV6]) (hassigned.2 ⟨hs0, hs1⟩)
    · exact hblocks _ (by simp [specialV6]) (hdocument.2 ⟨hs0, hs1⟩)
    · exact hblocks _ (by simp [specialV6]) (htunnel.2 hs0)
    · exact hblocks _ (by simp [specialV6])
  · rintro ⟨⟨hunicast, hassign, hdoc, htun⟩, hnew⟩
    refine ⟨hunicast, ?_⟩
    have hblocks : ∀ block ∈ specialV6, ¬ block.Holds 128 address.value := by
      simp only [specialV6, List.forall_mem_cons, List.not_mem_nil, false_implies, implies_true,
        and_true]
      refine ⟨?unspecified, ?loopback, ?unique, ?link, ?multicast, ?assigned, ?benchmark,
        ?teredo, ?tunnel, ?document, hnew⟩
      case unspecified =>
        intro hholds
        have := Block.top_eq (by decide) hholds
        simp only [block6, Ipv6Addr.top] at this
        omega
      case loopback =>
        intro hholds
        have := Block.top_eq (by decide) hholds
        simp only [Ipv6Addr.top] at this
        omega
      case unique =>
        rw [Block.holds_top 7 address rfl (by decide)]
        simp only [block6, Ipv6Addr.top]
        omega
      case link =>
        rw [Block.holds_top 10 address rfl (by decide)]
        simp only [block6, Ipv6Addr.top]
        omega
      case multicast =>
        rw [Block.holds_top 8 address rfl (by decide)]
        simp only [block6, Ipv6Addr.top]
        omega
      case assigned =>
        rw [hassigned]
        rintro ⟨hs0, hs1⟩
        exact hassign hs0 hs1
      case benchmark =>
        intro hholds
        have := Block.top_eq (by decide) hholds
        simp only [block6, Ipv6Addr.top] at this
        exact hassign (by change _ = 0x2001; omega) (by change _ ≤ 0x01ff; omega)
      case teredo =>
        intro hholds
        have := Block.top_eq (by decide) hholds
        simp only [block6, Ipv6Addr.top] at this
        exact hassign (by change _ = 0x2001; omega) (by change _ ≤ 0x01ff; omega)
      case tunnel =>
        rw [htunnel]
        exact htun
      case document =>
        rw [hdocument]
        rintro ⟨hs0, hs1⟩
        exact hdoc hs0 hs1
    exact hblocks

theorem mapped_old {address : Ipv6Addr} {mapped : Ipv4Addr}
    (h : address.toIpv4Mapped = some mapped) : ¬ newDocumentation.Holds 128 address.value := by
  intro hholds
  have hzero : address.s0 = 0 := by
    rw [Ipv6Addr.toIpv4Mapped] at h
    split at h
    · rename_i hsegments
      exact hsegments.1
    · cases h
  rw [Block.holds_top 20 address rfl (by decide), Ipv6Addr.top, hzero] at hholds
  have := address.s1.toNat_lt
  simp only [newDocumentation, block6] at hholds
  change (0 * 2 ^ 16 + address.s1.toNat) / _ = _ at hholds
  omega

/-- What the check lets through is special exactly when it is of the block that the list lacks. -/
theorem special_iff_new {address : IpAddr} (h : isPublicDestination address) :
    Special address ↔ InNewDocumentation address := by
  cases address with
  | v4 address =>
    exact iff_of_false ((isPublicV4_iff address).1 h) id
  | v6 address =>
    cases hmapped : address.toIpv4Mapped with
    | some mapped =>
      refine iff_of_false ?_ (mapped_old hmapped)
      simp only [Special, SpecialV6, hmapped]
      rw [isPublicDestination, isPublicV6, hmapped] at h
      exact (isPublicV4_iff mapped).1 h
    | none =>
      have hasked := (isPublicV6_iff hmapped).1 h
      have hblocks := specialV6_iff hmapped
      constructor
      · intro hspecial
        by_contra hold
        exact hblocks.2 ⟨hasked, hold⟩ hspecial
      · intro hnew
        by_contra hspecial
        exact (hblocks.1 hspecial).2 hnew

end HologramLive.Fetch
