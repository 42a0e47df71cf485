import Mathlib

/-! Address blocks of a fixed width: a block is the set of addresses that agree
with its network address on the first `prefixlen` bits. -/

namespace Cidr

variable {w : Nat}

/-- The mask whose first `p` bits are set. -/
def mask (w p : Nat) : BitVec w := BitVec.allOnes w ^^^ (BitVec.allOnes w >>> p)

theorem getLsbD_mask {p i : Nat} : (mask w p).getLsbD i = decide (i < w ∧ w ≤ i + p) := by
  simp only [mask, BitVec.getLsbD_xor, BitVec.getLsbD_allOnes, BitVec.getLsbD_ushiftRight]
  grind

/-- A longer mask refines a shorter one. -/
theorem mask_and_mask {p q : Nat} (h : p ≤ q) : mask w p &&& mask w q = mask w p := by
  apply BitVec.eq_of_getLsbD_eq
  intro i hi
  rw [BitVec.getLsbD_and, getLsbD_mask, getLsbD_mask, ← Bool.decide_and]
  congr 1
  simp only [eq_iff_iff, and_iff_left_iff_imp]
  omega

/-- A network: its address has no bit beyond the prefix. -/
structure Network (w : Nat) where
  address : BitVec w
  prefixlen : Nat
  le : prefixlen ≤ w
  masked : address &&& mask w prefixlen = address
  deriving DecidableEq

/-- An address on a network. -/
structure Interface (w : Nat) where
  ip : BitVec w
  prefixlen : Nat
  le : prefixlen ≤ w
  deriving DecidableEq

theorem length_24 : 24 ≤ 32 := by decide

/-- The address alone. -/
def Interface.host (ip : BitVec w) : Interface w := ⟨ip, w, Nat.le_refl w⟩

theorem and_mask_masked (a : BitVec w) (p : Nat) :
    a &&& mask w p &&& mask w p = a &&& mask w p := by
  rw [BitVec.and_assoc, BitVec.and_self]

def Interface.network (i : Interface w) : Network w :=
  ⟨i.ip &&& mask w i.prefixlen, i.prefixlen, i.le, and_mask_masked _ _⟩

namespace Network

variable (n m : Network w)

def netmask : BitVec w := mask w n.prefixlen
def broadcast : BitVec w := n.address ||| ~~~ n.netmask

/-- `a in network`. -/
def contains (a : BitVec w) : Bool := a &&& n.netmask == n.address

def overlaps : Bool :=
  m.contains n.address || m.contains n.broadcast || n.contains m.address || n.contains m.broadcast

theorem contains_iff {a : BitVec w} : n.contains a = true ↔ a &&& n.netmask = n.address := by
  simp [contains]

theorem contains_address : n.contains n.address = true := n.contains_iff.mpr n.masked

theorem contains_broadcast : n.contains n.broadcast = true := by
  rw [contains_iff, broadcast]
  have hm := n.masked
  apply BitVec.eq_of_getLsbD_eq
  intro i hi
  have hi' := congrArg (fun a => a.getLsbD i) hm
  simp only [BitVec.getLsbD_and] at hi'
  simp only [BitVec.getLsbD_and, BitVec.getLsbD_or, BitVec.getLsbD_not, hi, decide_true,
    Bool.true_and]
  cases h : n.netmask.getLsbD i with
  | false =>
    rw [netmask] at h
    rw [h, Bool.and_false] at hi'
    simp [← hi']
  | true => simp

variable {n m}

/-- Of two blocks with a common address, the larger holds the smaller's network address. -/
theorem contains_address_of_common {a : BitVec w} (hn : n.contains a) (hm : m.contains a)
    (hle : n.prefixlen ≤ m.prefixlen) : n.contains m.address := by
  rw [contains_iff] at hn hm ⊢
  calc m.address &&& n.netmask = a &&& m.netmask &&& n.netmask := by rw [hm]
    _ = a &&& (n.netmask &&& m.netmask) := by rw [BitVec.and_assoc, BitVec.and_comm m.netmask]
    _ = a &&& n.netmask := by rw [netmask, netmask, mask_and_mask hle]
    _ = n.address := hn

/-- `overlaps` says that the two blocks share an address. -/
theorem overlaps_iff_common :
    n.overlaps m = true ↔ ∃ a, n.contains a = true ∧ m.contains a = true := by
  constructor
  · intro h
    simp only [overlaps, Bool.or_eq_true] at h
    rcases h with ((h | h) | h) | h
    · exact ⟨_, n.contains_address, h⟩
    · exact ⟨_, n.contains_broadcast, h⟩
    · exact ⟨_, h, m.contains_address⟩
    · exact ⟨_, h, m.contains_broadcast⟩
  · rintro ⟨a, hn, hm⟩
    simp only [overlaps, Bool.or_eq_true]
    rcases Nat.le_total n.prefixlen m.prefixlen with hle | hle
    · exact .inl (.inr (contains_address_of_common hn hm hle))
    · exact .inl (.inl (.inl (contains_address_of_common hm hn hle)))

end Network

theorem mask_full (a : BitVec w) : a &&& mask w w = a := by
  apply BitVec.eq_of_getLsbD_eq
  intro i hi
  simp [getLsbD_mask, hi]

theorem Interface.host_contains {ip a : BitVec w} :
    (Interface.host ip).network.contains a = true ↔ a = ip := by
  rw [Network.contains_iff]
  simp only [Network.netmask, Interface.network, Interface.host, mask_full]

/-! ## Blocks as ranges -/

theorem and_mask_eq_shift (a : BitVec w) {p : Nat} (hp : p ≤ w) : a &&& mask w p = a >>> (w - p) <<< (w - p) := by
  apply BitVec.eq_of_getLsbD_eq
  intro i hi
  rw [BitVec.getLsbD_and, getLsbD_mask, BitVec.getLsbD_shiftLeft, BitVec.getLsbD_ushiftRight]
  by_cases h : w ≤ i + p
  · have hsum : w - p + (i - (w - p)) = i := by omega
    simp [hi, h, hsum, show ¬ i < w - p by omega]
  · simp [h, show i < w - p by omega]

theorem toNat_and_mask (a : BitVec w) {p : Nat} (hp : p ≤ w) :
    (a &&& mask w p).toNat = a.toNat / 2 ^ (w - p) * 2 ^ (w - p) := by
  rw [and_mask_eq_shift a hp, BitVec.toNat_shiftLeft, BitVec.toNat_ushiftRight, Nat.shiftLeft_eq,
    Nat.shiftRight_eq_div_pow]
  exact Nat.mod_eq_of_lt (lt_of_le_of_lt (Nat.div_mul_le_self _ _) a.isLt)

theorem toNat_not_mask {p : Nat} (hp : p ≤ w) : (~~~ mask w p).toNat = 2 ^ (w - p) - 1 := by
  have hnot : ~~~ mask w p = BitVec.allOnes w >>> p := by
    apply BitVec.eq_of_getLsbD_eq
    intro i hi
    rw [BitVec.getLsbD_not, getLsbD_mask, BitVec.getLsbD_ushiftRight, BitVec.getLsbD_allOnes]
    simp only [hi, true_and, decide_true, Bool.true_and]
    grind
  have hdiv : 2 ^ w = 2 ^ p * 2 ^ (w - p) := by rw [← pow_add, Nat.add_sub_cancel' hp]
  have hpos := Nat.two_pow_pos p
  have hpos' := Nat.two_pow_pos (w - p)
  rw [hnot, BitVec.toNat_ushiftRight, BitVec.toNat_allOnes, Nat.shiftRight_eq_div_pow, hdiv]
  apply Nat.div_eq_of_lt_le
  · rw [Nat.sub_mul, one_mul, Nat.mul_comm]
    omega
  · rw [Nat.add_mul, Nat.sub_mul, one_mul, Nat.mul_comm (2 ^ p)]
    have := Nat.le_mul_of_pos_left (2 ^ p) hpos'
    omega

namespace Network

variable (n : Network w)

/-- The number of host bits. -/
def hostBits : Nat := w - n.prefixlen

theorem dvd_address : 2 ^ n.hostBits ∣ n.address.toNat := by
  have h := congrArg BitVec.toNat n.masked
  rw [toNat_and_mask _ n.le] at h
  exact ⟨_, by rw [← h, Nat.mul_comm, hostBits]⟩

theorem address_add_lt : n.address.toNat + (2 ^ n.hostBits - 1) < 2 ^ w := by
  obtain ⟨q, hq⟩ := n.dvd_address
  have hlt := n.address.isLt
  have hw : 2 ^ w = 2 ^ n.hostBits * 2 ^ n.prefixlen := by
    rw [← pow_add, hostBits, Nat.sub_add_cancel n.le]
  have hpos := Nat.two_pow_pos n.hostBits
  rw [hq, hw] at hlt ⊢
  have hq' : q < 2 ^ n.prefixlen := Nat.lt_of_mul_lt_mul_left hlt
  have := Nat.mul_le_mul_left (2 ^ n.hostBits) (Nat.succ_le_of_lt hq')
  rw [Nat.mul_succ] at this
  omega

theorem toNat_broadcast : n.broadcast.toNat = n.address.toNat + (2 ^ n.hostBits - 1) := by
  have hdisjoint : n.address &&& ~~~ n.netmask = 0#w := by
    conv_lhs => rw [← n.masked]
    rw [netmask, BitVec.and_assoc]
    apply BitVec.eq_of_getLsbD_eq
    intro i hi
    simp
  rw [broadcast, ← BitVec.add_eq_or_of_and_eq_zero _ _ hdisjoint, BitVec.toNat_add, netmask, toNat_not_mask n.le]
  exact Nat.mod_eq_of_lt n.address_add_lt

/-- A network is the range from its address to its broadcast address. -/
theorem contains_iff_range {a : BitVec w} :
    n.contains a = true ↔ n.address.toNat ≤ a.toNat ∧ a.toNat ≤ n.broadcast.toNat := by
  obtain ⟨q, hq⟩ := n.dvd_address
  have hpos := Nat.two_pow_pos n.hostBits
  rw [contains_iff, ← BitVec.toNat_inj, netmask, toNat_and_mask a n.le, toNat_broadcast, hq]
  change a.toNat / 2 ^ n.hostBits * 2 ^ n.hostBits = _ ↔ _
  rw [Nat.mul_comm, Nat.mul_left_cancel_iff hpos, Nat.div_eq_iff hpos, Nat.mul_comm q]
  omega

end Network

end Cidr
