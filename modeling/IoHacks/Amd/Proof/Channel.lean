import IoHacks.Amd.Proof.Arith

/-!
# The channel interleave of one node

For an address whose high range is not selected on a node with channel interleaving, the channel
and the channel address are `interleaved`: from the offset `x` into the node's memory, the node's
bits are squeezed out, the channel is one bit of the rest (permuted by a hash of the bits 16 to
20), and the channel address is the rest without that bit (`located_interleaved`). The hash is a
function of the node's bits and the channel address, so this is `channelOf` of the node's bits and
the rest (`interleaved_eq`), which loses nothing (`bijOn_channelOf`).
-/

namespace Amd

open Lib Set

/-! ## The mode -/

/-- The hash of the channel interleave mode. -/
def chanHash (intLvAddr : BitVec 32) (n : Nat) : Nat :=
  if (intLvAddr >>> 1) &&& 1#32 ≠ 0#32 then hash n else 0

/-- The address bit that selects the channel, with `k` node bits at bit 12. -/
def selBit (intLvAddr : BitVec 32) (k : Nat) : Nat :=
  if intLvAddr = 1#32 then 12 + k else chanBit intLvAddr

theorem dctSelIntLvAddr_cases (temp : BitVec 32) (offset : BitVec 64) :
    (dctSel temp offset).dctSelIntLvAddr = 0#32 ∨ (dctSel temp offset).dctSelIntLvAddr = 1#32 ∨
      (dctSel temp offset).dctSelIntLvAddr = 2#32 ∨
      (dctSel temp offset).dctSelIntLvAddr = 3#32 := by
  have h : (temp >>> 6 &&& 3#32).toNat = (temp >>> 6).toNat % 2 ^ 2 / 2 ^ 0 * 2 ^ 0 :=
    toNat_and_mask _ (by omega) (by rfl)
  simp only [dctSel, ← BitVec.toNat_inj, h, BitVec.toNat_ofNat]
  omega

theorem chanHash_lt (m : BitVec 32) (n : Nat) : chanHash m n < 2 := by
  unfold chanHash hash
  split
  · exact fUnaryXOR_lt _
  · decide

theorem hash_congr {a b : Nat} (h : a % 32 = b % 32) : hash a = hash b := by
  rw [hash, hash, h]

theorem chanHash_congr {m : BitVec 32} {a b : Nat} (h : a % 32 = b % 32) :
    chanHash m a = chanHash m b := by
  rw [chanHash, chanHash, hash_congr h]

theorem intlvEn_bits {intlvEn : BitVec 32} {k : Nat} (hk : k ≤ 3)
    (h : intlvEn.toNat = 2 ^ k - 1) :
    intlvEn = 0#32 ∧ k = 0 ∨ intlvEn = 1#32 ∧ k = 1 ∨ intlvEn = 3#32 ∧ k = 2 ∨
      intlvEn = 7#32 ∧ k = 3 := by
  simp only [← BitVec.toNat_inj, BitVec.toNat_ofNat, h]
  obtain rfl | rfl | rfl | rfl : k = 0 ∨ k = 1 ∨ k = 2 ∨ k = 3 := by omega
  all_goals decide

theorem ilog_eq {intlvEn : BitVec 32} {k : Nat} (hk : k ≤ 3) (h : intlvEn.toNat = 2 ^ k - 1) :
    ilog intlvEn = k := by
  rcases intlvEn_bits hk h with ⟨rfl, rfl⟩ | ⟨rfl, rfl⟩ | ⟨rfl, rfl⟩ | ⟨rfl, rfl⟩ <;> rfl

/-- **The channel** is the selecting bit, permuted by the hash. -/
theorem channelSelect_eq {temp : BitVec 32} {offset : BitVec 64} {intlvEn : BitVec 32} {k : Nat}
    {a : BitVec 64} (hen : (dctSel temp offset).dctSelIntLvEn = true)
    (hgang : (dctSel temp offset).dctGangEn = false)
    (hhi : hiRangeSelected (dctSel temp offset) a = false) (hk : k ≤ 3)
    (hie : intlvEn.toNat = 2 ^ k - 1) :
    channelSelect (dctSel temp offset) intlvEn a =
      field (selBit (dctSel temp offset).dctSelIntLvAddr k) 1 a.toNat ^^^
        chanHash (dctSel temp offset).dctSelIntLvAddr (a.toNat / 2 ^ 16) := by
  have hm := dctSelIntLvAddr_cases temp offset
  revert hen hgang hhi hm
  generalize dctSel temp offset = d
  intro hen hgang hhi hm
  unfold channelSelect
  simp only [hen, hgang, hhi, fUnaryXOR_eq, addrBit_eq, Bool.false_eq_true, ↓reduceIte, true_and]
  rcases hm with hm | hm | hm | hm <;> rw [hm]
  · simp [selBit, chanBit, chanHash]
  · rcases intlvEn_bits hk hie with ⟨rfl, rfl⟩ | ⟨rfl, rfl⟩ | ⟨rfl, rfl⟩ | ⟨rfl, rfl⟩ <;>
      simp [selBit, chanHash]
  · simp [selBit, chanBit, chanHash]
  · simp [selBit, chanBit, chanHash]

/-! ## The interleave over the naturals -/

/-- The channel and the channel address of the offset `x` into the memory of a group of `2 ^ k`
nodes, with channel interleave mode `m`. -/
def interleaved (m : BitVec 32) (k x : Nat) : Nat × Nat :=
  (field (chanBit m) 1 (squeeze 12 k x) ^^^ chanHash m (x / 2 ^ 16),
    squeeze (chanBit m) 1 (squeeze 12 k x))

theorem chanBit_bounds (m : BitVec 32) : 6 ≤ chanBit m ∧ chanBit m ≤ 12 := by
  unfold chanBit
  split
  · decide
  · split <;> decide

/-- The selecting bit of the address is a bit of the address without the node's bits. -/
theorem field_selBit (m : BitVec 32) (k x : Nat) :
    field (selBit m k) 1 x = field (chanBit m) 1 (squeeze 12 k x) := by
  unfold selBit
  split
  · rename_i hm
    rw [hm, show chanBit 1#32 = 12 by decide, field, field, squeeze_div]
  · rename_i hm
    have hlow : ∀ c, c < 12 → field c 1 x = field c 1 (squeeze 12 k x) := by
      intro c hc
      have hmod : ∀ z, field c 1 z = field c 1 (z % 2 ^ 12) := fun z => by
        rw [field, field, show 2 ^ 12 = 2 ^ c * 2 ^ (12 - c) by rw [← Nat.pow_add]; congr 1; omega,
          Nat.mod_mul_right_div_self, Nat.mod_mod_of_dvd]
        exact Nat.pow_dvd_pow 2 (by omega)
      rw [hmod, hmod (squeeze 12 k x), squeeze_mod]
    unfold chanBit
    split
    · exact hlow 6 (by omega)
    · exact hlow 9 (by omega)

/-- Offsets that are multiples of 8 MiB do not change the low 23 bits. -/
theorem field_sub {i a off : Nat} (hi : i < 23) (hdvd : 2 ^ 23 ∣ off) (hle : off ≤ a) :
    field i 1 (a - off) = field i 1 a := by
  obtain ⟨c, rfl⟩ := hdvd
  have hp : 2 ^ 23 = 2 ^ i * (2 * 2 ^ (22 - i)) := by
    rw [← Nat.pow_succ', ← Nat.pow_add]
    congr 1
    omega
  rw [field, field, hp, Nat.mul_assoc, Nat.sub_mul_div_of_le, Nat.mul_assoc]
  · have : 2 * (2 ^ (22 - i) * c) ≤ a / 2 ^ i := by
      rw [Nat.le_div_iff_mul_le (Nat.two_pow_pos i), Nat.mul_comm, ← Nat.mul_assoc 2,
        ← Nat.mul_assoc, ← hp]
      exact hle
    omega
  · rw [← Nat.mul_assoc, ← hp]
    exact hle

/-- The channel and the channel address by the node's bits `s` and the address `y` without
them. -/
def channelOf (m : BitVec 32) (k s y : Nat) : Nat × Nat :=
  (field (chanBit m) 1 y ^^^ chanHash m ((squeeze (chanBit m) 1 y / 2 ^ 11 * 2 ^ k + s) / 2 ^ 4),
    squeeze (chanBit m) 1 y)

/-- The hashed bits are bits of the channel address and the node's bits. -/
theorem interleaved_eq {m : BitVec 32} (hm : m = 0#32 ∨ m = 1#32 ∨ m = 2#32 ∨ m = 3#32)
    (k x : Nat) : interleaved m k x = channelOf m k (field 12 k x) (squeeze 12 k x) := by
  have hz : ∀ c, c ≤ 11 → squeeze c 1 (squeeze 12 k x) / 2 ^ 11 = x / 2 ^ (12 + k) := by
    intro c hc
    have h : ∀ z, z / 2 ^ 11 = z / 2 ^ c / 2 ^ (11 - c) := fun z => by
      rw [Nat.div_div_eq_div_mul, ← Nat.pow_add]
      congr 2
      omega
    rw [h, squeeze_div, Nat.div_div_eq_div_mul, ← Nat.pow_add,
      show c + 1 + (11 - c) = 12 by omega, squeeze_div]
  have hx : x / 2 ^ (12 + k) * 2 ^ k + field 12 k x = x / 2 ^ 12 := by
    rw [field, Nat.pow_add, ← Nat.div_div_eq_div_mul, Nat.div_add_mod']
  unfold interleaved channelOf
  rcases hm with rfl | rfl | rfl | rfl
  · rfl
  · rfl
  · rw [hz _ (by decide), hx, Nat.div_div_eq_div_mul, ← Nat.pow_add]
  · rw [hz _ (by decide), hx, Nat.div_div_eq_div_mul, ← Nat.pow_add]

theorem le_selBit (m : BitVec 32) (k : Nat) : 6 ≤ selBit m k := by
  have := chanBit_bounds m
  unfold selBit
  split <;> omega

theorem selBit_lt (m : BitVec 32) {k : Nat} (hk : k ≤ 3) : selBit m k < 23 := by
  have := chanBit_bounds m
  unfold selBit
  split <;> omega

/-- The address of the 64-byte line of `a`. -/
def lineOf (a : BitVec 64) : Nat := a.toNat / 64 * 64

theorem lineOf_eq {a : BitVec 64} (h : 64 ∣ a.toNat) : lineOf a = a.toNat := Nat.div_mul_cancel h

/-- The bits from bit 6 on are those of the line. -/
theorem field_lineOf {i : Nat} {a : BitVec 64} (hi : 6 ≤ i) :
    field i 1 (lineOf a) = field i 1 a.toNat := by
  have h : ∀ z : Nat, z / 2 ^ i = z / 64 / 2 ^ (i - 6) := fun z => by
    rw [Nat.div_div_eq_div_mul, show 64 = 2 ^ 6 by rfl, ← Nat.pow_add]
    congr 2
    omega
  rw [field, field, h, h a.toNat, lineOf, Nat.mul_div_cancel _ (by omega)]

/-! ## The offset -/

theorem holeEn_eq (hole : BitVec 32) : hole &&& 0x00000003#32 &&& 1#32 = hole &&& 1#32 := by
  rw [BitVec.and_assoc]
  rfl

/-- Without the high range, below the hoisted memory the offset is the range's base. -/
theorem channelOffsetLong_base {d : DctSel} {hole : BitVec 32} {base a : BitVec 64}
    (hhi : hiRangeSelected d a = false) (hlow : hole &&& 1#32 = 0#32 ∨ a.toNat < 2 ^ 32)
    (hb : 2 ^ 27 ∣ base.toNat) (hlt : base.toNat < 2 ^ 48) :
    (channelOffsetLong d hole base a).toNat = base.toNat := by
  have hm : (base &&& 0xFFFFF8000000#64).toNat = base.toNat % 2 ^ 48 / 2 ^ 27 * 2 ^ 27 :=
    toNat_and_mask base (by omega) (by rfl)
  have hn : ¬(hole &&& 1#32 ≠ 0#32 ∧ 0x100000000#64 ≤ a) := by
    rintro ⟨h1, h2⟩
    rcases hlow with h | h
    · exact h1 h
    · rw [BitVec.le_def, show (0x100000000#64).toNat = 2 ^ 32 by rfl] at h2
      omega
  unfold channelOffsetLong
  simp only [holeEn_eq, hhi, Bool.false_eq_true, ↓reduceIte, if_neg hn, hm]
  omega

/-- Without the high range, the hoisted memory's offset is the `HoleOffset` field. -/
theorem channelOffsetLong_hole {d : DctSel} {hole : BitVec 32} {base a : BitVec 64}
    (hhi : hiRangeSelected d a = false) (hen : hole &&& 1#32 ≠ 0#32) (ha : 2 ^ 32 ≤ a.toNat) :
    (channelOffsetLong d hole base a).toNat = hole.toNat / 2 ^ 7 % 2 ^ 9 * 2 ^ 23 := by
  have hm : (hole &&& 0x0000FF80#32).toNat = hole.toNat % 2 ^ 16 / 2 ^ 7 * 2 ^ 7 :=
    toNat_and_mask hole (by omega) (by rfl)
  have hle : 0x100000000#64 ≤ a := by
    rw [BitVec.le_def, show (0x100000000#64).toNat = 2 ^ 32 by rfl]
    exact ha
  unfold channelOffsetLong
  simp only [holeEn_eq, hhi, Bool.false_eq_true, ↓reduceIte, if_pos (And.intro hen hle),
    BitVec.toNat_setWidth, BitVec.toNat_shiftLeft, Nat.shiftLeft_eq, hm]
  omega

/-! ## What a range locates -/

/-- The channel and the channel address that a range locates. -/
def locatedPair (cfg : PciReg → BitVec 32) (r : Nat) (a : BitVec 64) : Nat × Nat :=
  ((locatedAt cfg r a).channel, (locatedAt cfg r a).channelAddrLong.toNat)

section
variable {cfg : PciReg → BitVec 32} {r k off : Nat} {a : BitVec 64}
  (hk : k ≤ 3) (hie : (rangeIntlvEn cfg r).toNat = 2 ^ k - 1)
  (hoff : (channelOffsetLong (nodeDct cfg (rangeNode cfg r)) (nodeHole cfg (rangeNode cfg r))
    (rangeBase cfg r) a).toNat = off)
  (ha : a.toNat < 2 ^ 48) (hdvd : 2 ^ 23 ∣ off) (hle : off ≤ a.toNat)
include hk hie hoff ha hdvd hle

/-- The channel address before the channel interleave is removed. -/
theorem located_nodeFree :
    (removeNodeID (ilog (rangeIntlvEn cfg r)) (normalize a
      (channelOffsetLong (nodeDct cfg (rangeNode cfg r)) (nodeHole cfg (rangeNode cfg r))
        (rangeBase cfg r) a))).toNat = squeeze 12 k (lineOf a - off) := by
  have hn := normalize_toNat ha (by omega) (hoff ▸ hdvd) (hoff ▸ hle)
  rw [hoff] at hn
  rw [ilog_eq hk hie, removeNodeID_toNat k (by omega) (by omega), hn]
  rfl

variable (hswap : nodeSwap cfg (rangeNode cfg r) &&& 0x1#32 = 0#32)
include hswap

/-- **The interleaved part of a node's memory.** -/
theorem located_interleaved (hen : (nodeDct cfg (rangeNode cfg r)).dctSelIntLvEn = true)
    (hgang : (nodeDct cfg (rangeNode cfg r)).dctGangEn = false)
    (hhi : hiRangeSelected (nodeDct cfg (rangeNode cfg r)) a = false) :
    locatedPair cfg r a =
      channelOf (nodeDct cfg (rangeNode cfg r)).dctSelIntLvAddr k
        (field 12 k (lineOf a - off)) (squeeze 12 k (lineOf a - off)) := by
  have hfree := located_nodeFree hk hie hoff ha hdvd hle
  have hline : off ≤ lineOf a := by unfold lineOf; omega
  have h64 : 64 ∣ squeeze 12 k (lineOf a - off) :=
    (dvd_squeeze (j := 6) (by omega)).2 (Nat.dvd_sub (Nat.dvd_mul_left _ _) (by omega))
  rw [← interleaved_eq (m := (nodeDct cfg (rangeNode cfg r)).dctSelIntLvAddr)
    (dctSelIntLvAddr_cases _ _)]
  simp only [locatedPair, locatedAt, swapRegion_off hswap, hhi]
  rw [removeChannel_toNat hen hgang (hfree ▸ h64), hfree, nodeDct,
    channelSelect_eq hen hgang hhi hk hie, ← field_lineOf (le_selBit _ _),
    ← field_sub (selBit_lt _ hk) hdvd hline, field_selBit,
    chanHash_congr (b := (lineOf a - off) / 2 ^ 16) (by unfold lineOf; omega)]
  rfl

/-- A part of a node's memory without channel interleave. -/
theorem located_linear (hlin : ¬((nodeDct cfg (rangeNode cfg r)).dctSelIntLvEn = true ∧
      hiRangeSelected (nodeDct cfg (rangeNode cfg r)) a = false ∧
      (nodeDct cfg (rangeNode cfg r)).dctGangEn = false)) :
    (locatedAt cfg r a).channelAddrLong.toNat = squeeze 12 k (lineOf a - off) := by
  have hfree := located_nodeFree hk hie hoff ha hdvd hle
  simp only [locatedAt, swapRegion_off hswap]
  rw [removeChannel, if_neg hlin, hfree]

end

/-! ## Lines -/

/-- The 64-byte lines of a window. -/
def lines (base limit : BitVec 64) : Set (BitVec 64) :=
  {a | base.toNat ≤ a.toNat ∧ a.toNat ≤ limit.toNat ∧ 64 ∣ a.toNat}

/-- The lines of a window below 2 ^ 48 are its aligned addresses. -/
theorem bijOn_lines (base : BitVec 64) {limit : BitVec 64} (hl : limit.toNat < 2 ^ 48) :
    BijOn BitVec.toNat (lines base limit)
      {x | 2 ^ 6 ∣ x ∧ base.toNat ≤ x ∧ x < limit.toNat + 1} := by
  refine ⟨fun a ⟨hb, ha, h64⟩ => ⟨h64, hb, Nat.lt_succ_of_le ha⟩,
    fun a _ a' _ he => BitVec.eq_of_toNat_eq he, fun x ⟨h64, hb, hx⟩ => ?_⟩
  have he : (BitVec.ofNat 64 x).toNat = x := by
    rw [BitVec.toNat_ofNat, Nat.mod_eq_of_lt (by omega)]
  exact ⟨BitVec.ofNat 64 x, ⟨he.symm ▸ hb, by omega, he.symm ▸ h64⟩, he⟩

/-! ## Nothing is lost -/

theorem xor_mod_two_bijOn {h : Nat} (hh : h < 2) : BijOn (fun c => c ^^^ h) (Iio 2) (Iio 2) := by
  have hback : ∀ c, c ^^^ h ^^^ h = c := fun c => by
    rw [Nat.xor_assoc, Nat.xor_self, Nat.xor_zero]
  have hinv : InvOn (fun c => c ^^^ h) (fun c => c ^^^ h) (Iio 2) (Iio 2) :=
    ⟨fun c _ => hback c, fun c _ => hback c⟩
  have hmaps : MapsTo (fun c => c ^^^ h) (Iio 2) (Iio 2) :=
    fun c hc => Nat.xor_lt_two_pow (n := 1) hc hh
  exact hinv.bijOn hmaps hmaps

/-- **The channel interleave of a node is a bijection.** -/
theorem bijOn_channelOf (m : BitVec 32) (k s : Nat) {n : Nat} (hn : 2 ^ 13 ∣ n) :
    BijOn (channelOf m k s) (aligned 6 n) (Iio 2 ×ˢ aligned 6 (n / 2)) := by
  have hb := chanBit_bounds m
  exact bijOn_twist (σ := fun z c => c ^^^ chanHash m ((z / 2 ^ 11 * 2 ^ k + s) / 2 ^ 4))
    (bijOn_squeeze hb.1 (Nat.dvd_trans (Nat.pow_dvd_pow 2 (by omega)) hn))
    fun z _ => xor_mod_two_bijOn (chanHash_lt _ _)

end Amd
