import IoHacks.Amd.Registers
import IoHacks.Lib.Mask
import IoHacks.Lib.Squeeze

/-!
# The decoder's arithmetic over the naturals

Every stage of the decoder on `BitVec`s is a statement about naturals: a range's base and last
byte plus one are multiples of 16 MiB below `2 ^ 48` (`dramBaseLong_toNat`,
`dramLimitLong_toNat`), normalizing subtracts the offset (`normalize_toNat`), and the two
removals squeeze the node's bits and the channel's bit out of the address (`removeNodeID_toNat`,
`removeChannel_toNat`).
-/

namespace Amd

open Lib

/-! ## The window -/

theorem dramBaseLong_toNat (low : BitVec 32) (high : BitVec 64) :
    (dramBaseLong low high).toNat = high.toNat % 2 ^ 8 * 2 ^ 40 + low.toNat / 2 ^ 16 * 2 ^ 24 := by
  have h1 : (high &&& 0xFF#64).toNat = high.toNat % 2 ^ 8 / 2 ^ 0 * 2 ^ 0 :=
    toNat_and_mask high (by omega) (by rfl)
  have h2 : (low &&& 0xFFFF0000#32).toNat = low.toNat % 2 ^ 32 / 2 ^ 16 * 2 ^ 16 :=
    toNat_and_mask low (by omega) (by rfl)
  have hl := low.isLt
  unfold dramBaseLong
  simp only [BitVec.toNat_shiftLeft, BitVec.toNat_add, BitVec.toNat_setWidth, h1, h2,
    Nat.shiftLeft_eq]
  omega

theorem dramLimitLong_toNat (low : BitVec 32) (high : BitVec 64) :
    (dramLimitLong low high).toNat + 1 =
      high.toNat % 2 ^ 8 * 2 ^ 40 + low.toNat / 2 ^ 16 * 2 ^ 24 + 2 ^ 24 := by
  have h1 : (high &&& 0xFF#64).toNat = high.toNat % 2 ^ 8 / 2 ^ 0 * 2 ^ 0 :=
    toNat_and_mask high (by omega) (by rfl)
  have hl := low.isLt
  have h2 : (low ||| 0x0000FFFF#32).toNat = low.toNat / 2 ^ 16 * 2 ^ 16 + 65535 := by
    have h : low.toNat ||| 65535 = (low.toNat / 2 ^ 16 * 2 ^ 16) ||| 65535 := by
      apply Nat.eq_of_testBit_eq
      intro i
      rw [Nat.testBit_or, Nat.testBit_or, show 65535 = 2 ^ 16 - 1 by rfl,
        Nat.testBit_two_pow_sub_one, Nat.testBit_mul_two_pow, Nat.testBit_div_two_pow]
      by_cases hi : i < 16
      · simp [hi]
      · simp [hi, Nat.sub_add_cancel (Nat.le_of_not_lt hi), Nat.le_of_not_lt hi]
    rw [BitVec.toNat_or]
    exact h.trans (or_low (by decide))
  have h3 : ∀ a : Nat, a <<< 8 % 2 ^ 64 ||| 255 = a % 2 ^ 56 * 2 ^ 8 + 255 := fun a => by
    rw [Nat.shiftLeft_eq, show 2 ^ 64 = 2 ^ 56 * 2 ^ 8 by rfl, Nat.mul_mod_mul_right,
      or_low (by decide)]
  unfold dramLimitLong
  simp only [BitVec.toNat_or, BitVec.toNat_shiftLeft, BitVec.toNat_add, BitVec.toNat_setWidth, h1,
    h2]
  rw [show (0xFF#64).toNat = 255 by rfl, h3, Nat.shiftLeft_eq]
  omega

section
variable (cfg : PciReg → BitVec 32) (r : Nat)

theorem rangeBase_lt : (rangeBase cfg r).toNat < 2 ^ 48 := by
  have := (rangeBaseLow cfg r).isLt
  rw [rangeBase, dramBaseLong_toNat]
  omega

theorem rangeLimit_lt : (rangeLimit cfg r).toNat < 2 ^ 48 := by
  have := (rangeLimitLow cfg r).isLt
  have := dramLimitLong_toNat (rangeLimitLow cfg r)
    ((cfg ⟨bus0, device, func1, 0x40 + (r <<< 3) + 0x104⟩).setWidth 64)
  rw [rangeLimit]
  omega

/-- The windows end on 16 MiB boundaries. -/
theorem dvd_rangeLimit : 2 ^ 24 ∣ (rangeLimit cfg r).toNat + 1 := by
  rw [rangeLimit, dramLimitLong_toNat]
  omega

end

theorem inWindow_iff {base limit a : BitVec 64} :
    inWindow base limit a = true ↔ base.toNat ≤ a.toNat ∧ a.toNat ≤ limit.toNat := by
  simp only [inWindow, Bool.not_eq_true', Bool.or_eq_false_iff, decide_eq_false_iff_not,
    BitVec.lt_def, Nat.not_lt]

/-- A range that matches contains the address. -/
theorem rangeMatches_window {cfg : PciReg → BitVec 32} {r : Nat} {a : BitVec 64}
    (hm : rangeMatches cfg r a = true) :
    (rangeBase cfg r).toNat ≤ a.toNat ∧ a.toNat ≤ (rangeLimit cfg r).toNat := by
  rw [rangeMatches, Bool.and_eq_true, Bool.and_eq_true] at hm
  exact inWindow_iff.1 hm.1.2

/-! ## The channel address -/

theorem normalize_toNat {a off : BitVec 64} (ha : a.toNat < 2 ^ 48) (hoff : off.toNat < 2 ^ 48)
    (hdvd : 2 ^ 23 ∣ off.toNat) (hle : off.toNat ≤ a.toNat) :
    (normalize a off).toNat = a.toNat / 64 * 64 - off.toNat := by
  have h1 : (a &&& 0x0000FFFFFFFFFFC0#64).toNat = a.toNat % 2 ^ 48 / 2 ^ 6 * 2 ^ 6 :=
    toNat_and_mask a (by omega) (by rfl)
  have h2 : (off &&& 0x0000FFFFFF800000#64).toNat = off.toNat % 2 ^ 48 / 2 ^ 23 * 2 ^ 23 :=
    toNat_and_mask off (by omega) (by rfl)
  unfold normalize
  rw [BitVec.toNat_sub_of_le (by rw [BitVec.le_def, h1, h2]; omega), h1, h2]
  omega

theorem removeNodeID_toNat {y : BitVec 64} (k : Nat) (hy : y.toNat < 2 ^ 48)
    (hdvd : 64 ∣ y.toNat) : (removeNodeID k y).toNat = squeeze 12 k y.toNat := by
  have h1 : (y &&& 0xFC0#64).toNat = y.toNat % 2 ^ 12 / 2 ^ 6 * 2 ^ 6 :=
    toNat_and_mask y (by omega) (by rfl)
  have h2 : ((y >>> k) &&& 0xFFFFFFFFF000#64).toNat =
      (y >>> k).toNat % 2 ^ 48 / 2 ^ 12 * 2 ^ 12 :=
    toNat_and_mask _ (by omega) (by rfl)
  have hk : y.toNat / 2 ^ k ≤ y.toNat := Nat.div_le_self _ _
  unfold removeNodeID
  rw [BitVec.toNat_or, h2, BitVec.toNat_setWidth, BitVec.toNat_setWidth, h1,
    BitVec.toNat_ushiftRight, Nat.shiftRight_eq_div_pow, or_low (by omega),
    Nat.mod_eq_of_lt (by omega : y.toNat / 2 ^ k < 2 ^ 48), Nat.div_div_eq_div_mul, ← Nat.pow_add,
    Nat.add_comm k]
  unfold squeeze
  omega

/-- The bit of the (node-free) address that the channel interleave takes out. -/
def chanBit (intLvAddr : BitVec 32) : Nat :=
  if intLvAddr &&& 1#32 = 0#32 then 6 else if intLvAddr = 1#32 then 12 else 9

theorem removeChannel_toNat {d : DctSel} {y : BitVec 64} (hen : d.dctSelIntLvEn = true)
    (hgang : d.dctGangEn = false) (hdvd : 64 ∣ y.toNat) :
    (removeChannel d false y).toNat = squeeze (chanBit d.dctSelIntLvAddr) 1 y.toNat := by
  have hy := y.isLt
  unfold removeChannel chanBit
  rw [if_pos ⟨hen, rfl, hgang⟩]
  split
  · have h : ((y >>> 1) &&& 0xFFFFFFFFFFFFFFC0#64).toNat =
        (y >>> 1).toNat % 2 ^ 64 / 2 ^ 6 * 2 ^ 6 := toNat_and_mask _ (by omega) (by rfl)
    rw [h, BitVec.toNat_ushiftRight, Nat.shiftRight_eq_div_pow]
    unfold squeeze
    omega
  · split
    · have h1 : (y &&& 0xFC0#64).toNat = y.toNat % 2 ^ 12 / 2 ^ 6 * 2 ^ 6 :=
        toNat_and_mask y (by omega) (by rfl)
      have h2 : (y &&& 0xFFFFFFFFFFFFE000#64).toNat = y.toNat % 2 ^ 64 / 2 ^ 13 * 2 ^ 13 :=
        toNat_and_mask y (by omega) (by rfl)
      rw [BitVec.toNat_or, BitVec.toNat_ushiftRight, Nat.shiftRight_eq_div_pow, h2,
        BitVec.toNat_setWidth, BitVec.toNat_setWidth, h1,
        show y.toNat % 2 ^ 64 / 2 ^ 13 * 2 ^ 13 / 2 ^ 1 = y.toNat / 2 ^ 13 * 2 ^ 12 by omega,
        or_low (by omega)]
      unfold squeeze
      omega
    · have h1 : (y &&& 0x1C0#64).toNat = y.toNat % 2 ^ 9 / 2 ^ 6 * 2 ^ 6 :=
        toNat_and_mask y (by omega) (by rfl)
      have h2 : (y &&& 0xFFFFFFFFFFFFFC00#64).toNat = y.toNat % 2 ^ 64 / 2 ^ 10 * 2 ^ 10 :=
        toNat_and_mask y (by omega) (by rfl)
      rw [BitVec.toNat_or, BitVec.toNat_ushiftRight, Nat.shiftRight_eq_div_pow, h2,
        BitVec.toNat_setWidth, BitVec.toNat_setWidth, h1,
        show y.toNat % 2 ^ 64 / 2 ^ 10 * 2 ^ 10 / 2 ^ 1 = y.toNat / 2 ^ 10 * 2 ^ 9 by omega,
        or_low (by omega)]
      unfold squeeze
      omega

theorem addrBit_eq (a : BitVec 64) (i : Nat) : addrBit a i = field i 1 a.toNat := by
  rw [addrBit, BitVec.toNat_and, BitVec.toNat_ushiftRight, Nat.shiftRight_eq_div_pow]
  exact Nat.and_two_pow_sub_one_eq_mod _ 1

/-! ## The hash -/

/-- The channel hash of the address bits 16 to 20. -/
def hash (n : Nat) : Nat := fUnaryXOR (BitVec.ofNat 32 (n % 32))

theorem fUnaryXOR_lt (v : BitVec 32) : fUnaryXOR v < 2 := by
  unfold fUnaryXOR
  rw [show popcount v &&& 1 = popcount v % 2 from Nat.and_two_pow_sub_one_eq_mod _ 1]
  exact Nat.mod_lt _ (by omega)

theorem fUnaryXOR_eq (a : BitVec 64) :
    fUnaryXOR (((a >>> 16) &&& 0x1F#64).setWidth 32) = hash (a.toNat / 2 ^ 16) := by
  have h : ((a >>> 16) &&& 0x1F#64).toNat = (a >>> 16).toNat % 2 ^ 5 / 2 ^ 0 * 2 ^ 0 :=
    toNat_and_mask _ (by omega) (by rfl)
  rw [hash]
  congr 1
  apply BitVec.eq_of_toNat_eq
  rw [BitVec.toNat_setWidth, h, BitVec.toNat_ushiftRight, Nat.shiftRight_eq_div_pow,
    BitVec.toNat_ofNat]
  omega

end Amd
