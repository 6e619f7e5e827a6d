import IoHacks.Amd.Registers
import IoHacks.Lib.Mask

/-!
# The interleaved-region swap

`regionSwap b s` is what the swap is for: it exchanges the first `s` blocks of 128 MiB with the
`s` blocks from block `b`. The code does it by a xor with the base shifted in a `uint32_t`, so it
loses the bits of the base above 4 GiB: `swapRegion_toNat` is the swap with the base `b % 32`, and
`swapRegion_exchanges_iff` says that it exchanges the two regions exactly when the base is below
4 GiB or the address is in neither region.
-/

namespace Amd

open Lib

def intLvRgnBaseAddr (temp : BitVec 32) : Nat := (temp >>> 3 &&& 0x7F#32).toNat
def intLvRgnLmtAddr (temp : BitVec 32) : Nat := (temp >>> 11 &&& 0x7F#32).toNat
def intLvRgnSize (temp : BitVec 32) : Nat := (temp >>> 20 &&& 0x7F#32).toNat

/-- An enabled and well-formed F2x10C: the region is not empty, its limit block is its last one
and its base is aligned to a power of two that covers its size. -/
structure SwapWellFormed (temp : BitVec 32) : Prop where
  enabled : temp &&& 0x1#32 ≠ 0#32
  size_pos : 1 ≤ intLvRgnSize temp
  limit : intLvRgnLmtAddr temp = intLvRgnBaseAddr temp + intLvRgnSize temp - 1
  aligned : ∃ j, intLvRgnSize temp ≤ 2 ^ j ∧ 2 ^ j ∣ intLvRgnBaseAddr temp

/-- `a` is in the region of `s` blocks of 128 MiB from block `b`. -/
def InRegion (b s a : Nat) : Prop := b * 2 ^ 27 ≤ a ∧ a < (b + s) * 2 ^ 27

instance (b s a : Nat) : Decidable (InRegion b s a) := inferInstanceAs (Decidable (_ ∧ _))

/-- The first `s` blocks of 128 MiB exchanged with the `s` blocks from block `b`. -/
def regionSwap (b s a : Nat) : Nat :=
  if a < s * 2 ^ 27 then a + b * 2 ^ 27
  else if InRegion b s a then a - b * 2 ^ 27
  else a

theorem inRegion_iff {b s a : Nat} : InRegion b s a ↔ b ≤ a / 2 ^ 27 ∧ a / 2 ^ 27 < b + s := by
  unfold InRegion
  omega

theorem field7_lt (x : BitVec 32) : (x &&& 0x7F#32).toNat < 128 := by
  have h : (x &&& 0x7F#32).toNat = x.toNat % 2 ^ 7 / 2 ^ 0 * 2 ^ 0 :=
    toNat_and_mask _ (by omega) (by rfl)
  omega

/-- The swap as the code does it: the shifted base keeps its low 5 bits. -/
theorem swapRegion_toNat {temp : BitVec 32} (h : SwapWellFormed temp) (a : BitVec 64) :
    (swapRegion temp a).toNat =
      if a.toNat / 2 ^ 27 < intLvRgnSize temp ∨
          InRegion (intLvRgnBaseAddr temp) (intLvRgnSize temp) a.toNat then
        (a.toNat / 2 ^ 27 ^^^ intLvRgnBaseAddr temp % 32) * 2 ^ 27 + a.toNat % 2 ^ 27
      else a.toNat := by
  have hb := field7_lt (temp >>> 3)
  have hl := field7_lt (temp >>> 11)
  have hs := field7_lt (temp >>> 20)
  have hsz := h.size_pos
  have hlim := h.limit
  have hxor : (a ^^^ ((temp >>> 3 &&& 0x7F#32) <<< 27).setWidth 64).toNat =
      (a.toNat / 2 ^ 27 ^^^ intLvRgnBaseAddr temp % 32) * 2 ^ 27 + a.toNat % 2 ^ 27 := by
    rw [BitVec.toNat_xor, BitVec.toNat_setWidth, BitVec.toNat_shiftLeft, Nat.shiftLeft_eq,
      ← xor_shifted]
    congr 1
    unfold intLvRgnBaseAddr
    omega
  -- the guard's comparisons are those of the block number
  have hguard : (a >>> 34 = 0#64 ∧
      (((temp >>> 3 &&& 0x7F#32).setWidth 64 ≤ a >>> 27 ∧
        a >>> 27 ≤ (temp >>> 11 &&& 0x7F#32).setWidth 64) ∨
        a >>> 27 < (temp >>> 20 &&& 0x7F#32).setWidth 64)) ↔
      (a.toNat / 2 ^ 27 < intLvRgnSize temp ∨
        InRegion (intLvRgnBaseAddr temp) (intLvRgnSize temp) a.toNat) := by
    rw [inRegion_iff, BitVec.le_def, BitVec.le_def, BitVec.lt_def, ← BitVec.toNat_inj]
    simp only [BitVec.toNat_ushiftRight, BitVec.toNat_setWidth, Nat.shiftRight_eq_div_pow]
    rw [Nat.mod_eq_of_lt (by omega), Nat.mod_eq_of_lt (by omega), Nat.mod_eq_of_lt (by omega)]
    unfold intLvRgnBaseAddr intLvRgnLmtAddr intLvRgnSize at *
    rw [show (0#64).toNat = 0 by rfl]
    omega
  unfold swapRegion
  simp only
  rw [if_pos h.enabled]
  by_cases hg : a.toNat / 2 ^ 27 < intLvRgnSize temp ∨
      InRegion (intLvRgnBaseAddr temp) (intLvRgnSize temp) a.toNat
  · rw [if_pos (hguard.2 hg), if_pos hg, hxor]
  · rw [if_neg (fun hc => hg (hguard.1 hc)), if_neg hg]

/-! ## The abstract exchange -/

section
variable {b s j a : Nat}

/-- The regions of a well-formed swap are equal or disjoint. -/
theorem base_zero_or_le (hs : s ≤ 2 ^ j) (hb : 2 ^ j ∣ b) : b = 0 ∨ s ≤ b := by
  obtain ⟨c, rfl⟩ := hb
  rcases Nat.eq_zero_or_pos c with rfl | hc
  · exact .inl rfl
  · exact .inr (Nat.le_trans hs (Nat.le_mul_of_pos_right _ hc))

theorem regionSwap_low (h : a < s * 2 ^ 27) : regionSwap b s a = a + b * 2 ^ 27 := if_pos h

theorem regionSwap_high (hs : s ≤ 2 ^ j) (hb : 2 ^ j ∣ b) (h : InRegion b s a) :
    regionSwap b s a = a - b * 2 ^ 27 := by
  rcases base_zero_or_le hs hb with rfl | hsb
  · unfold InRegion at h
    rw [regionSwap_low (by omega)]
    omega
  · have hn : ¬a < s * 2 ^ 27 := by unfold InRegion at h; omega
    rw [regionSwap, if_neg hn, if_pos h]

theorem regionSwap_other (h1 : ¬a < s * 2 ^ 27) (h2 : ¬InRegion b s a) : regionSwap b s a = a := by
  rw [regionSwap, if_neg h1, if_neg h2]

/-- The exchange is an involution. -/
theorem regionSwap_regionSwap (hs : s ≤ 2 ^ j) (hb : 2 ^ j ∣ b) :
    regionSwap b s (regionSwap b s a) = a := by
  by_cases h1 : a < s * 2 ^ 27
  · rw [regionSwap_low h1, regionSwap_high hs hb (by unfold InRegion; omega)]
    omega
  · by_cases h2 : InRegion b s a
    · rw [regionSwap_high hs hb h2]
      unfold InRegion at h2
      rw [regionSwap_low (by omega)]
      omega
    · rw [regionSwap_other h1 h2, regionSwap_other h1 h2]

/-- Below 4 GiB the xor is the exchange. -/
theorem xor_eq_regionSwap (hs : s ≤ 2 ^ j) (hb : 2 ^ j ∣ b)
    (h : a / 2 ^ 27 < s ∨ InRegion b s a) :
    (a / 2 ^ 27 ^^^ b) * 2 ^ 27 + a % 2 ^ 27 = regionSwap b s a := by
  rcases h with h | h
  · rw [regionSwap_low (by omega), xor_aligned (Nat.lt_of_lt_of_le h hs) hb]
    omega
  · obtain ⟨h1, h2⟩ := inRegion_iff.1 h
    have hx : a / 2 ^ 27 ^^^ b = a / 2 ^ 27 - b := by
      have hi := xor_aligned (show a / 2 ^ 27 - b < 2 ^ j by omega) hb
      rw [Nat.sub_add_cancel h1] at hi
      calc a / 2 ^ 27 ^^^ b = (a / 2 ^ 27 - b ^^^ b) ^^^ b := by rw [hi]
        _ = a / 2 ^ 27 - b := by rw [Nat.xor_assoc, Nat.xor_self, Nat.xor_zero]
    rw [regionSwap_high hs hb h, hx]
    omega

/-- From 4 GiB on the truncated xor is not the exchange: it moves the block by too little. -/
theorem xor_ne_regionSwap (hs : s ≤ 2 ^ j) (hb : 2 ^ j ∣ b) (h32 : 32 ≤ b)
    (h : a / 2 ^ 27 < s ∨ InRegion b s a) :
    (a / 2 ^ 27 ^^^ b % 32) * 2 ^ 27 + a % 2 ^ 27 ≠ regionSwap b s a := by
  rcases h with h | h
  · have hle := xor_le_add (a / 2 ^ 27) (b % 32)
    rw [regionSwap_low (by omega)]
    omega
  · obtain ⟨h1, h2⟩ := inRegion_iff.1 h
    rw [regionSwap_high hs hb h]
    intro he
    have hx : a / 2 ^ 27 ^^^ b % 32 = a / 2 ^ 27 - b := by omega
    have hback := xor_le_add (a / 2 ^ 27 - b) (b % 32)
    rw [← hx, Nat.xor_assoc, Nat.xor_self, Nat.xor_zero, hx] at hback
    omega

end

/-! ## The code's swap -/

/-- **The swap exchanges exactly its two regions**, and twice gives the address back, if and only
if the base is below 4 GiB or the address is in neither region. -/
theorem swapRegion_exchanges_iff {temp : BitVec 32} (h : SwapWellFormed temp) (a : BitVec 64) :
    ((swapRegion temp a).toNat =
        regionSwap (intLvRgnBaseAddr temp) (intLvRgnSize temp) a.toNat ∧
      swapRegion temp (swapRegion temp a) = a) ↔
    (intLvRgnBaseAddr temp < 32 ∨
      (¬a.toNat < intLvRgnSize temp * 2 ^ 27 ∧
        ¬InRegion (intLvRgnBaseAddr temp) (intLvRgnSize temp) a.toNat)) := by
  obtain ⟨j, hs, hb⟩ := h.aligned
  have hlow : a.toNat / 2 ^ 27 < intLvRgnSize temp ↔ a.toNat < intLvRgnSize temp * 2 ^ 27 := by
    omega
  constructor
  · rintro ⟨hx, -⟩
    by_cases h32 : intLvRgnBaseAddr temp < 32
    · exact .inl h32
    · refine .inr ?_
      rw [← not_or, ← hlow]
      intro hg
      rw [swapRegion_toNat h, if_pos hg] at hx
      exact xor_ne_regionSwap hs hb (Nat.le_of_not_lt h32) hg hx
  · have hone : ∀ x : BitVec 64, (intLvRgnBaseAddr temp < 32 ∨
        (¬x.toNat < intLvRgnSize temp * 2 ^ 27 ∧
          ¬InRegion (intLvRgnBaseAddr temp) (intLvRgnSize temp) x.toNat)) →
        (swapRegion temp x).toNat =
          regionSwap (intLvRgnBaseAddr temp) (intLvRgnSize temp) x.toNat := by
      intro x hc
      rw [swapRegion_toNat h]
      split
      · rename_i hg
        rcases hc with h32 | ⟨h1, h2⟩
        · rw [Nat.mod_eq_of_lt h32, xor_eq_regionSwap hs hb hg]
        · rcases hg with hg | hg
          · omega
          · exact absurd hg h2
      · rename_i hg
        rw [regionSwap_other (by omega) (fun hc => hg (.inr hc))]
    intro hc
    refine ⟨hone a hc, BitVec.eq_of_toNat_eq ?_⟩
    rcases hc with h32 | hout
    · rw [hone _ (.inl h32), hone _ (.inl h32), regionSwap_regionSwap hs hb]
    · have hid : swapRegion temp a = a :=
        BitVec.eq_of_toNat_eq (by rw [hone a (.inr hout), regionSwap_other hout.1 hout.2])
      rw [hid, hid]

/-- A region of one block at 4 GiB + 128 MiB (block 33). -/
theorem swapWellFormed_33 : SwapWellFormed 0x00110909#32 where
  enabled := by decide
  size_pos := by decide
  limit := by decide
  aligned := ⟨0, by decide, by decide⟩

theorem swapRegion_exchanges_iff_33 :
    ((swapRegion 0x00110909#32 0#64).toNat =
        regionSwap (intLvRgnBaseAddr 0x00110909#32) (intLvRgnSize 0x00110909#32) (0#64).toNat ∧
      swapRegion 0x00110909#32 (swapRegion 0x00110909#32 0#64) = 0#64) ↔
    (intLvRgnBaseAddr 0x00110909#32 < 32 ∨
      (¬(0#64).toNat < intLvRgnSize 0x00110909#32 * 2 ^ 27 ∧
        ¬InRegion (intLvRgnBaseAddr 0x00110909#32) (intLvRgnSize 0x00110909#32) (0#64).toNat)) :=
  swapRegion_exchanges_iff swapWellFormed_33 0#64

/-- The address 0 is to go to 4 GiB + 128 MiB, but goes to 128 MiB, and stays there. -/
theorem swapRegion_truncates :
    SwapWellFormed 0x00110909#32 ∧
      regionSwap (intLvRgnBaseAddr 0x00110909#32) (intLvRgnSize 0x00110909#32) (0#64).toNat =
        0x108000000 ∧
      (swapRegion 0x00110909#32 0#64).toNat = 0x8000000 ∧
      swapRegion 0x00110909#32 (swapRegion 0x00110909#32 0#64) ≠ 0#64 :=
  ⟨swapWellFormed_33, by decide, by decide, by decide⟩

end Amd
