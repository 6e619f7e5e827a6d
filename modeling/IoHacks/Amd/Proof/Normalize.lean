import IoHacks.Amd.Proof.Unbalanced
import IoHacks.Amd.Proof.PassedSwap

/-!
# The normalizing subtraction does not wrap

The offset that normalizing subtracts comes from four branches, and each is bounded by a test that
the iteration made before: the `HoleOffset` field is below the 4 GiB that the address reaches, the
base is below the address by the window test, and `DctSelBaseOffset` is below the address by the
high-range comparison. `normalize_noWrap`: the masked offset is at most the masked address, so the
channel address is their difference, and it stays a line below `2 ^ 48` through the removals.
`locate_noWrap` is the same of the address that an iteration of the program hands to the search.
-/

namespace Amd

open Lib

section
variable (cfg : PciReg → BitVec 32) (r : Nat) (a : BitVec 64)

/-! ## The locals of an iteration -/

/-- `SystemAddr` after the region swap. -/
def rangeSwapped : BitVec 64 := swapRegion (nodeSwap cfg (rangeNode cfg r)) a

/-- `ChannelOffsetLong`. -/
def rangeOffset : BitVec 64 :=
  channelOffsetLong (nodeDct cfg (rangeNode cfg r)) (nodeHole cfg (rangeNode cfg r))
    (rangeBase cfg r) (rangeSwapped cfg r a)

/-- `ChannelAddrLong` after the subtraction. -/
def rangeNormal : BitVec 64 := normalize (rangeSwapped cfg r a) (rangeOffset cfg r a)

/-- `ChannelAddrLong` after the removal of the node ID. -/
def rangeNodeFree : BitVec 64 := removeNodeID (ilog (rangeIntlvEn cfg r)) (rangeNormal cfg r a)

/-- The address that DctSelBaseAddr denotes: its bits 31 to 11 are the address bits 47 to 27. -/
def selBaseAddr (node : Nat) : Nat :=
  (cfg ⟨bus0, dev24 + node, func2, 0x110⟩).toNat / 2 ^ 11 * 2 ^ 27

/-- DctSelBaseOffset: the bits 31 to 10 of F2x114 are the address bits 47 to 26. -/
def selBaseOffset (node : Nat) : Nat :=
  (cfg ⟨bus0, dev24 + node, func2, 0x114⟩).toNat / 2 ^ 10 * 2 ^ 26

/-- A line below `2 ^ 48`. -/
def IsLine (y : BitVec 64) : Prop := y.toNat < 2 ^ 48 ∧ 64 ∣ y.toNat

/-- The subtraction and the two removals of an iteration as they are meant. -/
structure NoWrap : Prop where
  offset_le : (rangeOffset cfg r a &&& 0x0000FFFFFF800000#64).toNat ≤
    (rangeSwapped cfg r a &&& 0x0000FFFFFFFFFFC0#64).toNat
  difference : ((rangeNormal cfg r a).toNat : Int) =
    (rangeSwapped cfg r a &&& 0x0000FFFFFFFFFFC0#64).toNat -
      (rangeOffset cfg r a &&& 0x0000FFFFFF800000#64).toNat
  normal_le : (rangeNormal cfg r a).toNat ≤ (rangeSwapped cfg r a).toNat
  normal_line : IsLine (rangeNormal cfg r a)
  nodeFree_line : IsLine (rangeNodeFree cfg r a)
  channel_line : IsLine (locatedAt cfg r a).channelAddrLong

end

/-! ## One subtraction -/

section
variable {a off : BitVec 64}

theorem lineMask_toNat (a : BitVec 64) :
    (a &&& 0x0000FFFFFFFFFFC0#64).toNat = a.toNat % 2 ^ 48 / 2 ^ 6 * 2 ^ 6 :=
  toNat_and_mask a (by omega) (by rfl)

theorem offsetMask_toNat (off : BitVec 64) :
    (off &&& 0x0000FFFFFF800000#64).toNat = off.toNat % 2 ^ 48 / 2 ^ 23 * 2 ^ 23 :=
  toNat_and_mask off (by omega) (by rfl)

/-- An offset of at most the address stays so under the masks. -/
theorem masked_offset_le (ha : a.toNat < 2 ^ 48) (hle : off.toNat ≤ a.toNat) :
    (off &&& 0x0000FFFFFF800000#64).toNat ≤ (a &&& 0x0000FFFFFFFFFFC0#64).toNat := by
  rw [offsetMask_toNat, lineMask_toNat]
  omega

theorem normalize_sub (ha : a.toNat < 2 ^ 48) (hle : off.toNat ≤ a.toNat) :
    (normalize a off).toNat =
      (a &&& 0x0000FFFFFFFFFFC0#64).toNat - (off &&& 0x0000FFFFFF800000#64).toNat :=
  BitVec.toNat_sub_of_le (BitVec.le_def.2 (masked_offset_le ha hle))

theorem normalize_isLine (ha : a.toNat < 2 ^ 48) (hle : off.toNat ≤ a.toNat) :
    IsLine (normalize a off) := by
  have h := normalize_sub ha hle
  rw [lineMask_toNat, offsetMask_toNat] at h
  constructor <;> omega

end

/-! ## The removals -/

section
variable {y : BitVec 64}

theorem removeNodeID_isLine (k : Nat) (h : IsLine y) : IsLine (removeNodeID k y) := by
  rw [IsLine, removeNodeID_toNat k h.1 h.2]
  exact ⟨Nat.lt_of_le_of_lt squeeze_le h.1, (dvd_squeeze (j := 6) (by omega)).2 h.2⟩

theorem removeChannel_isLine (d : DctSel) (hi : Bool) (h : IsLine y) :
    IsLine (removeChannel d hi y) := by
  by_cases hc : d.dctSelIntLvEn = true ∧ hi = false ∧ d.dctGangEn = false
  · obtain ⟨hen, rfl, hgang⟩ := hc
    rw [IsLine, removeChannel_toNat hen hgang h.2]
    exact ⟨Nat.lt_of_le_of_lt squeeze_le h.1,
      (dvd_squeeze (j := 6) (chanBit_bounds d.dctSelIntLvAddr).1).2 h.2⟩
  · rwa [removeChannel, if_neg hc]

end

/-! ## The bound of every branch -/

section
variable {cfg : PciReg → BitVec 32} {r : Nat} {a : BitVec 64}

/-- The window keeps the address below `2 ^ 48`, and a swap moves it below 16 GiB. -/
theorem rangeSwapped_lt (hm : rangeMatches cfg r a = true) :
    (rangeSwapped cfg r a).toNat < 2 ^ 48 := by
  by_cases hs : rangeSwapped cfg r a = a
  · rw [hs]
    exact Nat.lt_of_le_of_lt (rangeMatches_window hm).2 (rangeLimit_lt cfg r)
  · have hblk := (swapRegion_moves hs).2
    rw [rangeSwapped]
    omega

/-- The base is at most the swapped address, by the window test. -/
theorem rangeBase_le (hm : rangeMatches cfg r a = true)
    (hswap : nodeSwap cfg (rangeNode cfg r) &&& 0x1#32 = 0#32 ∨ rangeBase cfg r = 0#64) :
    (rangeBase cfg r).toNat ≤ (rangeSwapped cfg r a).toNat := by
  rcases hswap with hoff | hzero
  · rw [rangeSwapped, swapRegion_off hoff]
    exact (rangeMatches_window hm).1
  · rw [hzero]
    exact Nat.zero_le _

/-- The `HoleOffset` field is a 32-bit address. -/
theorem holeOffset_lt (hole : BitVec 32) :
    (((hole &&& 0x0000FF80#32) <<< 16).setWidth 64).toNat < 2 ^ 32 := by
  rw [BitVec.toNat_setWidth]
  exact Nat.lt_of_le_of_lt (Nat.mod_le _ _) (BitVec.isLt _)

theorem hiRange_selBaseAddr_le {node : Nat}
    (hhi : hiRangeSelected (nodeDct cfg node) a = true) : selBaseAddr cfg node ≤ a.toNat := by
  have h := hhi
  rw [hiRangeSelected, Bool.and_eq_true, Bool.and_eq_true, Bool.not_eq_true'] at h
  exact (hiRangeSelected_iff h.1.2 h.1.1).1 hhi

/-- **The offset of every branch is at most the address.** -/
theorem rangeOffset_le (hm : rangeMatches cfg r a = true)
    (hswap : nodeSwap cfg (rangeNode cfg r) &&& 0x1#32 = 0#32 ∨ rangeBase cfg r = 0#64)
    (hsel : selBaseOffset cfg (rangeNode cfg r) ≤ selBaseAddr cfg (rangeNode cfg r)) :
    (rangeOffset cfg r a).toNat ≤ (rangeSwapped cfg r a).toNat := by
  have hhole : 0x100000000#64 ≤ rangeSwapped cfg r a →
      (((nodeHole cfg (rangeNode cfg r) &&& 0x0000FF80#32) <<< 16).setWidth 64).toNat ≤
        (rangeSwapped cfg r a).toNat := fun h4 =>
    Nat.le_trans (Nat.le_of_lt (holeOffset_lt _)) (BitVec.le_def.1 h4)
  unfold rangeOffset channelOffsetLong
  simp only
  split
  · rename_i hhi
    split
    · rename_i hg
      exact hhole hg.2.2
    · -- the high range: the comparison with DctSelBaseAddr bounds DctSelBaseOffset
      rw [dctSelBaseOffsetLong_toNat]
      exact Nat.le_trans hsel (hiRange_selBaseAddr_le hhi)
  · split
    · rename_i hg
      exact hhole hg.2
    · rw [BitVec.toNat_and]
      exact Nat.le_trans Nat.and_le_left (rangeBase_le hm hswap)

/-- An offset of at most the address is subtracted without a wrap. -/
theorem noWrap_of_le (hlt : (rangeSwapped cfg r a).toNat < 2 ^ 48)
    (hle : (rangeOffset cfg r a).toNat ≤ (rangeSwapped cfg r a).toNat) : NoWrap cfg r a := by
  have hmask := masked_offset_le hlt hle
  have hsub := normalize_sub hlt hle
  have hline : IsLine (rangeNormal cfg r a) := normalize_isLine hlt hle
  have hfree : IsLine (rangeNodeFree cfg r a) := removeNodeID_isLine _ hline
  exact
    { offset_le := hmask
      difference := by
        rw [rangeNormal, hsub]
        exact Int.ofNat_sub hmask
      normal_le := by
        rw [rangeNormal, hsub, lineMask_toNat]
        omega
      normal_line := hline
      nodeFree_line := hfree
      channel_line := removeChannel_isLine _ _ hfree }

/-- **The normalizing subtraction never wraps**: an iteration whose range matches subtracts at most
the address, provided that the swap is off or the range starts at 0, and that DctSelBaseOffset is
not above DctSelBaseAddr. -/
theorem normalize_noWrap (hm : rangeMatches cfg r a = true)
    (hswap : nodeSwap cfg (rangeNode cfg r) &&& 0x1#32 = 0#32 ∨ rangeBase cfg r = 0#64)
    (hsel : selBaseOffset cfg (rangeNode cfg r) ≤ selBaseAddr cfg (rangeNode cfg r)) :
    NoWrap cfg r a :=
  noWrap_of_le (rangeSwapped_lt hm) (rangeOffset_le hm hswap hsel)

/-- The same of the program: what an iteration hands to the search is a line, and comes from a
subtraction that did not wrap. -/
theorem locate_noWrap {l : Located} (hl : (locate r a).eval (DevPci.regs cfg).answer = some l)
    (hswap : nodeSwap cfg (rangeNode cfg r) &&& 0x1#32 = 0#32 ∨ rangeBase cfg r = 0#64)
    (hsel : selBaseOffset cfg (rangeNode cfg r) ≤ selBaseAddr cfg (rangeNode cfg r)) :
    l.systemAddr = rangeSwapped cfg r a ∧ IsLine l.channelAddrLong ∧ NoWrap cfg r a := by
  obtain ⟨hm, rfl⟩ := (eval_locate_eq_some cfg).1 hl
  have hnoWrap := noWrap_of_le (rangeSwapped_lt hm) (rangeOffset_le hm hswap hsel)
  exact ⟨rfl, hnoWrap.channel_line, hnoWrap⟩

end

/-- The high range of a node whose memory starts at 0. -/
theorem normalize_noWrap_node : NoWrap unbalancedNode 0 0x9000040#64 :=
  normalize_noWrap (by decide) (.inr rfl) (by decide)

end Amd
