import IoHacks.Amd.Proof.RangeLoop
import IoHacks.Amd.Proof.Channel
import Mathlib.Data.Finset.Card

/-!
# A passed swap misleads the loop

`agrees_iff` counts a range that the loop passes with a changed address as a disagreement, also
where the later ranges happen to give the right answer from the wrong address. This file shows
that the ranges passed so far never make the answer right: with the registers of the later ranges
chosen freely (`blockAfter`: the next range is the 128 MiB block of the changed address, on a node
that no earlier range uses), the loop finds the address although no range decodes it
(`passedSwap_refutes`).
-/

namespace Amd

open Lib

/-! ## Ranges with the same registers -/

/-- The registers that the iteration for range `r` can read are the same. -/
structure SameRange (cfg cfg' : PciReg → BitVec 32) (r : Nat) : Prop where
  baseLow : cfg' ⟨bus0, device, func1, 0x40 + (r <<< 3)⟩ =
    cfg ⟨bus0, device, func1, 0x40 + (r <<< 3)⟩
  limitLow : cfg' ⟨bus0, device, func1, 0x40 + (r <<< 3) + 4⟩ =
    cfg ⟨bus0, device, func1, 0x40 + (r <<< 3) + 4⟩
  baseHigh : cfg' ⟨bus0, device, func1, 0x40 + (r <<< 3) + 0x100⟩ =
    cfg ⟨bus0, device, func1, 0x40 + (r <<< 3) + 0x100⟩
  limitHigh : cfg' ⟨bus0, device, func1, 0x40 + (r <<< 3) + 0x104⟩ =
    cfg ⟨bus0, device, func1, 0x40 + (r <<< 3) + 0x104⟩
  hole : nodeHole cfg' (rangeNode cfg r) = nodeHole cfg (rangeNode cfg r)
  node : ∀ func reg, func ≠ func1 → cfg' ⟨bus0, dev24 + rangeNode cfg r, func, reg⟩ =
    cfg ⟨bus0, dev24 + rangeNode cfg r, func, reg⟩

section
variable {cfg cfg' : PciReg → BitVec 32} {r : Nat} (h : SameRange cfg cfg' r)
include h

theorem SameRange.rangeNode : rangeNode cfg' r = rangeNode cfg r := by
  simp only [Amd.rangeNode, rangeLimitLow, h.limitLow]

theorem SameRange.rangeMatches (a : BitVec 64) : rangeMatches cfg' r a = rangeMatches cfg r a := by
  simp only [Amd.rangeMatches, rangeEn, rangeBase, rangeLimit, rangeIntlvEn, rangeIntlvSel,
    rangeBaseLow, rangeLimitLow, h.baseLow, h.limitLow, h.baseHigh, h.limitHigh]

theorem SameRange.nodeSwap :
    nodeSwap cfg' (Amd.rangeNode cfg r) = nodeSwap cfg (Amd.rangeNode cfg r) :=
  h.node _ _ (by decide)

theorem SameRange.locatedAt (a : BitVec 64) : locatedAt cfg' r a = locatedAt cfg r a := by
  have hd : nodeDct cfg' (Amd.rangeNode cfg r) = nodeDct cfg (Amd.rangeNode cfg r) := by
    simp only [nodeDct, h.node func2 _ (by decide)]
  simp only [Amd.locatedAt, h.rangeNode, h.nodeSwap, h.hole, hd, rangeBase, rangeIntlvEn,
    rangeBaseLow, h.baseLow, h.baseHigh]

theorem SameRange.searched (a : BitVec 64) :
    searched cfg' (Amd.locatedAt cfg r a) = searched cfg (Amd.locatedAt cfg r a) := by
  have hn : (Amd.locatedAt cfg r a).nodeID = Amd.rangeNode cfg r := rfl
  have hh : csHits cfg' (Amd.locatedAt cfg r a) = csHits cfg (Amd.locatedAt cfg r a) :=
    funext fun c => by simp only [csHits, nodeCSBase, nodeCSMask, hn, h.node func2 _ (by decide)]
  simp only [Amd.searched, csSearch, hh, nodeSpare, hn, h.node func3 _ (by decide)]

theorem SameRange.decodes_iff {a : BitVec 64} : Decodes cfg' r a ↔ Decodes cfg r a := by
  rw [Amd.decodes_iff, Amd.decodes_iff, h.rangeMatches, h.locatedAt, h.searched]

theorem SameRange.keepsAddress {a : BitVec 64} (hsame : ∀ r' ≤ r, SameRange cfg cfg' r')
    (hk : KeepsAddress cfg a r) : KeepsAddress cfg' a r := by
  intro hnone hm
  rw [h.rangeMatches] at hm
  rw [h.rangeNode, h.nodeSwap]
  exact hk (fun r' hr' hdec => hnone r' hr' ((hsame r' hr').decodes_iff.2 hdec)) hm

end

/-! ## The next range -/

/-- A swap that changes the address moves it to another block of 128 MiB below 16 GiB. -/
theorem swapRegion_moves {temp : BitVec 32} {a : BitVec 64} (h : swapRegion temp a ≠ a) :
    (swapRegion temp a).toNat / 2 ^ 27 ≠ a.toNat / 2 ^ 27 ∧
      (swapRegion temp a).toNat / 2 ^ 27 < 2 ^ 7 := by
  have hcases : swapRegion temp a = a ∨ a.toNat < 2 ^ 34 ∧
      ∃ c < 2 ^ 5, (swapRegion temp a).toNat = a.toNat ^^^ c * 2 ^ 27 := by
    unfold swapRegion
    simp only
    split
    · split
      · rename_i hg
        have h34 := congrArg BitVec.toNat hg.1
        rw [BitVec.toNat_ushiftRight, Nat.shiftRight_eq_div_pow, BitVec.toNat_ofNat] at h34
        refine .inr ⟨by omega, (temp >>> 3 &&& 0x7F#32).toNat % 2 ^ 5, by omega, ?_⟩
        rw [BitVec.toNat_xor, BitVec.toNat_setWidth, BitVec.toNat_shiftLeft, Nat.shiftLeft_eq]
        congr 1
        omega
      · exact .inl rfl
    · exact .inl rfl
  obtain heq | ⟨h34, c, hc, hx⟩ := hcases
  · exact absurd heq h
  · rw [xor_shifted] at hx
    have hlt : a.toNat / 2 ^ 27 ^^^ c < 2 ^ 7 := Nat.xor_lt_two_pow (by omega) (by omega)
    refine ⟨fun he => h (BitVec.eq_of_toNat_eq ?_), by omega⟩
    omega

/-- Register `reg` of F1 is one of a range after `r`. -/
def LaterRange (r reg : Nat) : Prop := 0x40 + ((r + 1) <<< 3) ≤ reg % 0x100 ∧ reg % 0x100 < 0x80

instance (r reg : Nat) : Decidable (LaterRange r reg) := inferInstanceAs (Decidable (_ ∧ _))

/-- The registers of `cfg` up to range `r`. Range `r + 1` is the block `blk` of 128 MiB, on a node
whose chip select 0 takes every address; the ranges after it are disabled. -/
def blockAfter (cfg : PciReg → BitVec 32) (r node blk : Nat) (q : PciReg) : BitVec 32 :=
  if q.dev = device ∧ q.func = func1 ∧ LaterRange r q.reg then
    if q.reg = 0x40 + ((r + 1) <<< 3) then BitVec.ofNat 32 (blk * 2 ^ 19 + 3)
    else if q.reg = 0x40 + ((r + 1) <<< 3) + 4 then BitVec.ofNat 32 (blk * 2 ^ 19 + 0x70000 + node)
    else 0#32
  else if q.dev = dev24 + node ∧ q.func ≠ func1 then
    if q.func = func2 ∧ q.reg = 0x40 then 1#32
    else if q.func = func2 ∧ q.reg = 0x60 then 0x1FF83FE0#32
    else 0#32
  else cfg q

section
variable {cfg : PciReg → BitVec 32} {r node blk : Nat} (hr : r < 7) (hblk : blk < 2 ^ 7)
  (hnode : node < 8)

theorem blockAfter_later {reg : Nat} (hl : LaterRange r reg) :
    blockAfter cfg r node blk ⟨bus0, device, func1, reg⟩ =
      if reg = 0x40 + ((r + 1) <<< 3) then BitVec.ofNat 32 (blk * 2 ^ 19 + 3)
      else if reg = 0x40 + ((r + 1) <<< 3) + 4 then BitVec.ofNat 32 (blk * 2 ^ 19 + 0x70000 + node)
      else 0#32 := by
  simp [blockAfter, hl]

/-- The registers of the next range's node: one chip select, no swap and no interleave. -/
theorem blockAfter_func2 (reg : Nat) :
    blockAfter cfg r node blk ⟨bus0, dev24 + node, func2, reg⟩ =
      if reg = 0x40 then 1#32 else if reg = 0x60 then 0x1FF83FE0#32 else 0#32 := by
  simp [blockAfter, func1, func2]

include hr

theorem blockAfter_earlier {i : Nat} (hi : i ≤ r) (hn : rangeNode cfg i ≠ node) :
    SameRange cfg (blockAfter cfg r node blk) i := by
  have hreg : ∀ reg, ¬LaterRange r reg →
      blockAfter cfg r node blk ⟨bus0, device, func1, reg⟩ = cfg ⟨bus0, device, func1, reg⟩ :=
    fun reg hl => by simp [blockAfter, hl]
  have hearly : ∀ off < 8, ¬LaterRange r (0x40 + (i <<< 3) + off) ∧
      ¬LaterRange r (0x40 + (i <<< 3) + off + 0x100) := by
    intro off hoff
    simp only [LaterRange, Nat.shiftLeft_eq]
    omega
  refine ⟨hreg _ (hearly 0 (by omega)).1, hreg _ (hearly 4 (by omega)).1,
    hreg _ (hearly 0 (by omega)).2, hreg _ (hearly 4 (by omega)).2, ?_, fun func reg hf => ?_⟩
  · have hl : ¬LaterRange r 0xF0 := by simp [LaterRange]
    simp [nodeHole, blockAfter, hl]
  · simp [blockAfter, hf, hn]

theorem blockAfter_disabled {i : Nat} (hi : r + 1 < i) (h8 : i < 8) :
    rangeEn (blockAfter cfg r node blk) i = false := by
  have hl : LaterRange r (0x40 + (i <<< 3)) := by
    simp only [LaterRange, Nat.shiftLeft_eq]
    omega
  rw [rangeEn, rangeBaseLow, blockAfter_later hl, if_neg, if_neg]
  · rfl
  all_goals
    simp only [Nat.shiftLeft_eq]
    omega

/-- The registers of the next range. -/
theorem blockAfter_next :
    rangeBaseLow (blockAfter cfg r node blk) (r + 1) = BitVec.ofNat 32 (blk * 2 ^ 19 + 3) ∧
    rangeLimitLow (blockAfter cfg r node blk) (r + 1) =
      BitVec.ofNat 32 (blk * 2 ^ 19 + 0x70000 + node) ∧
    blockAfter cfg r node blk ⟨bus0, device, func1, 0x40 + ((r + 1) <<< 3) + 0x100⟩ = 0#32 ∧
    blockAfter cfg r node blk ⟨bus0, device, func1, 0x40 + ((r + 1) <<< 3) + 0x104⟩ = 0#32 := by
  have hl : ∀ off, off % 0x100 < 8 → LaterRange r (0x40 + ((r + 1) <<< 3) + off) := by
    intro off hoff
    simp only [LaterRange, Nat.shiftLeft_eq]
    omega
  refine ⟨?_, ?_, ?_, ?_⟩
  · have hl0 : LaterRange r (0x40 + ((r + 1) <<< 3)) := hl 0 (by omega)
    rw [rangeBaseLow, blockAfter_later hl0, if_pos rfl]
  · rw [rangeLimitLow, blockAfter_later (hl 4 (by omega)), if_neg (by omega), if_pos rfl]
  · rw [blockAfter_later (hl 0x100 (by omega)), if_neg (by omega), if_neg (by omega)]
  · rw [blockAfter_later (hl 0x104 (by omega)), if_neg (by omega), if_neg (by omega)]

include hblk in
theorem blockAfter_base : (rangeBase (blockAfter cfg r node blk) (r + 1)).toNat = blk * 2 ^ 27 := by
  obtain ⟨hb, -, hh, -⟩ := @blockAfter_next cfg r node blk hr
  rw [rangeBase, dramBaseLong_toNat, hb, hh, BitVec.toNat_ofNat]
  simp only [BitVec.toNat_setWidth, BitVec.toNat_ofNat]
  omega

include hblk hnode in
theorem blockAfter_limit :
    (rangeLimit (blockAfter cfg r node blk) (r + 1)).toNat + 1 = (blk + 1) * 2 ^ 27 := by
  obtain ⟨-, hl, -, hh⟩ := @blockAfter_next cfg r node blk hr
  rw [rangeLimit, dramLimitLong_toNat, hl, hh, BitVec.toNat_ofNat]
  simp only [BitVec.toNat_setWidth, BitVec.toNat_ofNat]
  omega

theorem blockAfter_en : rangeEn (blockAfter cfg r node blk) (r + 1) = true ∧
    rangeIntlvEn (blockAfter cfg r node blk) (r + 1) = 0#32 := by
  obtain ⟨hb, -⟩ := @blockAfter_next cfg r node blk hr
  have hen : ∀ x : BitVec 32, (x &&& 0x00000003#32).toNat = x.toNat % 2 ^ 2 / 2 ^ 0 * 2 ^ 0 :=
    fun x => toNat_and_mask x (by omega) (by rfl)
  have hie : ∀ x : BitVec 32, (x &&& 0x00000700#32).toNat = x.toNat % 2 ^ 11 / 2 ^ 8 * 2 ^ 8 :=
    fun x => toNat_and_mask x (by omega) (by rfl)
  constructor
  · simp only [rangeEn, dramEn, hb, decide_eq_true_eq, ne_eq, ← BitVec.toNat_inj, hen,
      BitVec.toNat_ofNat]
    omega
  · rw [rangeIntlvEn, intlvField, hb, ← BitVec.toNat_inj, BitVec.toNat_ushiftRight, hie,
      BitVec.toNat_ofNat, Nat.shiftRight_eq_div_pow, BitVec.toNat_ofNat]
    omega

include hnode in
theorem blockAfter_node : rangeNode (blockAfter cfg r node blk) (r + 1) = node := by
  obtain ⟨-, hl, -⟩ := @blockAfter_next cfg r node blk hr
  have hm : ∀ x : BitVec 32, (x &&& 0x00000007#32).toNat = x.toNat % 2 ^ 3 / 2 ^ 0 * 2 ^ 0 :=
    fun x => toNat_and_mask x (by omega) (by rfl)
  rw [rangeNode, hl, hm, BitVec.toNat_ofNat]
  omega

include hblk hnode in
theorem blockAfter_matches {a : BitVec 64} :
    rangeMatches (blockAfter cfg r node blk) (r + 1) a = true ↔ a.toNat / 2 ^ 27 = blk := by
  obtain ⟨hen, hie⟩ := @blockAfter_en cfg r node blk hr
  have hb := @blockAfter_base cfg r node blk hr hblk
  have hl := @blockAfter_limit cfg r node blk hr hblk hnode
  rw [rangeMatches, hen, hie, show ∀ x, intlvMatches 0#32 x a = true from fun _ => rfl,
    Bool.true_and, Bool.and_true, inWindow_iff, hb]
  omega

include hblk hnode in
/-- What the next range locates: a channel address of channel 0 below 16 GiB. -/
theorem blockAfter_located {a : BitVec 64} (ha : a.toNat / 2 ^ 27 = blk) :
    (locatedAt (blockAfter cfg r node blk) (r + 1) a).nodeID = node ∧
    (locatedAt (blockAfter cfg r node blk) (r + 1) a).channel = 0 ∧
    (locatedAt (blockAfter cfg r node blk) (r + 1) a).channelAddrLong.toNat < 2 ^ 34 := by
  obtain ⟨hen, hie⟩ := @blockAfter_en cfg r node blk hr
  have hb := @blockAfter_base cfg r node blk hr hblk
  have hn := @blockAfter_node cfg r node blk hr hnode
  have hdct : nodeDct (blockAfter cfg r node blk) node = dctSel 0#32 0#64 := by
    simp [nodeDct, blockAfter_func2]
  have hswap : nodeSwap (blockAfter cfg r node blk) node &&& 0x1#32 = 0#32 := by
    simp [nodeSwap, blockAfter_func2]
  have hhi : hiRangeSelected (dctSel 0#32 0#64) a = false := rfl
  have hgen : (dctSel 0#32 0#64).dctGangEn = false := rfl
  refine ⟨hn, ?_, ?_⟩
  · simp only [locatedAt, hn, hie, hdct, swapRegion_off hswap, channelSelect, hhi]
    rfl
  · obtain ⟨off, hoff, hdvd, hle⟩ : ∃ off, (channelOffsetLong (dctSel 0#32 0#64)
        (nodeHole (blockAfter cfg r node blk) node)
        (rangeBase (blockAfter cfg r node blk) (r + 1)) a).toNat = off ∧ 2 ^ 23 ∣ off ∧
          off ≤ a.toNat := by
      by_cases hhole : nodeHole (blockAfter cfg r node blk) node &&& 1#32 = 0#32 ∨
          a.toNat < 2 ^ 32
      · exact ⟨_, channelOffsetLong_base hhi hhole (by omega) (by omega), by omega, by omega⟩
      · rw [not_or, Nat.not_lt] at hhole
        exact ⟨_, channelOffsetLong_hole hhi hhole.1 hhole.2, by omega, by omega⟩
    have hlin := @located_linear (blockAfter cfg r node blk) (r + 1) 0 off a (by omega)
      (by rw [hie]; rfl) (by rw [hn, hdct]; exact hoff) (by omega) hdvd hle
      (by rw [hn]; exact hswap) (by rw [hn, hdct]; exact fun hc => by cases hc.1)
    rw [hlin, squeeze_width_zero]
    unfold lineOf
    omega

include hblk hnode in
theorem blockAfter_decodes {a : BitVec 64} (ha : a.toNat / 2 ^ 27 = blk) :
    Decodes (blockAfter cfg r node blk) (r + 1) a := by
  obtain ⟨hn, hc, haddr⟩ := @blockAfter_located cfg r node blk hr hblk hnode a ha
  rw [decodes_iff, searched_found_iff]
  refine ⟨(blockAfter_matches hr hblk hnode).2 ha, 0, by omega, (csHits_iff _ _ _).2 ?_⟩
  have hbase : nodeCSBase (blockAfter cfg r node blk) node 0 0 = 1#32 := blockAfter_func2 _
  have hmask : nodeCSMask (blockAfter cfg r node blk) node 0 0 = 0x1FF83FE0#32 :=
    blockAfter_func2 _
  rw [hn, hc, CSMatches, hbase, hmask]
  refine ⟨rfl, fun i hi => ?_⟩
  -- the mask leaves only the bits from bit 29 on, which are zero
  have h29 : 29 ≤ i := by
    by_contra hlt
    have hall : ∀ i < 29, (csMaskBits 0x1FF83FE0#32).getLsbD i = true := by decide
    rw [hall i (Nat.lt_of_not_le hlt)] at hi
    cases hi
  rw [(csBits_high 1#32 h29).1, Nat.mod_eq_of_lt (by omega)]
  exact Nat.testBit_lt_two_pow (Nat.lt_of_lt_of_le (show _ < 2 ^ 29 by omega)
    (Nat.pow_le_pow_right (by omega) h29))

end

/-! ## The run -/

/-- A node that none of the ranges up to `r` uses. -/
theorem exists_free_node (cfg : PciReg → BitVec 32) {r : Nat} (hr : r < 7) :
    ∃ node < 8, ∀ i ≤ r, rangeNode cfg i ≠ node := by
  have hcard : ((Finset.range (r + 1)).image (rangeNode cfg)).card < (Finset.range 8).card := by
    have := Finset.card_image_le (s := Finset.range (r + 1)) (f := rangeNode cfg)
    rw [Finset.card_range] at this ⊢
    omega
  obtain ⟨node, h8, hfree⟩ := Finset.exists_mem_notMem_of_card_lt_card hcard
  refine ⟨node, Finset.mem_range.1 h8, fun i hi he => hfree (Finset.mem_image.2 ⟨i, ?_, he⟩)⟩
  exact Finset.mem_range.2 (Nat.lt_succ_of_le hi)

section
variable {cfg : PciReg → BitVec 32} {u : Locals} {a : BitVec 64}

/-- Once found, the address stays found. -/
theorem before_found {n m : Nat} (hnm : n ≤ m) (hf : (before cfg u a n).csFound = true) :
    (before cfg u a m).csFound = true := by
  induction m, hnm using Nat.le_induction with
  | base => exact hf
  | succ m _ ih =>
    rw [before_succ, if_pos ih]
    exact ih

/-- The first range that changes the address in passing. -/
theorem exists_first_passed (h : ¬NoPassedSwap cfg a) :
    ∃ r < 7, (∀ i < r, KeepsAddress cfg a i) ∧ ¬KeepsAddress cfg a r := by
  by_contra hno
  refine h fun r hr => ?_
  induction r using Nat.strongRecOn with
  | ind r ih =>
    by_contra hk
    exact hno ⟨r, hr, fun i hi => ih i hi (by omega), hk⟩

end

/-- **A passed swap can always mislead the loop**: the registers of the ranges up to the first one
that changes the address in passing, and of their nodes, do not exclude that the address is found
although no range decodes it. -/
theorem passedSwap_refutes {cfg : PciReg → BitVec 32} {a : BitVec 64}
    (h : ¬NoPassedSwap cfg a) :
    ∃ r < 7, ∃ cfg', (∀ i ≤ r, SameRange cfg cfg' i) ∧
      ∀ u, (decode cfg' u a).found = true ∧ ∀ i < 8, ¬Decodes cfg' i a := by
  obtain ⟨r, hr, hkeep, hk⟩ := exists_first_passed h
  simp only [KeepsAddress, Classical.not_imp] at hk
  obtain ⟨hnone, hm, hswap⟩ := hk
  obtain ⟨node, hnode, hfree⟩ := exists_free_node cfg hr
  obtain ⟨hmoved, hblk⟩ := swapRegion_moves hswap
  generalize hb : swapRegion (nodeSwap cfg (rangeNode cfg r)) a = b at hmoved hblk
  have hsame : ∀ i ≤ r, SameRange cfg (blockAfter cfg r node (b.toNat / 2 ^ 27)) i :=
    fun i hi => blockAfter_earlier hr hi (hfree i hi)
  have hdec : Decodes (blockAfter cfg r node (b.toNat / 2 ^ 27)) (r + 1) b :=
    blockAfter_decodes hr hblk hnode rfl
  have hnone' : ∀ i < 8, ¬Decodes (blockAfter cfg r node (b.toNat / 2 ^ 27)) i a := by
    intro i hi hd
    rcases Nat.lt_or_ge r i with hlt | hle
    · obtain ⟨hma, -⟩ := decodes_iff.1 hd
      rcases Nat.eq_or_lt_of_le (Nat.succ_le_of_lt hlt) with rfl | hlt
      · exact hmoved ((blockAfter_matches hr hblk hnode).1 hma).symm
      · rw [rangeMatches, blockAfter_disabled hr hlt hi] at hma
        cases hma
    · exact hnone i hle ((hsame i hle).decodes_iff.1 hd)
  generalize blockAfter cfg r node (b.toNat / 2 ^ 27) = cfg' at hsame hdec hnone'
  refine ⟨r, hr, cfg', hsame, fun u => ⟨?_, hnone'⟩⟩
  -- the loop reaches range `r` with the address, and range `r + 1` with the swapped address
  have hinv : LoopInv cfg' u a r := loopInv (by omega) fun i hi _ =>
    (hsame i (by omega)).keepsAddress (fun i' hi' => hsame i' (by omega)) (hkeep i hi)
  rcases hinv with ⟨hf, -, haddr⟩ | ⟨-, i, hi, hd, -⟩
  · have hs := hsame r (Nat.le_refl r)
    have hpass : (before cfg' u a (r + 1)).csFound = false ∧
        (before cfg' u a (r + 1)).systemAddr = b := by
      have hstep := rangeStep_cases cfg' r (before cfg' u a r)
      rw [haddr (by omega)] at hstep
      rw [before_succ, hf]
      rcases hstep with ⟨hno, -⟩ | ⟨hd, -⟩ | ⟨-, -, hfalse, hto⟩
      · rw [hs.rangeMatches, hm] at hno
        cases hno
      · exact absurd hd (hnone' r (by omega))
      · refine ⟨hfalse, hto.trans ?_⟩
        rw [hs.rangeNode, hs.nodeSwap, hb]
    have hfound : (before cfg' u a (r + 2)).csFound = true := by
      have hstep := rangeStep_cases cfg' (r + 1) (before cfg' u a (r + 1))
      rw [hpass.2] at hstep
      rw [before_succ, hpass.1]
      rcases hstep with ⟨-, hno, -⟩ | ⟨-, hfound, -⟩ | ⟨-, hno, -⟩
      · exact absurd hdec hno
      · exact hfound
      · exact absurd hdec hno
    rw [decode_before]
    exact before_found (by omega) hfound
  · exact absurd hd (hnone' i (by omega))

end Amd
