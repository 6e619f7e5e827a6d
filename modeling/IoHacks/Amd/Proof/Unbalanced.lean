import IoHacks.Amd.Proof.Channel

/-!
# Unbalanced channels

A node whose channels have different sizes interleaves its memory below `D` and gives the memory
from `D` on to the channel `DctSelHi` alone. `unbalanced_bijOn`: the map from the lines of the
range to (channel, channel address) is a bijection, channel `DctSelHi` getting its half of the low
part with the high part above it, the other channel the other half of the low part.
`unbalanced_locates` is the same of the program's own iteration.
-/

namespace Amd

open Lib Set

/-- A range on a node that interleaves its channels below the address `D`. -/
structure UnbalancedRange (cfg : PciReg → BitVec 32) (r : Nat) (base limit : BitVec 64) (D : Nat) :
    Prop where
  enabled : rangeEn cfg r = true
  intlvOff : rangeIntlvEn cfg r = 0#32
  rangeBase : rangeBase cfg r = base
  baseAligned : 2 ^ 27 ∣ base.toNat
  rangeLimit : rangeLimit cfg r = limit
  swapOff : nodeSwap cfg (rangeNode cfg r) &&& 0x1#32 = 0#32
  holeOff : nodeHole cfg (rangeNode cfg r) &&& 0x1#32 = 0#32
  gangOff : (nodeDct cfg (rangeNode cfg r)).dctGangEn = false
  hiRngOn : (nodeDct cfg (rangeNode cfg r)).dctSelHiRngEn = true
  intLvOn : (nodeDct cfg (rangeNode cfg r)).dctSelIntLvEn = true
  /-- `DctSelBaseAddr`: the bits 31 to 11 of F2x110 are the address bits 47 to 27. -/
  selBase : (cfg ⟨bus0, dev24 + rangeNode cfg r, func2, 0x110⟩).toNat / 2 ^ 11 * 2 ^ 27 = D
  base_lt : base.toNat < D
  le_limit : D ≤ limit.toNat
  /-- `DctSelBaseOffset`: the bits 31 to 10 of F2x114 are the address bits 47 to 26. -/
  selOffset : (cfg ⟨bus0, dev24 + rangeNode cfg r, func2, 0x114⟩).toNat / 2 ^ 10 * 2 ^ 26 =
    D - (D - base.toNat) / 2

/-- The channel `DctSelHi` of a node. -/
def nodeHi (cfg : PciReg → BitVec 32) (node : Nat) : Nat := (nodeDct cfg node).dctSelHi.toNat

theorem nodeHi_lt (cfg : PciReg → BitVec 32) (node : Nat) : nodeHi cfg node < 2 := by
  have h : ∀ x : BitVec 32, (x &&& 1#32).toNat < 2 := fun x => by
    rw [BitVec.toNat_and]
    exact Nat.and_lt_two_pow _ (n := 1) (by decide)
  exact h _

/-- The high range starts at the address of `DctSelBaseAddr`. -/
theorem hiRangeSelected_iff {cfg : PciReg → BitVec 32} {node : Nat} {a : BitVec 64}
    (hgang : (nodeDct cfg node).dctGangEn = false)
    (hon : (nodeDct cfg node).dctSelHiRngEn = true) :
    hiRangeSelected (nodeDct cfg node) a = true ↔
      (cfg ⟨bus0, dev24 + node, func2, 0x110⟩).toNat / 2 ^ 11 * 2 ^ 27 ≤ a.toNat := by
  unfold hiRangeSelected
  rw [hgang, hon]
  have hm : ∀ x : BitVec 32, (x &&& 0xFFFFF800#32).toNat = x.toNat % 2 ^ 32 / 2 ^ 11 * 2 ^ 11 :=
    fun x => toNat_and_mask x (by omega) (by rfl)
  have hlt := (cfg ⟨bus0, dev24 + node, func2, 0x110⟩).isLt
  simp only [nodeDct, dctSel, Bool.not_false, Bool.true_and, decide_eq_true_eq, BitVec.le_def,
    BitVec.toNat_setWidth, BitVec.toNat_ushiftRight, Nat.shiftRight_eq_div_pow, hm]
  omega

theorem dctSelBaseOffsetLong_toNat (cfg : PciReg → BitVec 32) (node : Nat) :
    (nodeDct cfg node).dctSelBaseOffsetLong.toNat =
      (cfg ⟨bus0, dev24 + node, func2, 0x114⟩).toNat / 2 ^ 10 * 2 ^ 26 := by
  have hlt := (cfg ⟨bus0, dev24 + node, func2, 0x114⟩).isLt
  have hm : ∀ x : BitVec 64, (x &&& 0xFFFFFC00#64).toNat = x.toNat % 2 ^ 32 / 2 ^ 10 * 2 ^ 10 :=
    fun x => toNat_and_mask x (by omega) (by rfl)
  simp only [nodeDct, dctSel, BitVec.toNat_shiftLeft, Nat.shiftLeft_eq, hm, BitVec.toNat_setWidth]
  omega

/-! ## Over the naturals -/

/-- The channel and the channel address of the address `x`: interleaved below `D`, linear in
channel `hi` from `D` on. -/
def unbalancedMap (m : BitVec 32) (hi D base x : Nat) : Nat × Nat :=
  if x < D then channelOf m 0 0 (x - base) else (hi, x - (D - (D - base) / 2))

/-- What the two channels receive. -/
def unbalancedLines (hi D : Nat) (base limit : BitVec 64) : Set (Nat × Nat) :=
  {p | p.1 < 2 ∧ p.2 ∈ aligned 6
    (if p.1 = hi then (D - base.toNat) / 2 + (limit.toNat + 1 - D) else (D - base.toNat) / 2)}

section
variable (m : BitVec 32) (hi : Nat) {D base : Nat} (hB : 2 ^ 27 ∣ base) (hD : 2 ^ 27 ∣ D)
  (hlt : base < D)
include hB hD

/-- Both channels receive half of the low part. -/
theorem bijOn_lowPart : BijOn (unbalancedMap m hi D base) {x | 2 ^ 6 ∣ x ∧ base ≤ x ∧ x < D}
    (Iio 2 ×ˢ aligned 6 ((D - base) / 2)) :=
  ((bijOn_channelOf m 0 0 (by omega)).comp (bijOn_sub (by omega))).congr fun _ hx =>
    (if_pos hx.2.2).symm

include hlt

/-- The high part follows in channel `hi`. -/
theorem bijOn_highPart (n : Nat) : BijOn (unbalancedMap m hi D base) {x | 2 ^ 6 ∣ x ∧ D ≤ x ∧ x < n}
    {p | p.1 = hi ∧ 2 ^ 6 ∣ p.2 ∧ (D - base) / 2 ≤ p.2 ∧ p.2 < (D - base) / 2 + (n - D)} := by
  have hp : ∀ x, D ≤ x → unbalancedMap m hi D base x = (hi, x - (D - (D - base) / 2)) :=
    fun x hx => if_neg (by omega)
  refine ⟨fun x ⟨h64, hx, hl⟩ => ?_, fun x ⟨_, hx, _⟩ y ⟨_, hy, _⟩ he => ?_,
    fun ⟨c, z⟩ ⟨hc, h64, hz, hl⟩ => ?_⟩
  · rw [hp x hx]
    exact ⟨rfl, by omega, by omega, by omega⟩
  · rw [hp x hx, hp y hy, Prod.mk.injEq] at he
    omega
  · refine ⟨z + (D - (D - base) / 2), ⟨by omega, by omega, by omega⟩, ?_⟩
    rw [hp _ (by omega), Nat.add_sub_cancel]
    exact Prod.ext hc.symm rfl

end

theorem bijOn_unbalancedMap (m : BitVec 32) {hi D : Nat} {base limit : BitVec 64}
    (hB : 2 ^ 27 ∣ base.toNat) (hD : 2 ^ 27 ∣ D) (hlt : base.toNat < D) (hhi : hi < 2)
    (hle : D ≤ limit.toNat) :
    BijOn (unbalancedMap m hi D base.toNat)
      {x | 2 ^ 6 ∣ x ∧ base.toNat ≤ x ∧ x < limit.toNat + 1} (unbalancedLines hi D base limit) := by
  have hboth := bijOn_beside (bijOn_lowPart m hi hB hD)
    (bijOn_highPart m hi hB hD hlt (limit.toNat + 1))
    fun p ⟨_, hp⟩ ⟨_, _, hn, _⟩ => Nat.not_lt.2 hn hp.2
  convert hboth using 1
  · -- the low and the high part are the range
    ext x
    simp only [mem_union, mem_ofPred_eq]
    omega
  · -- the halves of the low part, with the high part above one of them
    ext ⟨c, z⟩
    simp only [mem_union, mem_prod, mem_Iio, aligned, unbalancedLines, mem_ofPred_eq]
    split <;> omega

/-! ## The range -/

section
variable {cfg : PciReg → BitVec 32} {r D : Nat} {base limit : BitVec 64}
  (h : UnbalancedRange cfg r base limit D)
include h

theorem unbalanced_bounds : base.toNat < 2 ^ 48 ∧ limit.toNat < 2 ^ 48 := by
  rw [← h.rangeBase, ← h.rangeLimit]
  exact ⟨rangeBase_lt cfg r, rangeLimit_lt cfg r⟩

theorem unbalanced_matches {a : BitVec 64} (ha : a ∈ lines base limit) :
    rangeMatches cfg r a = true := by
  unfold rangeMatches
  rw [h.enabled, h.rangeBase, h.rangeLimit, inWindow_iff.2 ⟨ha.1, ha.2.1⟩, h.intlvOff]
  rfl

theorem unbalanced_intlvEn : (rangeIntlvEn cfg r).toNat = 2 ^ 0 - 1 := by
  rw [h.intlvOff]
  rfl

/-- The low part: its two channels are interleaved. -/
theorem unbalanced_low {a : BitVec 64} (ha : a ∈ lines base limit) (hlow : a.toNat < D) :
    locatedPair cfg r a =
      channelOf (nodeDct cfg (rangeNode cfg r)).dctSelIntLvAddr 0 0 (a.toNat - base.toNat) := by
  obtain ⟨hbl, hll⟩ := unbalanced_bounds h
  obtain ⟨hb, hl, h64⟩ := ha
  have hhi : hiRangeSelected (nodeDct cfg (rangeNode cfg r)) a = false := by
    rw [Bool.eq_false_iff, ne_eq, hiRangeSelected_iff h.gangOff h.hiRngOn, h.selBase]
    omega
  have hoff : (channelOffsetLong (nodeDct cfg (rangeNode cfg r)) (nodeHole cfg (rangeNode cfg r))
      (Amd.rangeBase cfg r) a).toNat = base.toNat := by
    rw [h.rangeBase]
    exact channelOffsetLong_base hhi (.inl h.holeOff) h.baseAligned hbl
  have hi := located_interleaved (by omega) (unbalanced_intlvEn h) hoff (by omega)
    (Nat.dvd_trans (Nat.pow_dvd_pow 2 (by omega)) h.baseAligned) hb h.swapOff h.intLvOn h.gangOff
    hhi
  rw [squeeze_width_zero, field_width_zero, lineOf_eq h64] at hi
  exact hi

/-- The high part: it follows the low part in channel `DctSelHi`. -/
theorem unbalanced_high {a : BitVec 64} (ha : a ∈ lines base limit) (hhigh : D ≤ a.toNat) :
    locatedPair cfg r a =
      (nodeHi cfg (rangeNode cfg r), a.toNat - (D - (D - base.toNat) / 2)) := by
  obtain ⟨hbl, hll⟩ := unbalanced_bounds h
  obtain ⟨hb, hl, h64⟩ := ha
  have hba := h.baseAligned
  have hD := h.selBase
  have hblt := h.base_lt
  have hhi : hiRangeSelected (nodeDct cfg (rangeNode cfg r)) a = true := by
    rw [hiRangeSelected_iff h.gangOff h.hiRngOn, h.selBase]
    exact hhigh
  have hoff : (channelOffsetLong (nodeDct cfg (rangeNode cfg r)) (nodeHole cfg (rangeNode cfg r))
      (Amd.rangeBase cfg r) a).toNat = D - (D - base.toNat) / 2 := by
    unfold channelOffsetLong
    have hn : ¬(nodeHole cfg (rangeNode cfg r) &&& 1#32 ≠ 0#32) := fun hne => hne h.holeOff
    simp only [hhi, ↓reduceIte, holeEn_eq, hn, false_and, and_false]
    rw [dctSelBaseOffsetLong_toNat, h.selOffset]
  have hlin := located_linear (by omega) (unbalanced_intlvEn h) hoff (by omega) (by omega)
    (by omega) h.swapOff (by simp [hhi])
  rw [lineOf_eq h64] at hlin
  refine Prod.ext ?_ (hlin.trans squeeze_width_zero)
  simp only [locatedPair, locatedAt, swapRegion_off h.swapOff, channelSelect, h.gangOff, hhi]
  rfl

/-- What the range locates, over the naturals. -/
theorem unbalanced_located {a : BitVec 64} (ha : a ∈ lines base limit) :
    locatedPair cfg r a =
      unbalancedMap (nodeDct cfg (rangeNode cfg r)).dctSelIntLvAddr (nodeHi cfg (rangeNode cfg r)) D
        base.toNat a.toNat := by
  unfold unbalancedMap
  split
  · rename_i hlow
    exact unbalanced_low h ha hlow
  · rename_i hlow
    exact unbalanced_high h ha (Nat.le_of_not_lt hlow)

/-- The lines of the range are those of the channels. -/
theorem bijOn_locatedPair :
    BijOn (locatedPair cfg r) (lines base limit)
      (unbalancedLines (nodeHi cfg (rangeNode cfg r)) D base limit) := by
  have hD : 2 ^ 27 ∣ D := by
    rw [← h.selBase]
    exact Nat.dvd_mul_left _ _
  have hmap := bijOn_unbalancedMap (nodeDct cfg (rangeNode cfg r)).dctSelIntLvAddr h.baseAligned hD
    h.base_lt (nodeHi_lt cfg (rangeNode cfg r)) h.le_limit
  exact (hmap.comp (bijOn_lines base (unbalanced_bounds h).2)).congr fun a ha =>
    (unbalanced_located h ha).symm

/-- **Unbalanced channels never collide**: every line of the range has a channel line of its own,
channel `DctSelHi` receives exactly the lines below `(D - B) / 2 + (L + 1 - D)` and the other
channel those below `(D - B) / 2`. -/
theorem unbalanced_bijOn :
    (∀ a ∈ lines base limit, rangeMatches cfg r a = true) ∧
    BijOn (locatedPair cfg r) (lines base limit)
      (unbalancedLines (nodeHi cfg (rangeNode cfg r)) D base limit) :=
  ⟨fun _ ha => unbalanced_matches h ha, bijOn_locatedPair h⟩

/-- The same of the program: the iteration for the range locates every line of the channels once. -/
theorem unbalanced_locates :
    BijOn (fun a => ((locate r a).eval (DevPci.regs cfg).answer).map fun l =>
        (l.channel, l.channelAddrLong.toNat)) (lines base limit)
      (some '' unbalancedLines (nodeHi cfg (rangeNode cfg r)) D base limit) := by
  refine ((Option.some_injective _).injOn.bijOn_image.comp (bijOn_locatedPair h)).congr
    fun a ha => ?_
  rw [eval_locate, if_pos (unbalanced_matches h ha)]
  rfl

end

/-- The first 256 MiB on node 0: the first 128 MiB are interleaved, the rest is in channel 1. -/
def unbalancedNode : PciReg → BitVec 32 :=
  regFile [(24, 1, 0x40, 0x3#32), (24, 1, 0x44, 0x000F0000#32), (24, 2, 0x110, 0x807#32),
    (24, 2, 0x114, 0x400#32)]

theorem unbalancedNode_range :
    UnbalancedRange unbalancedNode 0 0#64 0xFFFFFFF#64 0x8000000 where
  enabled := rfl
  intlvOff := rfl
  rangeBase := rfl
  baseAligned := by decide
  rangeLimit := rfl
  swapOff := rfl
  holeOff := rfl
  gangOff := rfl
  hiRngOn := rfl
  intLvOn := rfl
  selBase := by decide
  base_lt := by decide
  le_limit := by decide
  selOffset := by decide

theorem unbalanced_bijOn_node :
    (∀ a ∈ lines 0#64 0xFFFFFFF#64, rangeMatches unbalancedNode 0 a = true) ∧
    BijOn (locatedPair unbalancedNode 0) (lines 0#64 0xFFFFFFF#64)
      (unbalancedLines (nodeHi unbalancedNode (rangeNode unbalancedNode 0)) 0x8000000 0#64
        0xFFFFFFF#64) :=
  unbalanced_bijOn unbalancedNode_range

end Amd
