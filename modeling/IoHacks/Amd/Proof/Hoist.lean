import IoHacks.Amd.Proof.Channel

/-!
# Memory hoisting

A node with an I/O hole `[H, 2 ^ 32)` hoists the memory behind the hole above 4 GiB. The code
normalizes an address below 4 GiB by the range's base and one above by the hole offset, and never
reads the hole base, so an address of the hole is normalized like memory: it falls on the line of
its hoisted image `2 ^ 32 - H` above. `hoist_alias_iff` says that these are the only two different
lines that share a channel line.
-/

namespace Amd

open Lib Set

/-- A range on a node with an I/O hole at `H`. -/
structure HoistedRange (cfg : PciReg → BitVec 32) (r : Nat) (base limit : BitVec 64) (H : Nat) :
    Prop where
  enabled : rangeEn cfg r = true
  intlvOff : rangeIntlvEn cfg r = 0#32
  rangeBase : rangeBase cfg r = base
  baseAligned : 2 ^ 27 ∣ base.toNat
  rangeLimit : rangeLimit cfg r = limit
  limit_ge : 2 ^ 32 ≤ limit.toNat
  swapOff : nodeSwap cfg (rangeNode cfg r) &&& 0x1#32 = 0#32
  hiRngOff : (nodeDct cfg (rangeNode cfg r)).dctSelHiRngEn = false
  holeOn : nodeHole cfg (rangeNode cfg r) &&& 0x1#32 ≠ 0#32
  /-- The bits 31 to 24 of F1xF0 are those of the hole base. -/
  holeBase : (nodeHole cfg (rangeNode cfg r)).toNat / 2 ^ 24 * 2 ^ 24 = H
  base_lt : base.toNat < H
  /-- `HoleOffset`: the bits 15 to 7 of F1xF0 are the bits 31 to 23 of the hoisting offset. -/
  holeOffset : (nodeHole cfg (rangeNode cfg r)).toNat / 2 ^ 7 % 2 ^ 9 =
    (2 ^ 32 - H + base.toNat) / 2 ^ 23 % 2 ^ 9

/-- `a'` lies in the line of the hoisted image of the hole address `a`. -/
def HoleImage (H : Nat) (a a' : BitVec 64) : Prop :=
  H ≤ a.toNat ∧ a.toNat < 2 ^ 32 ∧ lineOf a' = lineOf a + (2 ^ 32 - H)

/-- The offset that an address is normalized by. -/
def hoistOffset (H : Nat) (base a : BitVec 64) : Nat :=
  if a.toNat < 2 ^ 32 then base.toNat else 2 ^ 32 - H + base.toNat

/-- What a node with the DRAM controller select `d` makes of a normalized address. -/
def nodePair (d : DctSel) (x : Nat) : Nat × Nat :=
  if d.dctSelIntLvEn = true ∧ d.dctGangEn = false then channelOf d.dctSelIntLvAddr 0 0 x
  else (0, x)

/-- Different normalized lines are different channel lines. -/
theorem nodePair_inj (d : DctSel) {x y : Nat} (hx : 64 ∣ x) (hy : 64 ∣ y)
    (h : nodePair d x = nodePair d y) : x = y := by
  unfold nodePair at h
  split at h
  · have hb := bijOn_channelOf d.dctSelIntLvAddr 0 0 (n := 2 ^ 13 * (x + y + 1))
      (Nat.dvd_mul_right _ _)
    exact hb.injOn ⟨hx, by omega⟩ ⟨hy, by omega⟩ h
  · exact (Prod.mk.inj h).2

/-- The 9 bits of `HoleOffset` hold the whole hoisting offset. -/
theorem holeOffset_field {b H : Nat} (hH : 2 ^ 24 ∣ H) (hb : 2 ^ 27 ∣ b) (hlt : b < H)
    (hle : H < 2 ^ 32) : (2 ^ 32 - H + b) / 2 ^ 23 % 2 ^ 9 * 2 ^ 23 = 2 ^ 32 - H + b := by
  omega

section
variable {cfg : PciReg → BitVec 32} {r H : Nat} {base limit : BitVec 64}
  (h : HoistedRange cfg r base limit H)
include h

theorem hoisted_hole : 2 ^ 24 ∣ H ∧ H < 2 ^ 32 := by
  have hH := h.holeBase
  have hw := (nodeHole cfg (rangeNode cfg r)).isLt
  omega

/-- The offset is a multiple of 8 MiB that does not exceed the address. -/
theorem hoistOffset_spec (a : BitVec 64) (ha : base.toNat ≤ a.toNat) :
    2 ^ 23 ∣ hoistOffset H base a ∧ hoistOffset H base a ≤ a.toNat := by
  obtain ⟨h24, hlt⟩ := hoisted_hole h
  have hba := h.baseAligned
  have hbH := h.base_lt
  unfold hoistOffset
  split <;> omega

/-- **What a hoisted range locates**: the offset is the base below 4 GiB, in the hole or not. -/
theorem hoisted_located {a : BitVec 64} (ha : base.toNat ≤ a.toNat ∧ a.toNat ≤ limit.toNat) :
    locatedPair cfg r a =
      nodePair (nodeDct cfg (rangeNode cfg r)) (lineOf a - hoistOffset H base a) := by
  have hbl : base.toNat < 2 ^ 48 := h.rangeBase ▸ rangeBase_lt cfg r
  have hll : limit.toNat < 2 ^ 48 := h.rangeLimit ▸ rangeLimit_lt cfg r
  obtain ⟨h24, hlt⟩ := hoisted_hole h
  obtain ⟨hdvd, hle⟩ := hoistOffset_spec h a ha.1
  have hhi : hiRangeSelected (nodeDct cfg (rangeNode cfg r)) a = false := by
    simp [hiRangeSelected, h.hiRngOff]
  have hoff : (channelOffsetLong (nodeDct cfg (rangeNode cfg r)) (nodeHole cfg (rangeNode cfg r))
      (Amd.rangeBase cfg r) a).toNat = hoistOffset H base a := by
    rw [h.rangeBase]
    unfold hoistOffset
    by_cases hlow : a.toNat < 2 ^ 32
    · rw [if_pos hlow]
      exact channelOffsetLong_base hhi (.inr hlow) h.baseAligned hbl
    · rw [if_neg hlow, channelOffsetLong_hole hhi h.holeOn (Nat.le_of_not_lt hlow), h.holeOffset]
      exact holeOffset_field h24 h.baseAligned h.base_lt hlt
  have hie : (rangeIntlvEn cfg r).toNat = 2 ^ 0 - 1 := by rw [h.intlvOff]; rfl
  unfold nodePair
  split
  · rename_i hen
    have hi := located_interleaved (by omega) hie hoff (by omega) hdvd hle h.swapOff hen.1 hen.2
      hhi
    rw [squeeze_width_zero, field_width_zero] at hi
    exact hi
  · rename_i hen
    have hlin := located_linear (by omega) hie hoff (by omega) hdvd hle h.swapOff
      fun hc => hen ⟨hc.1, hc.2.2⟩
    refine Prod.ext ?_ (hlin.trans squeeze_width_zero)
    simp only [locatedPair, locatedAt, swapRegion_off h.swapOff, channelSelect, hhi, h.hiRngOff]
    by_cases hg : (nodeDct cfg (rangeNode cfg r)).dctGangEn
    · simp [hg]
    · have hne : (nodeDct cfg (rangeNode cfg r)).dctSelIntLvEn = false := by
        simpa [hg] using hen
      simp [hg, hne]

/-- **Hoisting aliases exactly the hole**: two addresses of the range in different lines have the
same channel and channel address if and only if one is in the I/O hole and the other in the line
of its hoisted image. -/
theorem hoist_alias_iff {a a' : BitVec 64} (ha : base.toNat ≤ a.toNat ∧ a.toNat ≤ limit.toNat)
    (ha' : base.toNat ≤ a'.toNat ∧ a'.toNat ≤ limit.toNat) (hne : lineOf a ≠ lineOf a') :
    locatedPair cfg r a = locatedPair cfg r a' ↔ HoleImage H a a' ∨ HoleImage H a' a := by
  obtain ⟨h24, hlt⟩ := hoisted_hole h
  have hba := h.baseAligned
  have hbH := h.base_lt
  rw [hoisted_located h ha, hoisted_located h ha']
  have h64 : ∀ x : BitVec 64, base.toNat ≤ x.toNat → 64 ∣ lineOf x - hoistOffset H base x :=
    fun x hx => Nat.dvd_sub (Nat.dvd_mul_left _ _)
      (Nat.dvd_trans (Nat.pow_dvd_pow 2 (by omega : 6 ≤ 23)) (hoistOffset_spec h x hx).1)
  have hiff : nodePair (nodeDct cfg (rangeNode cfg r)) (lineOf a - hoistOffset H base a) =
      nodePair (nodeDct cfg (rangeNode cfg r)) (lineOf a' - hoistOffset H base a') ↔
      lineOf a - hoistOffset H base a = lineOf a' - hoistOffset H base a' :=
    ⟨fun he => nodePair_inj _ (h64 a ha.1) (h64 a' ha'.1) he, fun he => by rw [he]⟩
  rw [hiff]
  unfold HoleImage hoistOffset
  unfold lineOf at hne ⊢
  split <;> split <;> omega

end

/-- A node with 5 GiB from address 0 on, a hole of 1 GiB at 3 GiB and a chip select that takes
every channel address. -/
def hoistedNode : PciReg → BitVec 32 :=
  regFile [(24, 1, 0x40, 0x3#32), (24, 1, 0x44, 0x013F0000#32), (24, 1, 0xF0, 0xC0004001#32),
    (24, 2, 0x40, 0x1#32), (24, 2, 0x60, 0x1FF83FE0#32)]

theorem hoistedNode_range : HoistedRange hoistedNode 0 0#64 0x13FFFFFFF#64 0xC0000000 where
  enabled := rfl
  intlvOff := rfl
  rangeBase := rfl
  baseAligned := by decide
  rangeLimit := rfl
  limit_ge := by decide
  swapOff := rfl
  hiRngOff := rfl
  holeOn := by decide
  holeBase := by decide
  base_lt := by decide
  holeOffset := by decide

theorem hoist_alias_iff_node :
    locatedPair hoistedNode 0 0x80000000#64 = locatedPair hoistedNode 0 0x100000000#64 ↔
      HoleImage 0xC0000000 0x80000000#64 0x100000000#64 ∨
        HoleImage 0xC0000000 0x100000000#64 0x80000000#64 :=
  hoist_alias_iff hoistedNode_range ⟨by decide, by decide⟩ ⟨by decide, by decide⟩ (by decide)

/-- The first line of the hole is found on the DRAM line of the first hoisted line. -/
theorem hoist_aliases_hole :
    HoistedRange hoistedNode 0 0#64 0x13FFFFFFF#64 0xC0000000 ∧
      lineOf 0xC0000000#64 ≠ lineOf 0x100000000#64 ∧
      (decode hoistedNode default 0xC0000000#64).found = true ∧
      (decode hoistedNode default 0x100000000#64).found = true ∧
      locatedPair hoistedNode 0 0xC0000000#64 = locatedPair hoistedNode 0 0x100000000#64 :=
  ⟨hoistedNode_range, by decide, by decide, by decide, by decide⟩

end Amd
