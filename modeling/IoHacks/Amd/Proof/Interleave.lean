import IoHacks.Amd.Proof.Channel
import Mathlib.Data.Finset.Card

/-!
# Node and channel interleave

`interleave_bijOn`: `2 ^ k` ranges that interleave one window over their nodes, each node
interleaving its two channels, map the lines of the window one to one onto the lines of their
`2 ^ (k + 1)` channels; `interleave_locates` is the same of the program's own iterations
(`locatedIn`). The window's offset splits into the node's bits and the rest
(`bijOn_squeeze`), the rest into the channel and the channel address (`bijOn_channel`), and the
ranges' `IntlvSel` values number the nodes (`bijOn_sel`).
-/

namespace Amd

open Lib Set

/-- A node that interleaves its two channels over its whole memory: the region swap and the hole
are off, the controllers are not ganged and there is no high range. -/
structure InterleavedNode (cfg : PciReg → BitVec 32) (node : Nat) : Prop where
  swapOff : nodeSwap cfg node &&& 0x1#32 = 0#32
  holeOff : nodeHole cfg node &&& 0x1#32 = 0#32
  gangOff : (nodeDct cfg node).dctGangEn = false
  hiRngOff : (nodeDct cfg node).dctSelHiRngEn = false
  intLvOn : (nodeDct cfg node).dctSelIntLvEn = true

/-- `2 ^ k` enabled ranges that interleave the window `[base, limit]`. -/
structure InterleavedRanges (cfg : PciReg → BitVec 32) (k : Nat) (S : Finset Nat)
    (base limit : BitVec 64) : Prop where
  width : k ≤ 3
  ranges : ∀ r ∈ S, r < 8
  card : S.card = 2 ^ k
  enabled : ∀ r ∈ S, rangeEn cfg r = true
  rangeBase : ∀ r ∈ S, rangeBase cfg r = base
  baseAligned : 2 ^ 27 ∣ base.toNat
  rangeLimit : ∀ r ∈ S, rangeLimit cfg r = limit
  intlvEn : ∀ r ∈ S, (rangeIntlvEn cfg r).toNat = 2 ^ k - 1
  /-- The `IntlvSel` values are those below `2 ^ k`, each used once (a single range has none). -/
  intlvSel : k ≠ 0 → BijOn (fun r => (rangeIntlvSel cfg r).toNat) (S : Set Nat) (Iio (2 ^ k))
  node : ∀ r ∈ S, InterleavedNode cfg (rangeNode cfg r)

/-- The range of `S` that matches an address. -/
def matchIn (cfg : PciReg → BitVec 32) (S : Finset Nat) (a : BitVec 64) : Option Nat :=
  (List.range 8).find? fun r => decide (r ∈ S) && rangeMatches cfg r a

/-- The range of `S` that matches an address, with its channel and channel address. -/
def locateIn (cfg : PciReg → BitVec 32) (S : Finset Nat) (a : BitVec 64) :
    Option (Nat × Nat × Nat) :=
  (matchIn cfg S a).map fun r => (r, locatedPair cfg r a)

/-- What the iterations for the ranges of `S` locate for an address. -/
def locatedIn (cfg : PciReg → BitVec 32) (S : Finset Nat) (a : BitVec 64) :
    Option (Nat × Nat × Nat) :=
  (List.range 8).findSome? fun r =>
    if r ∈ S then ((locate r a).eval (DevPci.regs cfg).answer).map fun l =>
      (r, l.channel, l.channelAddrLong.toNat)
    else none

theorem locatedIn_eq (cfg : PciReg → BitVec 32) (S : Finset Nat) (a : BitVec 64) :
    locatedIn cfg S a = locateIn cfg S a := by
  rw [locateIn, matchIn, List.find?_eq_findSome?_guard, List.map_findSome?]
  refine congrArg (List.findSome? · _) (funext fun r => ?_)
  rw [eval_locate, Function.comp_apply, Option.guard]
  by_cases hr : r ∈ S
  · cases rangeMatches cfg r a <;> simp [hr, locatedPair]
  · simp [hr]

/-! ## The node number of a range -/

/-- The node number that a range of a group of `2 ^ k` answers to. -/
def sel (cfg : PciReg → BitVec 32) (k r : Nat) : Nat :=
  if k = 0 then 0 else (rangeIntlvSel cfg r).toNat

section
variable {cfg : PciReg → BitVec 32} {k : Nat} {S : Finset Nat} {base limit : BitVec 64}
  (h : InterleavedRanges cfg k S base limit)
include h

theorem bijOn_sel : BijOn (sel cfg k) (S : Set Nat) (Iio (2 ^ k)) := by
  by_cases hk : k = 0
  · subst hk
    obtain ⟨r, hr⟩ := Finset.card_eq_one.1 h.card
    have h0 : Iio (2 ^ 0) = ({sel cfg 0 r} : Set Nat) := by
      ext i
      simp [sel]
    rw [hr, Finset.coe_singleton, h0]
    exact bijOn_singleton.2 rfl
  · exact (h.intlvSel hk).congr fun r _ => (if_neg hk).symm

theorem interleaved_bounds :
    base.toNat < 2 ^ 48 ∧ limit.toNat < 2 ^ 48 ∧ 2 ^ 24 ∣ limit.toNat + 1 := by
  have hne : S.Nonempty := Finset.card_pos.1 (h.card ▸ Nat.two_pow_pos k)
  obtain ⟨r, hr⟩ := hne
  rw [← h.rangeBase r hr, ← h.rangeLimit r hr]
  exact ⟨rangeBase_lt cfg r, rangeLimit_lt cfg r, dvd_rangeLimit cfg r⟩

/-- **A range of the group matches** the lines whose node bits are its node number. -/
theorem rangeMatches_iff {r : Nat} (hr : r ∈ S) {a : BitVec 64} (ha : a ∈ lines base limit) :
    rangeMatches cfg r a = true ↔ sel cfg k r = field 12 k (a.toNat - base.toNat) := by
  obtain ⟨hb, hl, -⟩ := ha
  have hfield : field 12 k (a.toNat - base.toNat) = a.toNat / 2 ^ 12 % 2 ^ k := by
    obtain ⟨c, hc⟩ := h.baseAligned
    have hk := h.width
    have hp : 2 ^ 15 = 2 ^ k * 2 ^ (15 - k) := by rw [← Nat.pow_add]; congr 1; omega
    have he : a.toNat / 2 ^ 12 = (a.toNat - base.toNat) / 2 ^ 12 + 2 ^ k * (2 ^ (15 - k) * c) := by
      rw [← Nat.mul_assoc, ← hp]
      omega
    rw [field, he, Nat.add_mul_mod_self_left]
  have hand : (((a >>> 12) &&& (rangeIntlvEn cfg r).setWidth 64)).toNat =
      a.toNat / 2 ^ 12 % 2 ^ k := by
    have hen := h.intlvEn r hr
    rw [BitVec.toNat_and, BitVec.toNat_setWidth, hen, BitVec.toNat_ushiftRight,
      Nat.shiftRight_eq_div_pow, Nat.mod_eq_of_lt, Nat.and_two_pow_sub_one_eq_mod]
    have := (rangeIntlvEn cfg r).isLt
    omega
  rw [hfield, ← hand]
  unfold rangeMatches
  rw [h.enabled r hr, h.rangeBase r hr, h.rangeLimit r hr, inWindow_iff.2 ⟨hb, hl⟩]
  simp only [Bool.true_and, intlvMatches, Bool.not_eq_true', Bool.and_eq_false_iff,
    decide_eq_false_iff_not, ne_eq, not_not, sel]
  have hen := h.intlvEn r hr
  by_cases hk : k = 0
  · subst hk
    have h0 : rangeIntlvEn cfg r = 0#32 := BitVec.eq_of_toNat_eq hen
    rw [if_pos rfl, hand, Nat.pow_zero, Nat.mod_one]
    exact ⟨fun _ => rfl, fun _ => .inl h0⟩
  · have hne : ¬rangeIntlvEn cfg r = 0#32 := fun h0 => by
      rw [h0] at hen
      have := Nat.pow_le_pow_right (n := 2) (by omega) (show 1 ≤ k by omega)
      simp only [BitVec.toNat_ofNat, Nat.zero_mod] at hen
      omega
    have hw := (rangeIntlvSel cfg r).isLt
    rw [if_neg hk, or_iff_right hne, ← BitVec.toNat_inj, BitVec.toNat_setWidth,
      Nat.mod_eq_of_lt (by omega)]

theorem matches_unique {r r' : Nat} (hr : r ∈ S) (hr' : r' ∈ S) {a : BitVec 64}
    (ha : a ∈ lines base limit) (hm : rangeMatches cfg r a = true)
    (hm' : rangeMatches cfg r' a = true) : r = r' :=
  (bijOn_sel h).injOn hr hr'
    (((rangeMatches_iff h hr ha).1 hm).trans ((rangeMatches_iff h hr' ha).1 hm').symm)

/-- **Exactly one range of the group matches** a line of the window. -/
theorem existsUnique_matches {a : BitVec 64} (ha : a ∈ lines base limit) :
    ∃! r, r ∈ S ∧ rangeMatches cfg r a = true := by
  obtain ⟨r, hr, hs⟩ := (bijOn_sel h).surjOn (show field 12 k _ ∈ Iio (2 ^ k) from field_lt)
  refine ⟨r, ⟨hr, (rangeMatches_iff h hr ha).2 hs⟩, fun r' ⟨hr', hm'⟩ => ?_⟩
  exact matches_unique h hr' hr ha hm' ((rangeMatches_iff h hr ha).2 hs)

theorem matchIn_eq {r : Nat} (hr : r ∈ S) {a : BitVec 64} (ha : a ∈ lines base limit)
    (hm : rangeMatches cfg r a = true) : matchIn cfg S a = some r := by
  have hp : (decide (r ∈ S) && rangeMatches cfg r a) = true := by simp [hr, hm]
  cases hf : matchIn cfg S a with
  | none =>
    have := List.find?_eq_none.1 hf r (List.mem_range.2 (h.ranges r hr))
    exact absurd hp this
  | some r' =>
    have hq := List.find?_some hf
    simp only [Bool.and_eq_true, decide_eq_true_eq] at hq
    rw [matches_unique h hq.1 hr ha hq.2 hm]

/-! ## The bijection -/

/-- What the matching range locates, by the offset into the window. -/
theorem located_eq {r : Nat} (hr : r ∈ S) {a : BitVec 64} (ha : a ∈ lines base limit) :
    locatedPair cfg r a =
      channelOf (nodeDct cfg (rangeNode cfg r)).dctSelIntLvAddr k
        (field 12 k (a.toNat - base.toNat)) (squeeze 12 k (a.toNat - base.toNat)) := by
  obtain ⟨hb, hl, h64⟩ := ha
  obtain ⟨hbl, hll, -⟩ := interleaved_bounds h
  have hnode := h.node r hr
  have hhi : hiRangeSelected (nodeDct cfg (rangeNode cfg r)) a = false := by
    simp [hiRangeSelected, hnode.hiRngOff]
  have hoff : (channelOffsetLong (nodeDct cfg (rangeNode cfg r)) (nodeHole cfg (rangeNode cfg r))
      (rangeBase cfg r) a).toNat = base.toNat := by
    rw [h.rangeBase r hr]
    exact channelOffsetLong_base hhi (.inl hnode.holeOff) h.baseAligned hbl
  rw [← lineOf_eq h64]
  exact located_interleaved h.width (h.intlvEn r hr) hoff (by omega)
    (Nat.dvd_trans (Nat.pow_dvd_pow 2 (by omega)) h.baseAligned) hb hnode.swapOff hnode.intLvOn
    hnode.gangOff hhi

/-- The lines of the window are those of the channels. -/
theorem bijOn_locateIn :
    BijOn (locateIn cfg S) (lines base limit)
      (some '' ((S : Set Nat) ×ˢ (Iio 2 ×ˢ
        aligned 6 ((limit.toNat + 1 - base.toNat) / 2 ^ (k + 1))))) := by
  obtain ⟨-, hlim, hend⟩ := interleaved_bounds h
  have hk := h.width
  have hba := h.baseAligned
  have hN : 2 ^ 24 ∣ limit.toNat + 1 - base.toNat := Nat.dvd_sub hend (by omega)
  generalize hNe : limit.toNat + 1 - base.toNat = N at hN
  -- the range of every node number
  have hsel := bijOn_sel h
  have hinv := hsel.invOn_invFunOn
  have hto := hsel.surjOn.mapsTo_invFunOn
  generalize Function.invFunOn (sel cfg k) (S : Set Nat) = rangeOf at hinv hto
  have hrange : BijOn rangeOf (Iio (2 ^ k)) (S : Set Nat) := hinv.symm.bijOn hto hsel.mapsTo
  have hnode : BijOn (fun x => (rangeOf (field 12 k x), squeeze 12 k x)) (aligned 6 N)
      ((S : Set Nat) ×ˢ aligned 6 (N / 2 ^ k)) :=
    (hrange.prodMap (bijOn_id _)).comp (bijOn_squeeze (by omega)
      (Nat.dvd_trans (Nat.pow_dvd_pow 2 (by omega)) hN))
  have hdvd : 2 ^ 13 ∣ N / 2 ^ k := by
    refine Nat.dvd_div_of_mul_dvd (Nat.dvd_trans ?_ hN)
    rw [← Nat.pow_add]
    exact Nat.pow_dvd_pow 2 (by omega)
  have hchan := bijOn_nest hnode fun r _ =>
    bijOn_channelOf (nodeDct cfg (rangeNode cfg r)).dctSelIntLvAddr k (sel cfg k r) hdvd
  have hoff := (bijOn_sub (j := 6) (Nat.dvd_trans (Nat.pow_dvd_pow 2 (by omega)) hba)).comp
    (bijOn_lines base hlim)
  rw [hNe] at hoff
  have hall := hchan.comp hoff
  rw [Nat.div_div_eq_div_mul, ← Nat.pow_succ] at hall
  refine ((Option.some_injective _).injOn.bijOn_image.comp hall).congr fun a ha => ?_
  have hr : rangeOf (field 12 k (a.toNat - base.toNat)) ∈ S := hto field_lt
  have hs : sel cfg k (rangeOf (field 12 k (a.toNat - base.toNat))) =
      field 12 k (a.toNat - base.toNat) := hinv.2 field_lt
  simp only [locateIn, matchIn_eq h hr ha ((rangeMatches_iff h hr ha).2 hs), Option.map_some,
    located_eq h hr ha, Function.comp_apply, hs]

/-- **Interleaving loses no memory and duplicates none**: exactly one range of the group matches
a line of the window, and (range, channel, channel address) is a bijection from the lines of the
window onto the lines of the `2 ^ (k + 1)` channels. -/
theorem interleave_bijOn :
    (∀ a ∈ lines base limit, ∃! r, r ∈ S ∧ rangeMatches cfg r a = true) ∧
    BijOn (locateIn cfg S) (lines base limit)
      (some '' ((S : Set Nat) ×ˢ (Iio 2 ×ˢ
        aligned 6 ((limit.toNat + 1 - base.toNat) / 2 ^ (k + 1))))) :=
  ⟨fun _ ha => existsUnique_matches h ha, bijOn_locateIn h⟩

/-- The same of the program: exactly one iteration of the group goes on to the search, and the
iterations locate every line of the channels once. -/
theorem interleave_locates :
    (∀ a ∈ lines base limit,
      ∃! r, r ∈ S ∧ ((locate r a).eval (DevPci.regs cfg).answer).isSome = true) ∧
    BijOn (locatedIn cfg S) (lines base limit)
      (some '' ((S : Set Nat) ×ˢ (Iio 2 ×ˢ
        aligned 6 ((limit.toNat + 1 - base.toNat) / 2 ^ (k + 1))))) := by
  refine ⟨fun a ha => ?_, (bijOn_locateIn h).congr fun a _ => (locatedIn_eq cfg S a).symm⟩
  simp only [eval_locate_isSome]
  exact existsUnique_matches h ha

end

/-- Ranges 0 and 1 interleave the first 128 MiB over the nodes 0 and 1; node 0 selects its
channel by the bit above the node bit, node 1 by the hash with bit 9. -/
def twoNodes : PciReg → BitVec 32 :=
  regFile [(24, 1, 0x40, 0x103#32), (24, 1, 0x44, 0x00070000#32), (24, 1, 0x48, 0x103#32),
    (24, 1, 0x4C, 0x00070101#32), (24, 2, 0x110, 0x44#32), (25, 2, 0x110, 0xC4#32)]

theorem twoNodes_interleaved :
    InterleavedRanges twoNodes 1 {0, 1} 0#64 0x7FFFFFF#64 where
  width := by decide
  ranges := by decide
  card := by decide
  enabled := by decide
  rangeBase := by decide
  baseAligned := by decide
  rangeLimit := by decide
  intlvEn := by decide
  intlvSel _ := by
    have h0 : (rangeIntlvSel twoNodes 0).toNat = 0 := by decide
    have h1 : (rangeIntlvSel twoNodes 1).toNat = 1 := by decide
    refine ⟨fun r hr => ?_, fun r hr r' hr' he => ?_, fun i hi => ?_⟩
    · simp only [Finset.coe_insert, Finset.coe_singleton, mem_insert_iff, mem_singleton_iff] at hr
      rcases hr with rfl | rfl <;> simp [h0, h1]
    · simp only [Finset.coe_insert, Finset.coe_singleton, mem_insert_iff,
        mem_singleton_iff] at hr hr'
      rcases hr with rfl | rfl <;> rcases hr' with rfl | rfl <;> simp_all
    · obtain rfl | rfl : i = 0 ∨ i = 1 := by
        have : i < 2 := hi
        omega
      · exact ⟨0, by simp, h0⟩
      · exact ⟨1, by simp, h1⟩
  node := by
    intro r hr
    simp only [Finset.mem_insert, Finset.mem_singleton] at hr
    rcases hr with rfl | rfl <;> exact ⟨by decide, by decide, by decide, by decide, by decide⟩

theorem interleave_bijOn_twoNodes :
    (∀ a ∈ lines 0#64 0x7FFFFFF#64,
      ∃! r, r ∈ ({0, 1} : Finset Nat) ∧ rangeMatches twoNodes r a = true) ∧
    BijOn (locateIn twoNodes {0, 1}) (lines 0#64 0x7FFFFFF#64)
      (some '' ((({0, 1} : Finset Nat) : Set Nat) ×ˢ (Iio 2 ×ˢ
        aligned 6 (((0x7FFFFFF#64).toNat + 1 - (0#64).toNat) / 2 ^ (1 + 1))))) :=
  interleave_bijOn twoNodes_interleaved

end Amd
