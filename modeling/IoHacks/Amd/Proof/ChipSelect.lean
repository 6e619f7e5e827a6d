import IoHacks.Amd.Registers
import IoHacks.Lib.Mask

/-!
# The chip-select search

A chip select matches a channel address that agrees with its base on every bit that its mask does
not cover (`CSMatches`). The code narrows the channel address to a `uint32_t` before it compares,
so it finds the chip selects that match the channel address modulo 2^40 (`csHits_iff`): the search
is exact (`SearchExact`) below 1 TiB, and above it only where no chip select matches the narrowed
address (`search_exact_iff`). The spare rank changes `CS` alone, in one search
(`rangeStep_sparing`) and in a whole decode (`decode_sparing`).
-/

namespace Amd

open Lib

/-! ## One chip select -/

def csBaseBits (csBase : BitVec 32) : BitVec 32 := csBase &&& 0x1FF83FE0#32

def csMaskBits (csMask : BitVec 32) : BitVec 32 := (csMask ||| 0x0007C01F#32) &&& 0x1FFFFFFF#32

/-- The chip select `c` is enabled, and the channel address `addr` agrees with its base on every
bit from bit 8 on that its mask does not cover. -/
def CSMatches (cfg : PciReg → BitVec 32) (node channel addr c : Nat) : Prop :=
  (nodeCSBase cfg node channel c).getLsbD 0 = true ∧
    ∀ i, (csMaskBits (nodeCSMask cfg node channel c)).getLsbD i = false →
      (addr / 2 ^ 8).testBit i = (csBaseBits (nodeCSBase cfg node channel c)).getLsbD i

/-- F3xB0 marks the swap of the channel as done, with `c` as its `BadDramCs`. -/
def Spared (cfg : PciReg → BitVec 32) (node channel c : Nat) : Prop :=
  (nodeSpare cfg node).getLsbD (if channel = 0 then 1 else 3) = true ∧
    (nodeSpare cfg node).toNat / 2 ^ (if channel = 0 then 4 else 8) % 2 ^ 3 = c

instance (cfg : PciReg → BitVec 32) (node channel c : Nat) :
    Decidable (Spared cfg node channel c) := inferInstanceAs (Decidable (_ ∧ _))

/-- Bits 29 to 31 of a base and of a mask are zero. -/
theorem csBits_high (x : BitVec 32) {i : Nat} (hi : 29 ≤ i) :
    (csBaseBits x).getLsbD i = false ∧ (csMaskBits x).getLsbD i = false := by
  have h : ∀ y z : BitVec 32, z.toNat < 2 ^ 29 → (y &&& z).getLsbD i = false := fun y z hz => by
    rw [BitVec.getLsbD_and, ← BitVec.testBit_toNat z,
      Nat.testBit_lt_two_pow (Nat.lt_of_lt_of_le hz (Nat.pow_le_pow_right (by omega) hi)),
      Bool.and_false]
  exact ⟨h _ _ (by decide), h _ _ (by decide)⟩

/-- A flag test of the source. -/
theorem flag_iff (x : BitVec 32) : x &&& 1#32 ≠ 0#32 ↔ x.getLsbD 0 = true := by
  rw [BitVec.and_one_eq_setWidth_ofBool_getLsbD]
  cases x.getLsbD 0 <;> decide

/-- **The chip-select test** compares the bits that the mask does not cover. -/
theorem csHit_iff (csBase csMask inputAddr : BitVec 32) :
    csHit csBase csMask inputAddr = true ↔ csBase.getLsbD 0 = true ∧
      ∀ i, (csMaskBits csMask).getLsbD i = false →
        inputAddr.getLsbD i = (csBaseBits csBase).getLsbD i := by
  have hcmp : inputAddr &&& ~~~csMaskBits csMask = csBaseBits csBase &&& ~~~csMaskBits csMask ↔ _ :=
    and_not_eq_iff
  rw [← flag_iff, ← hcmp]
  simp [csHit, csMaskBits, csBaseBits]

/-- The code's test is the match of the channel address modulo 2^40. -/
theorem csHits_iff (cfg : PciReg → BitVec 32) (l : Located) (c : Nat) :
    csHits cfg l c = true ↔
      CSMatches cfg l.nodeID l.channel (l.channelAddrLong.toNat % 2 ^ 40) c := by
  have haddr : l.inputAddr.toNat = l.channelAddrLong.toNat % 2 ^ 40 / 2 ^ 8 := by
    simp only [Located.inputAddr, BitVec.toNat_setWidth, BitVec.toNat_ushiftRight,
      Nat.shiftRight_eq_div_pow]
    omega
  unfold csHits CSMatches
  rw [csHit_iff, ← haddr]
  rfl

/-- No chip select matches a channel address of 128 GiB or more. -/
theorem not_csMatches {cfg : PciReg → BitVec 32} {node channel addr : Nat} (h : 2 ^ 37 ≤ addr)
    (c : Nat) : ¬CSMatches cfg node channel addr c := by
  rintro ⟨-, hbits⟩
  obtain ⟨i, hi, hbit⟩ :=
    Nat.exists_ge_and_testBit_of_ge_two_pow (show 2 ^ 29 ≤ addr / 2 ^ 8 by omega)
  obtain ⟨hbase, hmask⟩ := And.intro (csBits_high (nodeCSBase cfg node channel c) hi).1
    (csBits_high (nodeCSMask cfg node channel c) hi).2
  rw [hbits i hmask, hbase] at hbit
  cases hbit

/-- `CS` after a hit. -/
theorem spareRank_eq (cfg : PciReg → BitVec 32) (node channel c : Nat) :
    spareRank channel c (nodeSpare cfg node) =
      if Spared cfg node channel c then (if channel = 0 then ch0SpareRank else ch1SpareRank)
      else c := by
  have hdone : ∀ (x : BitVec 32) (i : Nat), (x >>> i) &&& 1#32 ≠ 0#32 ↔ x.getLsbD i = true :=
    fun x i => by rw [flag_iff, BitVec.getLsbD_ushiftRight, Nat.add_zero]
  have hbad : ∀ (x : BitVec 32) (i : Nat), ((x >>> i) &&& 7#32).toNat = x.toNat / 2 ^ i % 2 ^ 3 :=
    fun x i => by
      have hm : ((x >>> i) &&& 7#32).toNat = (x >>> i).toNat % 2 ^ 3 / 2 ^ 0 * 2 ^ 0 :=
        toNat_and_mask _ (by omega) (by rfl)
      rw [hm, BitVec.toNat_ushiftRight, Nat.shiftRight_eq_div_pow, Nat.pow_zero, Nat.div_one,
        Nat.mul_one]
  unfold spareRank
  simp only [hdone, hbad, eq_comm (a := c)]
  by_cases h0 : channel = 0
  · simp [Spared, h0]
  · simp [Spared, h0, Nat.pos_of_ne_zero h0]

/-! ## The search -/

/-- The locals `s` after the search are those of an exact search for `l`. -/
structure SearchExact (cfg : PciReg → BitVec 32) (l : Located) (s : Locals) : Prop where
  found_iff : s.csFound = true ↔
    ∃ c < 8, CSMatches cfg l.nodeID l.channel l.channelAddrLong.toNat c
  unmapped : 2 ^ 37 ≤ l.channelAddrLong.toNat → s.csFound = false
  cs_eq : s.csFound = true →
    ∃ c < 8, CSMatches cfg l.nodeID l.channel l.channelAddrLong.toNat c ∧
      (∀ c' < c, ¬CSMatches cfg l.nodeID l.channel l.channelAddrLong.toNat c') ∧
      s.cs = if Spared cfg l.nodeID l.channel c then
        (if l.channel = 0 then ch0SpareRank else ch1SpareRank) else c

theorem searched_found_iff (cfg : PciReg → BitVec 32) (l : Located) :
    (searched cfg l).csFound = true ↔ ∃ c < 8, csHits cfg l c = true := by
  unfold searched
  cases hs : csSearch cfg l with
  | none =>
    have hn := List.find?_range_eq_none.1 hs
    simp only [Bool.false_eq_true, false_iff, not_exists, not_and]
    exact fun c hc hit => by simpa [hit] using hn c hc
  | some c =>
    obtain ⟨hit, hc, -⟩ := List.find?_range_eq_some.1 hs
    exact iff_of_true rfl ⟨c, List.mem_range.1 hc, hit⟩

/-- A search that succeeds reports the first chip select that hits, or its spare rank. -/
theorem searched_cs {cfg : PciReg → BitVec 32} {l : Located}
    (hf : (searched cfg l).csFound = true) :
    ∃ c < 8, csHits cfg l c = true ∧ (∀ c' < c, csHits cfg l c' = false) ∧
      (searched cfg l).cs = spareRank l.channel c (nodeSpare cfg l.nodeID) := by
  unfold searched at hf ⊢
  cases hs : csSearch cfg l with
  | none =>
    rw [hs] at hf
    cases hf
  | some c =>
    obtain ⟨hit, hc, hfirst⟩ := List.find?_range_eq_some.1 hs
    exact ⟨c, List.mem_range.1 hc, hit, fun c' hc' => by simpa using hfirst c' hc', rfl⟩

theorem searched_exact_iff (cfg : PciReg → BitVec 32) (l : Located) :
    SearchExact cfg l (searched cfg l) ↔
      l.channelAddrLong.toNat < 2 ^ 40 ∨
        ∀ c < 8, ¬CSMatches cfg l.nodeID l.channel (l.channelAddrLong.toNat % 2 ^ 40) c := by
  by_cases hlow : l.channelAddrLong.toNat < 2 ^ 40
  · -- nothing is cut off: the code's test is the match
    have hit : ∀ c, csHits cfg l c = true ↔
        CSMatches cfg l.nodeID l.channel l.channelAddrLong.toNat c := fun c => by
      rw [csHits_iff, Nat.mod_eq_of_lt hlow]
    refine iff_of_true ⟨?_, fun h37 => ?_, fun hf => ?_⟩ (.inl hlow)
    · simp only [searched_found_iff, hit]
    · rw [Bool.eq_false_iff, ne_eq, searched_found_iff]
      rintro ⟨c, -, hc⟩
      exact not_csMatches h37 c ((hit c).1 hc)
    · obtain ⟨c, hc, hhit, hfirst, hcs⟩ := searched_cs hf
      refine ⟨c, hc, (hit c).1 hhit, fun c' hc' hm => ?_, hcs.trans (spareRank_eq ..)⟩
      exact absurd ((hit c').2 hm) (by simp [hfirst c' hc'])
  · -- nothing matches, so the search is exact when it fails
    have hnone : ¬∃ c < 8, CSMatches cfg l.nodeID l.channel l.channelAddrLong.toNat c :=
      fun ⟨c, _, hc⟩ => not_csMatches (by omega) c hc
    have hfound : (searched cfg l).csFound = false ↔
        ∀ c < 8, ¬CSMatches cfg l.nodeID l.channel (l.channelAddrLong.toNat % 2 ^ 40) c := by
      rw [Bool.eq_false_iff, ne_eq, searched_found_iff]
      simp only [csHits_iff, not_exists, not_and]
    rw [or_iff_right hlow, ← hfound]
    refine ⟨fun h => h.unmapped (by omega), fun hf => ⟨?_, fun _ => hf, fun ht => ?_⟩⟩
    · exact iff_of_false (by simp [hf]) hnone
    · rw [hf] at ht
      cases ht

/-! ## Sparing -/

/-- The register contents agree everywhere but in F3xB0. -/
def SameButSpare (cfg cfg' : PciReg → BitVec 32) : Prop :=
  ∀ reg : PciReg, ¬(reg.func = func3 ∧ reg.reg = 0xB0) → cfg reg = cfg' reg

/-- The locals agree everywhere but in `CS`. -/
def SameButCS (s s' : Locals) : Prop :=
  s.csFound = s'.csFound ∧ s.nodeID = s'.nodeID ∧ s.channel = s'.channel ∧
    s.systemAddr = s'.systemAddr

section
variable {cfg cfg' : PciReg → BitVec 32} (h : SameButSpare cfg cfg')
include h

theorem searched_sparing (l : Located) : SameButCS (searched cfg l) (searched cfg' l) := by
  have h2 : ∀ bus dev reg, cfg ⟨bus, dev, func2, reg⟩ = cfg' ⟨bus, dev, func2, reg⟩ :=
    fun bus dev reg => h _ fun hc => absurd hc.1 (by decide : func2 ≠ func3)
  have hs : csSearch cfg l = csSearch cfg' l := by
    have hh : csHits cfg l = csHits cfg' l :=
      funext fun c => by simp only [csHits, nodeCSBase, nodeCSMask, h2]
    rw [csSearch, csSearch, hh]
  unfold searched
  rw [hs]
  cases csSearch cfg' l with
  | none => exact ⟨rfl, rfl, rfl, rfl⟩
  | some c => exact ⟨rfl, rfl, rfl, rfl⟩

theorem rangeStep_sparing (r : Nat) {s s' : Locals} (hs : SameButCS s s') :
    SameButCS (rangeStep cfg r s) (rangeStep cfg' r s') := by
  have h1 : ∀ bus dev reg, cfg ⟨bus, dev, func1, reg⟩ = cfg' ⟨bus, dev, func1, reg⟩ :=
    fun bus dev reg => h _ fun hc => absurd hc.1 (by decide : func1 ≠ func3)
  have h2 : ∀ bus dev reg, cfg ⟨bus, dev, func2, reg⟩ = cfg' ⟨bus, dev, func2, reg⟩ :=
    fun bus dev reg => h _ fun hc => absurd hc.1 (by decide : func2 ≠ func3)
  have hm : ∀ a, rangeMatches cfg r a = rangeMatches cfg' r a := fun a => by
    simp only [rangeMatches, rangeEn, rangeBase, rangeLimit, rangeIntlvEn, rangeIntlvSel,
      rangeBaseLow, rangeLimitLow, h1]
  have hl : ∀ a, locatedAt cfg r a = locatedAt cfg' r a := fun a => by
    simp only [locatedAt, rangeNode, rangeBase, rangeIntlvEn, rangeBaseLow, rangeLimitLow,
      nodeSwap, nodeDct, nodeHole, h1, h2]
  unfold rangeStep
  rw [hs.2.2.2, hm, hl]
  cases rangeMatches cfg' r s'.systemAddr with
  | false => exact hs
  | true => exact searched_sparing h _

theorem rangeRun_sparing (rs : List Nat) {s s' : Locals} (hs : SameButCS s s') :
    SameButCS (rangeRun cfg rs s) (rangeRun cfg' rs s') := by
  induction rs generalizing s s' with
  | nil => exact hs
  | cons r rs ih =>
    have hstep := rangeStep_sparing h r hs
    simp only [rangeRun, hstep.1]
    cases (rangeStep cfg' r s').csFound with
    | false => exact ih hstep
    | true => exact hstep

/-- **Sparing never changes found, node or channel.** -/
theorem decode_sparing (u : Locals) (a : BitVec 64) :
    (decode cfg u a).found = (decode cfg' u a).found ∧
      (decode cfg u a).node = (decode cfg' u a).node ∧
      (decode cfg u a).channel = (decode cfg' u a).channel := by
  obtain ⟨hf, hn, hc, -⟩ := rangeRun_sparing h (List.range 8)
    (show SameButCS (u.start a) (u.start a) from ⟨rfl, rfl, rfl, rfl⟩)
  rw [decode_eq, decode_eq]
  exact ⟨hf, hn, hc⟩

end

/-! ## The exactness of the search -/

/-- **The chip-select search is exact** if and only if the channel address is below 1 TiB or no
chip select matches what is left of it in 40 bits; and sparing changes `CS` alone. -/
theorem search_exact_iff {cfg : PciReg → BitVec 32} {r : Nat} {s : Locals}
    (hm : rangeMatches cfg r s.systemAddr = true) :
    (SearchExact cfg (locatedAt cfg r s.systemAddr) (rangeStep cfg r s) ↔
      (locatedAt cfg r s.systemAddr).channelAddrLong.toNat < 2 ^ 40 ∨
        ∀ c < 8, ¬CSMatches cfg (locatedAt cfg r s.systemAddr).nodeID
          (locatedAt cfg r s.systemAddr).channel
          ((locatedAt cfg r s.systemAddr).channelAddrLong.toNat % 2 ^ 40) c) ∧
    ∀ cfg', SameButSpare cfg cfg' → ∀ u a,
      (decode cfg u a).found = (decode cfg' u a).found ∧
        (decode cfg u a).node = (decode cfg' u a).node ∧
        (decode cfg u a).channel = (decode cfg' u a).channel := by
  refine ⟨?_, fun cfg' h u a => decode_sparing h u a⟩
  rw [rangeStep, if_pos hm]
  exact searched_exact_iff cfg _

/-- One range over the whole 48-bit space on node 0, with a chip select that covers every bit it
can. -/
def wholeRange : PciReg → BitVec 32 :=
  regFile [(24, 1, 0x40, 0x3#32), (24, 1, 0x44, 0xFFFF0000#32), (24, 1, 0x144, 0xFF#32),
    (24, 2, 0x40, 0x1#32), (24, 2, 0x60, 0x1FF83FE0#32)]

theorem search_exact_iff_wholeRange :
    (SearchExact wholeRange (locatedAt wholeRange 0 0x1000#64)
        (rangeStep wholeRange 0 (Locals.start default 0x1000#64)) ↔
      (locatedAt wholeRange 0 0x1000#64).channelAddrLong.toNat < 2 ^ 40 ∨
        ∀ c < 8, ¬CSMatches wholeRange (locatedAt wholeRange 0 0x1000#64).nodeID
          (locatedAt wholeRange 0 0x1000#64).channel
          ((locatedAt wholeRange 0 0x1000#64).channelAddrLong.toNat % 2 ^ 40) c) ∧
    ∀ cfg', SameButSpare wholeRange cfg' → ∀ u a,
      (decode wholeRange u a).found = (decode cfg' u a).found ∧
        (decode wholeRange u a).node = (decode cfg' u a).node ∧
        (decode wholeRange u a).channel = (decode cfg' u a).channel :=
  @search_exact_iff wholeRange 0 (Locals.start default 0x1000#64) (by decide)

/-- The channel address 2^40 matches no chip select, but is found. -/
theorem search_aliases :
    rangeMatches wholeRange 0 0x10000000000#64 = true ∧
      (locatedAt wholeRange 0 0x10000000000#64).channelAddrLong.toNat = 2 ^ 40 ∧
      (rangeStep wholeRange 0 (Locals.start default 0x10000000000#64)).csFound = true ∧
      (decode wholeRange default 0x10000000000#64).found = true ∧
      ¬SearchExact wholeRange (locatedAt wholeRange 0 0x10000000000#64)
        (rangeStep wholeRange 0 (Locals.start default 0x10000000000#64)) := by
  have hf : (rangeStep wholeRange 0 (Locals.start default 0x10000000000#64)).csFound = true := by
    decide
  have ha : (locatedAt wholeRange 0 0x10000000000#64).channelAddrLong.toNat = 2 ^ 40 := by decide
  refine ⟨by decide, ha, hf, by decide, fun hx => ?_⟩
  rw [hx.unmapped (by rw [ha]; decide)] at hf
  cases hf

end Amd
