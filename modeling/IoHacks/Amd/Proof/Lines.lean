import IoHacks.Amd.Registers
import IoHacks.Amd.Proof.Arith

/-!
# Decoding is constant on cache lines

Two addresses of one 64-byte line (`SameLine`) take the decoder through the same configuration
reads to the same result. The two runs are compared as programs, by `Query.Sim`: every stage
depends on the address bits from bit 6 on, and what an iteration hands to the next one
(`SameLocals`) are two addresses of one line again. `decode_line` states what the simulation
`translate_sim` gives: the same result and the same sequence of reads.
-/

namespace Amd

open Lib

/-- Two addresses of one line. -/
def SameLine (a a' : BitVec 64) : Prop := a >>> 6 = a' >>> 6

/-! ## The stages -/

section
variable {a a' : BitVec 64} (h : SameLine a a')
include h

theorem SameLine.toNat : a.toNat / 2 ^ 6 = a'.toNat / 2 ^ 6 := by
  have hn := congrArg BitVec.toNat h
  simpa only [BitVec.toNat_ushiftRight, Nat.shiftRight_eq_div_pow] using hn

theorem SameLine.shift {i : Nat} (hi : 6 ≤ i) : a >>> i = a' >>> i := by
  obtain ⟨j, rfl⟩ := Nat.exists_eq_add_of_le hi
  rw [BitVec.shiftRight_add, BitVec.shiftRight_add, h]

theorem SameLine.addrBit {i : Nat} (hi : 6 ≤ i) : addrBit a i = addrBit a' i := by
  rw [Amd.addrBit, Amd.addrBit, h.shift hi]

/-- A multiple of 64 does not lie inside a line. -/
theorem SameLine.lt_iff {n : Nat} (hn : 64 ∣ n) : a.toNat < n ↔ a'.toNat < n := by
  have := h.toNat
  omega

/-- The windows begin and end on line boundaries. -/
theorem SameLine.inWindow (low low' : BitVec 32) (high high' : BitVec 64) :
    inWindow (dramBaseLong low high) (dramLimitLong low' high') a =
      inWindow (dramBaseLong low high) (dramLimitLong low' high') a' := by
  have hb := dramBaseLong_toNat low high
  have hl := dramLimitLong_toNat low' high'
  have hlo := h.lt_iff (n := (dramBaseLong low high).toNat) (by omega)
  have hhi := h.lt_iff (n := (dramLimitLong low' high').toNat + 1) (by omega)
  rw [Bool.eq_iff_iff, inWindow_iff, inWindow_iff]
  omega

theorem SameLine.intlvMatches (intlvEn intlvSel : BitVec 32) :
    intlvMatches intlvEn intlvSel a = intlvMatches intlvEn intlvSel a' := by
  rw [Amd.intlvMatches, Amd.intlvMatches, h.shift (by omega)]

/-- The swap moves a line as a whole. -/
theorem SameLine.swapRegion (temp : BitVec 32) :
    SameLine (swapRegion temp a) (swapRegion temp a') := by
  have hx : ∀ m : BitVec 64, SameLine (a ^^^ m) (a' ^^^ m) := fun m => by
    rw [SameLine, BitVec.ushiftRight_xor_distrib, BitVec.ushiftRight_xor_distrib, h]
  unfold Amd.swapRegion
  simp only [h.shift (show 6 ≤ 34 by omega), h.shift (show 6 ≤ 27 by omega)]
  split
  · split
    · exact hx _
    · exact h
  · exact h

theorem SameLine.hiRangeSelected (d : DctSel) : hiRangeSelected d a = hiRangeSelected d a' := by
  rw [Amd.hiRangeSelected, Amd.hiRangeSelected, h.shift (by omega)]

theorem SameLine.channelSelect (d : DctSel) (intlvEn : BitVec 32) :
    channelSelect d intlvEn a = channelSelect d intlvEn a' := by
  simp only [Amd.channelSelect, h.hiRangeSelected, h.shift (show 6 ≤ 16 by omega),
    h.addrBit (show 6 ≤ 6 by omega), h.addrBit (show 6 ≤ 9 by omega),
    h.addrBit (show 6 ≤ 12 by omega), h.addrBit (show 6 ≤ 13 by omega),
    h.addrBit (show 6 ≤ 14 by omega), h.addrBit (show 6 ≤ 15 by omega)]

theorem SameLine.channelOffsetLong (d : DctSel) (hole : BitVec 32) (base : BitVec 64) :
    channelOffsetLong d hole base a = channelOffsetLong d hole base a' := by
  have h4 : 0x100000000#64 ≤ a ↔ 0x100000000#64 ≤ a' := by
    rw [BitVec.le_def, BitVec.le_def, ← Nat.not_lt, ← Nat.not_lt]
    exact not_congr (h.lt_iff (by decide))
  simp only [Amd.channelOffsetLong, h.hiRangeSelected, h4]

/-- Normalizing drops the bits below the line. -/
theorem SameLine.normalize (offset : BitVec 64) : normalize a offset = normalize a' offset := by
  have hm : a &&& 0x0000FFFFFFFFFFC0#64 = a' &&& 0x0000FFFFFFFFFFC0#64 := by
    have h1 : (a &&& 0x0000FFFFFFFFFFC0#64).toNat = a.toNat % 2 ^ 48 / 2 ^ 6 * 2 ^ 6 :=
      toNat_and_mask a (by omega) (by rfl)
    have h2 : (a' &&& 0x0000FFFFFFFFFFC0#64).toNat = a'.toNat % 2 ^ 48 / 2 ^ 6 * 2 ^ 6 :=
      toNat_and_mask a' (by omega) (by rfl)
    have := h.toNat
    apply BitVec.eq_of_toNat_eq
    rw [h1, h2]
    omega
  rw [Amd.normalize, Amd.normalize, hm]

end

/-! ## The program -/

/-- Two located addresses that differ inside a line. -/
structure SameLocated (l l' : Located) : Prop where
  line : SameLine l.systemAddr l'.systemAddr
  nodeID : l.nodeID = l'.nodeID
  channel : l.channel = l'.channel
  channelAddrLong : l.channelAddrLong = l'.channelAddrLong

/-- What two runs of the range loop have in common after every iteration. The other locals are
only known to agree once an iteration has found the address. -/
structure SameLocals (s s' : Locals) : Prop where
  line : SameLine s.systemAddr s'.systemAddr
  csFound : s.csFound = s'.csFound
  found : s.csFound = true → s.nodeID = s'.nodeID ∧ s.channel = s'.channel ∧ s.cs = s'.cs

theorem locate_sim (r : Nat) {a a' : BitVec 64} (h : SameLine a a') :
    Query.Sim (Option.Rel SameLocated) (locate r a) (locate r a') := by
  unfold locate
  refine .request_bind fun baseLow => .ite Iff.rfl ?_ (.pure .none)
  refine .request_bind fun baseHigh => .request_bind fun limitLow => .request_bind fun limitHigh =>
    .ite (by rw [h.inWindow]) (.ite (by rw [h.intlvMatches]) ?_ (.pure .none)) (.pure .none)
  refine .request_bind fun swap => .request_bind fun dctLow => .request_bind fun dctHigh =>
    .request_bind fun hole => .pure (.some ?_)
  have hs := h.swapRegion (swap.setWidth 32)
  exact
    { line := hs
      nodeID := rfl
      channel := hs.channelSelect _ _
      channelAddrLong := by
        simp only [hs.hiRangeSelected, hs.channelOffsetLong, hs.normalize] }

/-- The search only sees what the two located addresses have in common. -/
theorem chipSelect_sim {l l' : Located} (h : SameLocated l l') :
    Query.Sim SameLocals (chipSelect l) (chipSelect l') := by
  unfold chipSelect
  rw [← h.nodeID, ← h.channel, Located.inputAddr, Located.inputAddr, ← h.channelAddrLong]
  refine (Query.Sim.refl _).bind ?_
  rintro ⟨cs, csFound⟩ _ rfl
  exact .pure { line := h.line, csFound := rfl, found := fun _ => ⟨rfl, rfl, rfl⟩ }

theorem dramRangeBody_sim (r : Nat) {s s' : Locals} (h : SameLocals s s') :
    Query.Sim SameLocals (dramRangeBody r s) (dramRangeBody r s') := by
  refine (locate_sim r h.line).bind ?_
  rintro _ _ (hl | _)
  · exact chipSelect_sim hl
  · exact .pure h

theorem rangeLoop_sim (rs : List Nat) {s s' : Locals} (h : SameLocals s s') :
    Query.Sim SameLocals (rangeLoop rs s) (rangeLoop rs s') := by
  induction rs generalizing s s' with
  | nil => exact .pure h
  | cons r rs ih =>
    refine (dramRangeBody_sim r h).bind fun t t' ht => ?_
    exact .ite (by rw [ht.csFound]) (.pure ht) (ih ht)

/-- **Two runs on one line** ask for the same registers and agree on what they find, whatever the
registers contain and whatever is on the stack. -/
theorem translate_sim (u u' : Locals) {a a' : BitVec 64} (h : SameLine a a') :
    Query.Sim (fun x x' : Result => x.found = x'.found ∧ (x.found = true → x = x'))
      (translateSysAddrToCS u a) (translateSysAddrToCS u' a') := by
  have hstart : SameLocals (u.start a) (u'.start a') :=
    { line := h, csFound := rfl, found := fun hf => by cases hf }
  refine (rangeLoop_sim (List.range 8) hstart).bind fun s s' hs => .pure ⟨hs.csFound, fun hf => ?_⟩
  obtain ⟨hnode, hchannel, hcs⟩ := hs.found hf
  simp only [hs.csFound, hnode, hchannel, hcs]

/-- **Decoding is constant on cache lines**: addresses with the same bits from bit 6 on have the
same found flag, the same node, channel and chip select when found, and the same sequence of
register reads. -/
theorem decode_line (cfg : PciReg → BitVec 32) (u u' : Locals) {a a' : BitVec 64}
    (h : a >>> 6 = a' >>> 6) :
    (decode cfg u a).found = (decode cfg u' a').found ∧
    ((decode cfg u a).found = true →
      (decode cfg u a).node = (decode cfg u' a').node ∧
      (decode cfg u a).channel = (decode cfg u' a').channel ∧
      (decode cfg u a).cs = (decode cfg u' a').cs) ∧
    (translateSysAddrToCS u a).trace (DevPci.regs cfg).answer =
      (translateSysAddrToCS u' a').trace (DevPci.regs cfg).answer := by
  have hsim := translate_sim u u' h
  obtain ⟨hfound, heq⟩ := hsim.eval (DevPci.regs cfg).answer
  refine ⟨hfound, fun hf => ?_, hsim.trace_eq _⟩
  have he : decode cfg u a = decode cfg u' a' := heq hf
  rw [he]
  exact ⟨rfl, rfl, rfl⟩

/-- The first and the last byte of a line of memory. -/
theorem decode_line_ends :
    (decode oneRank default 0x40#64).found = true ∧
    (decode oneRank default 0x40#64).found = (decode oneRank default 0x7F#64).found ∧
    ((decode oneRank default 0x40#64).found = true →
      (decode oneRank default 0x40#64).node = (decode oneRank default 0x7F#64).node ∧
      (decode oneRank default 0x40#64).channel = (decode oneRank default 0x7F#64).channel ∧
      (decode oneRank default 0x40#64).cs = (decode oneRank default 0x7F#64).cs) ∧
    (translateSysAddrToCS default 0x40#64).trace (DevPci.regs oneRank).answer =
      (translateSysAddrToCS default 0x7F#64).trace (DevPci.regs oneRank).answer :=
  ⟨by decide, decode_line oneRank default default (by decide)⟩

end Amd
