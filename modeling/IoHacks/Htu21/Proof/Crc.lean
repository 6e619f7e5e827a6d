import IoHacks.Htu21.Common
import IoHacks.Lib.Gf2
import IoHacks.Lib.Mask
import Mathlib.RingTheory.Coprime.Lemmas

/-!
# The checksum is polynomial division

`calc_crc` keeps the message and the remainder in one 16-bit shift register with the feedback
0x3100, which is the generator `x^8 + x^5 + x^4 + 1` shifted to the register's top. After its 16
steps the low byte is empty and the high byte is the remainder of the message times `x^8`, so
`valid_crc` accepts exactly the words that the generator divides (`validCrc_iff`). An error pattern
goes undetected if and only if the generator divides it, and it divides none of few bits
(`generator_not_dvd`).
-/

namespace Htu21

open Lib Polynomial

/-- `x^8 + x^5 + x^4 + 1`. -/
noncomputable def generator : (ZMod 2)[X] := X ^ 8 + X ^ 5 + X ^ 4 + 1

/-- The frame as one word, with the first bit as the highest. -/
def Frame.word (data : Frame) : BitVec 24 := data.d0 ++ data.d1 ++ data.d2

/-- The frame with the bits of an error pattern changed. -/
def Frame.corrupt (data : Frame) (e : BitVec 24) : Frame where
  d0 := data.d0 ^^^ e.extractLsb' 16 8
  d1 := data.d1 ^^^ e.extractLsb' 8 8
  d2 := data.d2 ^^^ e.extractLsb' 0 8

/-- All ones of the pattern are within eight consecutive positions. -/
def IsBurst (e : BitVec 24) : Prop := ∃ i, ∀ j ∈ ones e, i ≤ j ∧ j < i + 8

/-! ## The generator -/

theorem crcStep_eq : crcStep = registerStep 0x3100#16 := by
  funext x
  have hm : (x &&& 0x8000#16).toNat = x.toNat % 2 ^ 16 / 2 ^ 15 * 2 ^ 15 :=
    toNat_and_mask x (by omega) (by rfl)
  have htop : x &&& 0x8000#16 ≠ 0#16 ↔ x.msb = true := by
    have hx := x.isLt
    rw [BitVec.msb_eq_decide, decide_eq_true_eq, ne_eq, ← BitVec.toNat_inj, hm,
      BitVec.toNat_ofNat]
    omega
  simp only [crcStep, registerStep, htop]

theorem registerPoly_byte : registerPoly 0x31#8 = generator := by
  have hones : ones 0x31#8 = {5, 4, 0} := by decide
  simp [registerPoly, toPoly, hones, generator, add_assoc]

theorem registerPoly_crc : registerPoly 0x3100#16 = X ^ 8 * generator := by
  have hones : ones 0x3100#16 = {13, 12, 8} := by decide
  simp only [registerPoly, toPoly, hones, generator]
  rw [Finset.sum_insert (by decide), Finset.sum_insert (by decide), Finset.sum_singleton]
  ring

/-- The generator is not divisible by `X`. -/
theorem isCoprime_generator : IsCoprime generator X := by
  refine ⟨1, X ^ 7 + X ^ 4 + X ^ 3, ?_⟩
  have h : 1 * generator + (X ^ 7 + X ^ 4 + X ^ 3) * X =
      (X ^ 8 + X ^ 5 + X ^ 4) + ((X ^ 8 + X ^ 5 + X ^ 4) + 1) := by
    rw [generator]
    ring
  rw [h, CharTwo.add_cancel_left]

/-! ## The division -/

theorem generator_dvd_calcCrc (m : BitVec 16) :
    generator ∣ X ^ 8 * toPoly m + toPoly (calcCrc m) := by
  have h := registerPoly_dvd_repeat 0x3100#16 m 16
  rw [registerPoly_crc, ← crcStep_eq] at h
  have hcrc : calcCrc m = (Nat.repeat crcStep 16 m >>> 8).setWidth 8 := rfl
  generalize Nat.repeat crcStep 16 m = x at h hcrc
  -- the feedback and the 16 shifts leave the low byte empty
  have hlow : X ^ 8 ∣ toPoly x := by
    have hm : (X ^ 8 : (ZMod 2)[X]) ∣ X ^ 16 * toPoly m := (pow_dvd_pow X (by omega)).mul_right _
    exact (dvd_add_left hm).1 ((dvd_mul_right _ _).trans h)
  have hones : ∀ i ∈ ones x, 8 ≤ i := by
    intro i hi
    by_contra hlt
    have hc := X_pow_dvd_iff.1 hlow i (Nat.lt_of_not_le hlt)
    rw [coeff_toPoly, if_pos (mem_ones.1 hi)] at hc
    exact one_ne_zero hc
  have hx : toPoly x = X ^ 8 * toPoly (calcCrc m) := by
    rw [hcrc, toPoly_setWidth, ← toPoly_ushiftRight hones]
    intro i hi
    rw [BitVec.getLsbD_ushiftRight, BitVec.getLsbD_of_ge x _ (by omega)]
  have hpow : (X ^ 16 : (ZMod 2)[X]) = X ^ 8 * X ^ 8 := pow_add X 8 8
  rw [hx, hpow, mul_assoc, ← mul_add, add_comm] at h
  exact (mul_dvd_mul_iff_left (pow_ne_zero 8 X_ne_zero)).1 h

theorem message_eq (d0 d1 : BitVec 8) :
    (d0.setWidth 16 <<< 8) ||| d1.setWidth 16 = d0 ++ d1 := by
  refine BitVec.eq_of_getLsbD_eq fun i hi => ?_
  rw [BitVec.getLsbD_append]
  by_cases h8 : i < 8
  · simp [h8, hi]
  · simp [h8, hi, BitVec.getLsbD_of_ge d1 i (by omega)]

theorem toPoly_word (data : Frame) :
    toPoly data.word = X ^ 8 * toPoly (data.d0 ++ data.d1) + toPoly data.d2 :=
  toPoly_append (data.d0 ++ data.d1) data.d2

/-- **`valid_crc` accepts the multiples of the generator.** -/
theorem validCrc_iff (data : Frame) :
    validCrc data data.d2 = true ↔ generator ∣ toPoly data.word := by
  have h := generator_dvd_calcCrc (data.d0 ++ data.d1)
  rw [validCrc, message_eq, beq_iff_eq, toPoly_word]
  constructor
  · intro he
    rwa [he] at h
  · intro hd
    have hsum := dvd_add h hd
    rw [add_add_add_comm, CharTwo.add_self_eq_zero, zero_add, ← registerPoly_byte] at hsum
    exact eq_of_registerPoly_dvd hsum

theorem word_corrupt (data : Frame) (e : BitVec 24) : (data.corrupt e).word = data.word ^^^ e := by
  refine BitVec.eq_of_getLsbD_eq fun i hi => ?_
  simp only [Frame.word, Frame.corrupt, BitVec.getLsbD_append, BitVec.getLsbD_xor,
    BitVec.getLsbD_extractLsb']
  by_cases h8 : i < 8
  · simp [h8]
  · by_cases h16 : i - 8 < 8
    · simp [h8, h16, show 8 + (i - 8) = i by omega]
    · simp [h8, h16, show i - 8 - 8 < 8 by omega, show 16 + (i - 8 - 8) = i by omega]

/-! ## The patterns it divides -/

section
variable {e : BitVec 24} (h : generator ∣ toPoly e)
include h

theorem even_of_generator_dvd : Even (ones e).card := by
  obtain ⟨q, hq⟩ := h
  have hv := congrArg (fun p : (ZMod 2)[X] => p.eval 1) hq
  have hg : generator.eval 1 = 0 := by
    simp only [generator, eval_add, eval_pow, eval_X, eval_one, one_pow]
    decide
  simp only [eval_one_toPoly, eval_mul, hg, zero_mul] at hv
  exact (ZMod.natCast_eq_zero_iff_even).1 hv

theorem card_ne_two_of_generator_dvd : (ones e).card ≠ 2 := by
  intro hc
  obtain ⟨i, j, hij, he⟩ : ∃ i j, i < j ∧ ones e = {i, j} := by
    obtain ⟨i, j, hne, he⟩ := Finset.card_eq_two.1 hc
    rcases Nat.lt_or_gt_of_ne hne with hlt | hgt
    · exact ⟨i, j, hlt, he⟩
    · exact ⟨j, i, hgt, he.trans (Finset.pair_comm i j)⟩
  have hj : j < 24 := by
    have hmem : j ∈ ones e := by simp [he]
    exact Finset.mem_range.1 (Finset.mem_filter.1 hmem).1
  have hfactor : toPoly e = X ^ i * (1 + X ^ (j - i)) := by
    rw [toPoly, he, Finset.sum_pair (Nat.ne_of_lt hij), mul_add, mul_one, ← pow_add,
      Nat.add_sub_cancel' (Nat.le_of_lt hij)]
  rw [hfactor] at h
  have hone := isCoprime_generator.pow_right.dvd_of_dvd_mul_left h
  rw [← registerPoly_byte, registerPoly_dvd_one_add_iff (by omega)] at hone
  -- the period of the byte register is longer than a frame
  have hperiod : ∀ d < 24, 0 < d → Nat.repeat (registerStep 0x31#8) d 1#8 ≠ 1#8 := by decide
  exact hperiod (j - i) (by omega) (by omega) hone

theorem zero_of_burst (hb : IsBurst e) : e = 0#24 := by
  obtain ⟨i, hi⟩ := hb
  rw [toPoly_ushiftRight fun j hj => (hi j hj).1] at h
  have hdvd := isCoprime_generator.pow_right.dvd_of_dvd_mul_left h
  have hsmall : (toPoly (e >>> i)).degree < generator.degree := by
    rw [← registerPoly_byte, registerPoly_degree, degree_lt_iff_coeff_zero]
    intro k hk
    rw [coeff_toPoly, BitVec.getLsbD_ushiftRight, if_neg]
    intro hx
    have := (hi (i + k) (mem_ones.2 hx)).2
    omega
  have hz : toPoly e = 0 := by
    rw [toPoly_ushiftRight fun j hj => (hi j hj).1, eq_zero_of_dvd_of_degree_lt hdvd hsmall,
      mul_zero]
  rwa [← toPoly_zero, toPoly_inj] at hz

end

/-- **`calc_crc` is polynomial division, and its check has distance 4**: `valid_crc` accepts the
frames whose word the generator divides, and rejects every accepted frame with an error pattern of
at most three ones, of an odd number of ones, or of ones within eight consecutive positions. -/
theorem crc_detects :
    (∀ data : Frame, validCrc data data.d2 = true ↔ generator ∣ toPoly data.word) ∧
    ∀ (data : Frame) (e : BitVec 24), validCrc data data.d2 = true → e ≠ 0#24 →
      ((ones e).card ≤ 3 ∨ Odd (ones e).card ∨ IsBurst e) →
      validCrc (data.corrupt e) (data.corrupt e).d2 = false := by
  refine ⟨validCrc_iff, fun data e hvalid hne he => ?_⟩
  by_contra haccepted
  rw [Bool.not_eq_false, validCrc_iff, word_corrupt, toPoly_xor] at haccepted
  have hdvd : generator ∣ toPoly e := (dvd_add_right ((validCrc_iff data).1 hvalid)).1 haccepted
  have heven := even_of_generator_dvd hdvd
  rcases he with hfew | hodd | hburst
  · have hpos : 0 < (ones e).card := (ones_nonempty hne).card_pos
    have htwo := card_ne_two_of_generator_dvd hdvd
    obtain ⟨m, hm⟩ := heven
    omega
  · exact Nat.not_even_iff_odd.2 hodd heven
  · exact hne (zero_of_burst hdvd hburst)

/-- Three wrong bits in the frame 68:00:62. -/
theorem crc_detects_three :
    validCrc (Frame.corrupt ⟨0x68#8, 0x00#8, 0x62#8⟩ 0x800101#24)
      (Frame.corrupt ⟨0x68#8, 0x00#8, 0x62#8⟩ 0x800101#24).d2 = false :=
  crc_detects.2 ⟨0x68#8, 0x00#8, 0x62#8⟩ 0x800101#24 (by decide +kernel) (by decide)
    (.inl (by decide))

end Htu21
