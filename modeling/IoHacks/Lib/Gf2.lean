import Mathlib.Algebra.CharP.Two
import Mathlib.Algebra.Field.ZMod
import Mathlib.Algebra.Polynomial.Monic
import Mathlib.Algebra.Polynomial.RingDivision
import Mathlib.Data.ZMod.Basic
import Mathlib.Tactic.Common
import Mathlib.Tactic.Ring

/-!
# Words as polynomials over GF(2)

`toPoly x` is the polynomial whose coefficients are the bits of the word `x`. Xor is addition
(`toPoly_xor`), and a step of a shift register (`registerStep`) is multiplication by `X` modulo the
register's polynomial `registerPoly p = X ^ w + toPoly p`, so a register that is stepped `k` times
holds the remainder of its first content times `X ^ k` (`registerPoly_dvd_repeat`,
`toPoly_eq_of_dvd`).
-/

namespace Lib

open Polynomial

/-- The positions of the ones of a word. -/
def ones {w : Nat} (x : BitVec w) : Finset Nat := (Finset.range w).filter fun i => x.getLsbD i

/-- The word as a polynomial; its bit `i` is the coefficient of `X ^ i`. -/
noncomputable def toPoly {w : Nat} (x : BitVec w) : (ZMod 2)[X] := ∑ i ∈ ones x, X ^ i

/-- A step of the shift register with the feedback `p`. -/
def registerStep {w : Nat} (p x : BitVec w) : BitVec w :=
  if x.msb then (x <<< 1) ^^^ p else x <<< 1

/-- The polynomial by which the register with the feedback `p` divides. -/
noncomputable def registerPoly {w : Nat} (p : BitVec w) : (ZMod 2)[X] := X ^ w + toPoly p

/-! ## Words -/

section
variable {w : Nat} {x y : BitVec w} {i : Nat}

@[simp] theorem mem_ones : i ∈ ones x ↔ x.getLsbD i = true := by
  rw [ones, Finset.mem_filter, Finset.mem_range, and_iff_right_iff_imp]
  intro h
  by_contra hi
  rw [BitVec.getLsbD_of_ge x i (Nat.le_of_not_lt hi)] at h
  cases h

theorem ones_nonempty (h : x ≠ 0#w) : (ones x).Nonempty := by
  by_contra hne
  refine h (BitVec.eq_of_getLsbD_eq fun i _ => ?_)
  rw [BitVec.getLsbD_zero, ← Bool.not_eq_true, ← mem_ones]
  exact fun hi => hne ⟨i, hi⟩

@[simp] theorem coeff_toPoly (x : BitVec w) (i : Nat) :
    (toPoly x).coeff i = if x.getLsbD i then 1 else 0 := by
  simp only [toPoly, finsetSum_coeff, coeff_X_pow, Finset.sum_ite_eq, mem_ones]

theorem toPoly_inj : toPoly x = toPoly y ↔ x = y := by
  refine ⟨fun h => BitVec.eq_of_getLsbD_eq fun i _ => ?_, fun h => h ▸ rfl⟩
  have hc : (if x.getLsbD i then 1 else 0 : ZMod 2) = if y.getLsbD i then 1 else 0 := by
    rw [← coeff_toPoly, ← coeff_toPoly, h]
  cases hx : x.getLsbD i <;> cases hy : y.getLsbD i <;> simp_all

@[simp] theorem toPoly_zero : toPoly (0#w) = 0 := by
  ext i
  simp

/-- **Xor is addition.** -/
theorem toPoly_xor (x y : BitVec w) : toPoly (x ^^^ y) = toPoly x + toPoly y := by
  ext i
  rw [coeff_add, coeff_toPoly, coeff_toPoly, coeff_toPoly, BitVec.getLsbD_xor]
  cases x.getLsbD i <;> cases y.getLsbD i <;> decide

theorem degree_toPoly_lt (x : BitVec w) : (toPoly x).degree < w := by
  rw [degree_lt_iff_coeff_zero]
  intro i hi
  rw [coeff_toPoly, BitVec.getLsbD_of_ge x i hi]
  rfl

/-- The first word is the high part. -/
theorem toPoly_append {v : Nat} (x : BitVec v) (y : BitVec w) :
    toPoly (x ++ y) = X ^ w * toPoly x + toPoly y := by
  ext i
  rw [coeff_add, coeff_X_pow_mul', coeff_toPoly, coeff_toPoly, coeff_toPoly, BitVec.getLsbD_append]
  by_cases hi : i < w
  · simp [hi, Nat.not_le.2 hi]
  · simp [hi, Nat.le_of_not_lt hi]

theorem toPoly_setWidth {v : Nat} (h : ∀ i, v ≤ i → x.getLsbD i = false) :
    toPoly (x.setWidth v) = toPoly x := by
  ext i
  rw [coeff_toPoly, coeff_toPoly, BitVec.getLsbD_setWidth]
  by_cases hi : i < v
  · simp [hi]
  · simp [hi, h i (Nat.le_of_not_lt hi)]

/-- A word without its low zeros. -/
theorem toPoly_ushiftRight {k : Nat} (h : ∀ i ∈ ones x, k ≤ i) :
    toPoly x = X ^ k * toPoly (x >>> k) := by
  ext i
  rw [coeff_X_pow_mul', coeff_toPoly, coeff_toPoly, BitVec.getLsbD_ushiftRight]
  by_cases hi : k ≤ i
  · rw [if_pos hi, Nat.add_sub_cancel' hi]
  · rw [if_neg hi, if_neg fun hx => hi (h i (mem_ones.2 hx))]

/-- The value at 1 counts the ones. -/
theorem eval_one_toPoly (x : BitVec w) : (toPoly x).eval 1 = (ones x).card := by
  simp only [toPoly, eval_finsetSum, eval_pow, eval_X, one_pow, Finset.sum_const, nsmul_eq_mul,
    mul_one]

/-! ## The register -/

/-- A shift multiplies by `X`, but for the bit that is shifted out. -/
theorem toPoly_shiftLeft_one (x : BitVec w) :
    toPoly (x <<< 1) + (if x.msb then X ^ w else 0) = X * toPoly x := by
  ext i
  have htop : (if x.msb then X ^ w else 0 : (ZMod 2)[X]).coeff i =
      if i = w ∧ x.getLsbD (w - 1) then 1 else 0 := by
    rw [BitVec.msb_eq_getLsbD_last]
    by_cases hm : x.getLsbD (w - 1) = true <;> simp [hm, coeff_X_pow]
  rw [coeff_add, htop, coeff_toPoly, BitVec.getLsbD_shiftLeft]
  cases i with
  | zero =>
    have hw : ¬(0 = w ∧ x.getLsbD (w - 1) = true) := by
      rintro ⟨rfl, h⟩
      rw [BitVec.getLsbD_of_ge x _ (Nat.zero_le _)] at h
      cases h
    rw [coeff_X_mul_zero, if_neg hw]
    simp
  | succ i =>
    rw [coeff_X_mul, coeff_toPoly]
    rcases Nat.lt_trichotomy (i + 1) w with hlt | rfl | hgt
    · simp [hlt, Nat.ne_of_lt hlt]
    · simp
    · simp [BitVec.getLsbD_of_ge x i (Nat.le_of_lt_succ hgt), Nat.ne_of_gt hgt]

/-- **One step** of the register multiplies by `X` modulo its polynomial. -/
theorem registerPoly_dvd_step (p x : BitVec w) :
    registerPoly p ∣ toPoly (registerStep p x) + X * toPoly x := by
  have hshift := toPoly_shiftLeft_one x
  unfold registerStep
  cases hm : x.msb with
  | true =>
    refine ⟨1, ?_⟩
    rw [hm, if_pos rfl] at hshift
    rw [if_pos rfl, toPoly_xor, ← hshift, registerPoly, mul_one, add_comm (toPoly (x <<< 1)),
      add_assoc, CharTwo.add_cancel_left, add_comm]
  | false =>
    rw [hm, if_neg Bool.false_ne_true, add_zero] at hshift
    rw [if_neg Bool.false_ne_true, hshift, CharTwo.add_self_eq_zero]
    exact dvd_zero _

/-- **The register divides**: after `k` steps it is its first content times `X ^ k` modulo its
polynomial. -/
theorem registerPoly_dvd_repeat (p x : BitVec w) (k : Nat) :
    registerPoly p ∣ toPoly (Nat.repeat (registerStep p) k x) + X ^ k * toPoly x := by
  induction k with
  | zero =>
    rw [Nat.repeat, pow_zero, one_mul, CharTwo.add_self_eq_zero]
    exact dvd_zero _
  | succ k ih =>
    have hstep := registerPoly_dvd_step p (Nat.repeat (registerStep p) k x)
    have h := dvd_add hstep (ih.mul_left X)
    rwa [mul_add, add_assoc, CharTwo.add_cancel_left, ← mul_assoc, ← pow_succ'] at h

theorem registerPoly_degree (p : BitVec w) : (registerPoly p).degree = w := by
  rw [registerPoly, degree_add_eq_left_of_degree_lt, degree_X_pow]
  rw [degree_X_pow]
  exact degree_toPoly_lt p

/-- A word of the register's width is its own remainder. -/
theorem eq_of_registerPoly_dvd {p x y : BitVec w} (h : registerPoly p ∣ toPoly x + toPoly y) :
    x = y := by
  have hz : toPoly (x ^^^ y) = 0 := by
    rw [← toPoly_xor] at h
    exact eq_zero_of_dvd_of_degree_lt h (by rw [registerPoly_degree]; exact degree_toPoly_lt _)
  rw [toPoly_xor, CharTwo.add_eq_zero] at hz
  exact toPoly_inj.1 hz

/-- The period of the register. -/
theorem registerPoly_dvd_one_add_iff (hw : 0 < w) (p : BitVec w) (d : Nat) :
    registerPoly p ∣ 1 + X ^ d ↔ Nat.repeat (registerStep p) d 1#w = 1#w := by
  have hone : toPoly (1#w) = 1 := by
    ext i
    simp [coeff_one, hw, eq_comm]
  have h := registerPoly_dvd_repeat p 1#w d
  rw [hone, mul_one] at h
  constructor
  · intro hd
    have hsum := dvd_add h hd
    rw [add_assoc, add_comm 1, CharTwo.add_cancel_left, ← hone] at hsum
    exact eq_of_registerPoly_dvd hsum
  · intro he
    rwa [he, hone] at h

end

end Lib
