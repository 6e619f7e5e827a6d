import Mathlib.Algebra.Group.Nat.Defs
import Mathlib.Tactic.Common

/-!
# Masks of consecutive bits

A C mask of the bits `lo` to `hi - 1` is the number `2 ^ hi - 2 ^ lo`. Masking by it and joining
two disjoint fields by `|` or `^` are division, remainder and addition (`and_mask`, `or_low`,
`xor_aligned`), the form in which `omega` and the bit-field lemmas can use them.
-/

namespace Lib

theorem and_mask {x lo hi : Nat} (h : lo ≤ hi) :
    x &&& (2 ^ hi - 2 ^ lo) = x % 2 ^ hi / 2 ^ lo * 2 ^ lo := by
  have hm : 2 ^ hi - 2 ^ lo = (2 ^ (hi - lo) - 1) * 2 ^ lo := by
    rw [Nat.sub_mul, ← Nat.pow_add, Nat.sub_add_cancel h, Nat.one_mul]
  apply Nat.eq_of_testBit_eq
  intro i
  rw [hm, Nat.testBit_and, Nat.testBit_mul_two_pow, Nat.testBit_mul_two_pow,
    Nat.testBit_two_pow_sub_one, Nat.testBit_div_two_pow, Nat.testBit_mod_two_pow]
  by_cases hi' : lo ≤ i
  · simp only [hi', decide_true, Bool.true_and, Nat.sub_add_cancel]
    rw [Bool.and_comm]
    congr 1
    exact decide_eq_decide.2 (by omega)
  · simp [hi']

theorem toNat_and_mask {w lo hi : Nat} (x : BitVec w) {m : BitVec w} (h : lo ≤ hi)
    (hm : m.toNat = 2 ^ hi - 2 ^ lo) :
    (x &&& m).toNat = x.toNat % 2 ^ hi / 2 ^ lo * 2 ^ lo := by
  rw [BitVec.toNat_and, hm, and_mask h]

/-- Joining a multiple of `2 ^ i` with a number below `2 ^ i`. -/
theorem or_low {a b i : Nat} (hb : b < 2 ^ i) : a * 2 ^ i ||| b = a * 2 ^ i + b := by
  rw [Nat.mul_comm, Nat.two_pow_add_eq_or_of_lt hb]

theorem xor_shifted (a c i : Nat) :
    a ^^^ (c * 2 ^ i) = (a / 2 ^ i ^^^ c) * 2 ^ i + a % 2 ^ i := by
  have hd : (a ^^^ (c * 2 ^ i)) / 2 ^ i = a / 2 ^ i ^^^ c := by
    rw [Nat.xor_div_two_pow, Nat.mul_div_cancel _ (Nat.two_pow_pos i)]
  have hm : (a ^^^ (c * 2 ^ i)) % 2 ^ i = a % 2 ^ i := by
    rw [Nat.xor_mod_two_pow, Nat.mul_mod_left, Nat.xor_zero]
  rw [← hd, ← hm, Nat.div_add_mod']

/-- A xor of disjoint bits is a sum. -/
theorem xor_aligned {q b j : Nat} (hq : q < 2 ^ j) (hb : 2 ^ j ∣ b) : q ^^^ b = q + b := by
  obtain ⟨c, rfl⟩ := hb
  rw [Nat.mul_comm, xor_shifted, Nat.div_eq_of_lt hq, Nat.mod_eq_of_lt hq, Nat.zero_xor,
    Nat.add_comm]

theorem xor_le_add (x y : Nat) : x ^^^ y ≤ x + y := by
  induction x using Nat.strongRecOn generalizing y with
  | ind x ih =>
    rcases Nat.eq_zero_or_pos x with rfl | hx
    · simp
    · have h := ih (x / 2) (by omega) (y / 2)
      have hd : (x ^^^ y) / 2 = x / 2 ^^^ y / 2 := Nat.xor_div_two_pow (n := 1)
      have hm : (x ^^^ y) % 2 = x % 2 ^^^ y % 2 := Nat.xor_mod_two_pow (n := 1)
      have hlow : x % 2 ^^^ y % 2 ≤ x % 2 + y % 2 := by
        rcases Nat.mod_two_eq_zero_or_one x with h | h <;>
          rcases Nat.mod_two_eq_zero_or_one y with h' | h' <;> simp [h, h']
      omega

/-- Two words agree under an inverted mask when they agree on every bit it does not cover. -/
theorem and_not_eq_iff {w : Nat} {x y m : BitVec w} :
    x &&& ~~~m = y &&& ~~~m ↔ ∀ i, m.getLsbD i = false → x.getLsbD i = y.getLsbD i := by
  refine ⟨fun he i hm => ?_, fun hbits => BitVec.eq_of_getLsbD_eq fun i hi => ?_⟩
  · by_cases hi : i < w
    · have hbit := congrArg (fun z : BitVec w => z.getLsbD i) he
      simpa only [BitVec.getLsbD_and, BitVec.getLsbD_not, hi, hm, decide_true, Bool.not_false,
        Bool.and_true] using hbit
    · rw [BitVec.getLsbD_of_ge x _ (by omega), BitVec.getLsbD_of_ge y _ (by omega)]
  · rw [BitVec.getLsbD_and, BitVec.getLsbD_and, BitVec.getLsbD_not]
    cases hm : m.getLsbD i with
    | true => simp
    | false => rw [hbits i hm]

end Lib
