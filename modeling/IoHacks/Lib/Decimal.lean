import Mathlib.Algebra.Field.Rat
import Mathlib.Algebra.Group.Nat.Defs
import Mathlib.Tactic.Common
import Mathlib.Tactic.FieldSimp
import Mathlib.Tactic.Linarith

/-!
# Decimal numerals with a fixed number of fractional digits

`fixedPoint k v` is the numeral of `v / 10 ^ k`: a sign, the integer part and exactly `k`
fractional digits. `readDecimal` is the value that a text has as a decimal numeral.
`readDecimal_fixedPoint`: reading the numeral back gives the number.
-/

namespace Lib

/-- The last `k` decimal digits of `n`. -/
def lastDigits : Nat → Nat → List Char
  | 0, _ => []
  | k + 1, n => lastDigits k (n / 10) ++ [Nat.digitChar (n % 10)]

/-- The numeral of `v / 10 ^ k` with `k` fractional digits. -/
def fixedPoint (k : Nat) (v : Int) : String :=
  (if v < 0 then "-" else "") ++ toString (v.natAbs / 10 ^ k) ++ "." ++
    String.ofList (lastDigits k v.natAbs)

/-! ## Reading -/

def readDigits (cs : List Char) : Option Nat :=
  if cs ≠ [] ∧ cs.all Char.isDigit then some (Nat.ofDigitChars 10 cs 0) else none

/-- An integer part, and a point with fractional digits after it or nothing. -/
def readUnsigned (cs : List Char) : Option ℚ := do
  let whole ← readDigits (cs.takeWhile Char.isDigit)
  match cs.dropWhile Char.isDigit with
  | [] => some (whole : ℚ)
  | '.' :: frac =>
    let part ← readDigits frac
    some (whole + part / 10 ^ frac.length)
  | _ => none

/-- The value of a text as a decimal numeral. -/
def readDecimal (s : String) : Option ℚ :=
  match s.toList with
  | '-' :: cs => (readUnsigned cs).map fun x => -x
  | cs => readUnsigned cs

/-! ## The digits -/

section
variable (k n : Nat)

theorem lastDigits_length : (lastDigits k n).length = k := by
  induction k generalizing n with
  | zero => rfl
  | succ k ih => rw [lastDigits, List.length_append, ih, List.length_singleton]

theorem isDigit_of_mem_lastDigits {c : Char} (h : c ∈ lastDigits k n) : c.isDigit = true := by
  induction k generalizing n with
  | zero => cases h
  | succ k ih =>
    rcases List.mem_append.1 h with h | h
    · exact ih _ h
    · rw [List.mem_singleton.1 h, Nat.isDigit_digitChar, decide_eq_true_eq]
      exact Nat.mod_lt _ (by omega)

theorem ofDigitChars_lastDigits : Nat.ofDigitChars 10 (lastDigits k n) 0 = n % 10 ^ k := by
  induction k generalizing n with
  | zero => rw [lastDigits, Nat.ofDigitChars_nil, Nat.pow_zero, Nat.mod_one]
  | succ k ih =>
    rw [lastDigits, Nat.ofDigitChars_append, ih, Nat.ofDigitChars_cons_digitChar_of_lt_ten
      (Nat.mod_lt _ (by omega)), Nat.ofDigitChars_nil, Nat.pow_succ', Nat.mod_mul]
    omega

theorem readDigits_toDigits : readDigits (Nat.toDigits 10 n) = some n := by
  have hd : (Nat.toDigits 10 n).all Char.isDigit = true :=
    List.all_eq_true.2 fun c hc => Nat.isDigit_of_mem_toDigits (by omega) (by omega) hc
  rw [readDigits, if_pos ⟨Nat.toDigits_ne_nil, hd⟩, Nat.ofDigitChars_ten_toDigits]

theorem readDigits_lastDigits (hk : 0 < k) : readDigits (lastDigits k n) = some (n % 10 ^ k) := by
  have hne : lastDigits k n ≠ [] := List.ne_nil_of_length_pos (by rw [lastDigits_length]; exact hk)
  have hd : (lastDigits k n).all Char.isDigit = true :=
    List.all_eq_true.2 fun c hc => isDigit_of_mem_lastDigits k n hc
  rw [readDigits, if_pos ⟨hne, hd⟩, ofDigitChars_lastDigits]

/-- The numeral of a number that is not negative. -/
theorem readUnsigned_digits (hk : 0 < k) :
    readUnsigned (Nat.toDigits 10 (n / 10 ^ k) ++ '.' :: lastDigits k n) =
      some ((n : ℚ) / 10 ^ k) := by
  have hd : ∀ c ∈ Nat.toDigits 10 (n / 10 ^ k), c.isDigit = true := fun c hc =>
    Nat.isDigit_of_mem_toDigits (by omega) (by omega) hc
  have hdot : Char.isDigit '.' = false := rfl
  have hvalue : ((n / 10 ^ k : Nat) : ℚ) + ((n % 10 ^ k : Nat) : ℚ) / 10 ^ k = n / 10 ^ k := by
    have h := congrArg (fun m : Nat => (m : ℚ)) (Nat.div_add_mod n (10 ^ k))
    simp only [Nat.cast_add, Nat.cast_mul, Nat.cast_pow, Nat.cast_ofNat] at h
    field_simp
    linarith
  rw [readUnsigned, List.takeWhile_append_of_pos hd, List.dropWhile_append_of_pos hd]
  simp [hdot, readDigits_toDigits, readDigits_lastDigits k n hk, lastDigits_length, hvalue]

end

/-- **Reading the numeral back.** -/
theorem readDecimal_fixedPoint {k : Nat} (hk : 0 < k) (v : Int) :
    readDecimal (fixedPoint k v) = some ((v : ℚ) / 10 ^ k) := by
  have hu := readUnsigned_digits k v.natAbs hk
  by_cases hv : v < 0
  · have ht : (fixedPoint k v).toList =
        '-' :: (Nat.toDigits 10 (v.natAbs / 10 ^ k) ++ '.' :: lastDigits k v.natAbs) := by
      simp [fixedPoint, hv]
    have habs : ((v.natAbs : Nat) : ℚ) = -v := by
      rw [Nat.cast_natAbs, abs_of_neg hv, Int.cast_neg]
    rw [readDecimal, ht]
    simp only [hu, Option.map_some, habs, neg_div, neg_neg]
  · have ht : (fixedPoint k v).toList =
        Nat.toDigits 10 (v.natAbs / 10 ^ k) ++ '.' :: lastDigits k v.natAbs := by
      simp [fixedPoint, hv]
    have habs : ((v.natAbs : Nat) : ℚ) = v := by
      rw [Nat.cast_natAbs, abs_of_nonneg (Int.not_lt.1 hv)]
    rw [readDecimal, ht]
    split
    · rename_i ds hds
      -- a digit is no minus sign
      obtain ⟨c, cs, hc⟩ := List.exists_cons_of_ne_nil (@Nat.toDigits_ne_nil (v.natAbs / 10 ^ k) 10)
      have hdig : c.isDigit = true :=
        Nat.isDigit_of_mem_toDigits (b := 10) (by omega) (by omega) (hc ▸ List.mem_cons_self)
      rw [hc] at hds
      cases hds
      cases hdig
    · rw [hu, habs]

end Lib
