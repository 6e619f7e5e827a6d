import IoHacks.Htu21.Proof.Readings
import IoHacks.Lib.Decimal
import Mathlib.Data.Rat.Floor

/-!
# The printed numbers

A reading with the value `raw` denotes `q.exact raw`, and `main` means to print it rounded down to
hundredths, `q.hundredths raw`. Its integer part and its fraction are printed by `%ld` and `%02lu`
from a quotient and a remainder that are both negative below zero. `reading_right_iff`: the number
is right if and only if it is not negative or a whole number (`PrintsRight`).
-/

namespace Htu21

open Lib

/-- The sensor's formula. -/
def Quantity.exact (q : Quantity) (raw : BitVec 16) : ℚ :=
  ((raw.toNat * q.scale : Nat) / 2 ^ 16 - q.offset) / 100

/-- The reading in hundredths, rounded down. -/
def Quantity.hundredths (q : Quantity) (raw : BitVec 16) : Int :=
  ⌊((raw.toNat * q.scale : Nat) : ℚ) / 2 ^ 16⌋ - q.offset

/-- On the frame `data` of a request that returned 0, `main` prints this number for the quantity. -/
def Quantity.Shows (q : Quantity) (data : Frame) (number : String) : Prop :=
  ∀ retval answers s, s.data = data →
    (report q 0 retval answers s).state.stdout = s.stdout ++ [q.label ++ number ++ q.unit]

/-- The number for a frame is the decimal numeral of the reading, which reads back as the reading
and is less than 0.01 below the sensor's exact value. -/
def Quantity.ReadsRight (q : Quantity) (data : Frame) : Prop :=
  ∃ number, q.Shows data number ∧ number = fixedPoint 2 (q.hundredths data.raw) ∧
    readDecimal number = some ((q.hundredths data.raw : ℚ) / 100) ∧
    (q.hundredths data.raw : ℚ) / 100 ≤ q.exact data.raw ∧
    q.exact data.raw < (q.hundredths data.raw : ℚ) / 100 + 1 / 100

/-- The reading is not negative, or it is a whole number. -/
def Quantity.PrintsRight (q : Quantity) (raw : BitVec 16) : Prop :=
  q.offset * 2 ^ 16 ≤ (raw.toNat * q.scale : Nat) ∨
    ((raw.toNat * q.scale / 2 ^ 16 : Nat) : Int) % 100 = q.offset % 100

instance (q : Quantity) (raw : BitVec 16) : Decidable (q.PrintsRight raw) :=
  inferInstanceAs (Decidable (_ ∨ _))

/-! ## The value -/

section
variable (q : Quantity) (raw : BitVec 16)

theorem hundredths_eq : q.hundredths raw = q.value raw := by
  have h := Rat.floor_natCast_div_natCast (raw.toNat * q.scale) (2 ^ 16)
  rw [Quantity.hundredths, Quantity.value, Int.natCast_ediv, ← h]
  norm_num

theorem hundredths_le : (q.hundredths raw : ℚ) / 100 ≤ q.exact raw := by
  have h := Int.floor_le (((raw.toNat * q.scale : Nat) : ℚ) / 2 ^ 16)
  rw [Quantity.hundredths, Quantity.exact, Int.cast_sub]
  linarith

theorem lt_hundredths : q.exact raw < (q.hundredths raw : ℚ) / 100 + 1 / 100 := by
  have h := Int.lt_floor_add_one (((raw.toNat * q.scale : Nat) : ℚ) / 2 ^ 16)
  rw [Quantity.hundredths, Quantity.exact, Int.cast_sub]
  linarith

theorem printsRight_iff :
    q.PrintsRight raw ↔ 0 ≤ q.value raw ∨ 100 ∣ q.value raw := by
  unfold Quantity.PrintsRight Quantity.value
  omega

end

/-! ## The text -/

/-- The two conversions of a value. -/
def number (value : Int) : String := ld (value.tdiv 100) ++ "." ++ lu02 (value.tmod 100)

theorem ld_nat (n : Nat) : ld n = n.repr := by
  rw [ld, Int.toString_eq_repr, Int.repr_eq_if, if_pos (Int.natCast_nonneg n), Int.toNat_natCast]

theorem ld_neg {n : Nat} (h : 0 < n) : ld (-n) = "-" ++ n.repr := by
  rw [ld, Int.toString_eq_repr, Int.repr_eq_if, if_neg (by omega), Int.neg_neg, Int.toNat_natCast]

/-- The two digits of a remainder that is not negative. -/
theorem lu02_nat {n : Nat} (h : n < 100) : lu02 n = String.ofList (lastDigits 2 n) := by
  have hn : ((n : Int) % 2 ^ 64).toNat = n := by omega
  have hdigits : lastDigits 2 n = [Nat.digitChar (n / 10), Nat.digitChar (n % 10)] := by
    simp only [lastDigits, List.nil_append, List.cons_append,
      Nat.mod_eq_of_lt (by omega : n / 10 < 10)]
  simp only [lu02, hn, Nat.toString_eq_repr, hdigits]
  rcases Nat.lt_or_ge n 10 with h10 | h10
  · rw [Nat.repr_of_lt h10, if_pos (by simp), Nat.div_eq_of_lt h10, Nat.mod_eq_of_lt h10]
    simp [← String.toList_inj]
  · rw [Nat.repr_of_ge h10, Nat.repr_of_lt (by omega : n / 10 < 10), if_neg (by simp)]
    simp

theorem number_nat (n : Nat) : number n = fixedPoint 2 n := by
  have hdigits : lastDigits 2 (n % 100) = lastDigits 2 n := by
    simp only [lastDigits, List.nil_append]
    rw [show n % 100 / 10 % 10 = n / 10 % 10 by omega, show n % 100 % 10 = n % 10 by omega]
  have hdiv : (n : Int).tdiv 100 = (n / 100 : Nat) := rfl
  have hmod : (n : Int).tmod 100 = (n % 100 : Nat) := rfl
  have hsign : ¬(n : Int) < 0 := by omega
  rw [number, hdiv, hmod, ld_nat, lu02_nat (Nat.mod_lt n (by omega)), hdigits]
  simp [fixedPoint, hsign]

/-- Below zero the quotient and the remainder are the negated ones of the absolute value. -/
theorem number_neg (n : Nat) :
    number (-n) = ld (-(n / 100 : Nat)) ++ "." ++ lu02 (-(n % 100 : Nat)) := by
  have hdiv : (-(n : Int)).tdiv 100 = -(n / 100 : Nat) := Int.neg_tdiv _ _
  have hmod : (-(n : Int)).tmod 100 = -(n % 100 : Nat) := Int.neg_tmod _ _
  rw [number, hdiv, hmod]

theorem fixedPoint_neg {n : Nat} (hn : 0 < n) :
    fixedPoint 2 (-n) = "-" ++ (n / 100).repr ++ "." ++ String.ofList (lastDigits 2 n) := by
  have hsign : -(n : Int) < 0 := by omega
  rw [fixedPoint, if_pos hsign, Int.natAbs_neg, Int.natAbs_natCast]
  rfl

theorem number_whole {n : Nat} (hn : 0 < n) (h : 100 ∣ n) : number (-n) = fixedPoint 2 (-n) := by
  obtain ⟨m, rfl⟩ := h
  have hdigits : lastDigits 2 (100 * m) = ['0', '0'] := by
    simp only [lastDigits, List.nil_append]
    rw [show 100 * m / 10 % 10 = 0 by omega, show 100 * m % 10 = 0 by omega]
    rfl
  rw [number_neg, fixedPoint_neg hn, hdigits, Nat.mul_div_cancel_left m (by omega),
    Nat.mul_mod_right, ld_neg (by omega)]
  rfl

/-- A negative remainder is printed as a number of at least four digits. -/
theorem length_lu02 {r : Nat} (h : 0 < r) (hr : r < 100) : 4 ≤ (lu02 (-r)).length := by
  have hlong : ¬(toString (-(r : Int) % 2 ^ 64).toNat).length ≤ 3 := by
    rw [Nat.toString_eq_repr, Nat.length_repr_le_iff (by omega)]
    omega
  simp only [lu02]
  rw [if_neg (by omega)]
  omega

theorem length_ld_neg (n : Nat) : n.repr.length ≤ (ld (-n)).length := by
  rcases Nat.eq_zero_or_pos n with rfl | hn
  · exact Nat.le_refl _
  · rw [ld_neg hn, String.length_append]
    exact Nat.le_add_left _ _

/-- A negative number with a fraction is printed with too many characters. -/
theorem number_fraction {n : Nat} (h : ¬100 ∣ n) : number (-n) ≠ fixedPoint 2 (-n) := by
  intro he
  have hpos : 0 < n := Nat.pos_of_ne_zero fun hz => h (hz ▸ Nat.dvd_zero 100)
  have hlen := congrArg String.length he
  have hfrac := length_lu02 (r := n % 100) (by omega) (by omega)
  have hwhole := length_ld_neg (n / 100)
  have hdash : "-".length = 1 := rfl
  simp only [number_neg, fixedPoint_neg hpos, String.length_append, String.length_ofList,
    lastDigits_length, hdash] at hlen
  omega

theorem number_eq_iff (v : Int) : number v = fixedPoint 2 v ↔ 0 ≤ v ∨ 100 ∣ v := by
  rcases Int.le_total 0 v with hv | hv
  · obtain ⟨n, rfl⟩ := Int.eq_ofNat_of_zero_le hv
    exact iff_of_true (number_nat n) (.inl hv)
  · obtain ⟨n, rfl⟩ := Int.exists_eq_neg_ofNat hv
    rcases Nat.eq_zero_or_pos n with rfl | hn
    · exact iff_of_true (number_nat 0) (.inl (Int.le_refl 0))
    · constructor
      · intro he
        refine .inr ?_
        by_contra hd
        exact number_fraction (by omega) he
      · intro h
        exact number_whole hn (by omega)

/-- What `main` prints for a frame. -/
theorem shows_iff {q : Quantity} {data : Frame} {text : String}
    (hcrc : validCrc data data.d2 = true) (hraw : data.raw ≠ 0#16) :
    q.Shows data text ↔ text = number (q.value data.raw) := by
  have hrun : ∀ retval answers s, s.data = data →
      (report q 0 retval answers s).state.stdout = s.stdout ++ [q.line (q.value data.raw)] := by
    intro retval answers s hs
    obtain ⟨s', hr, hout⟩ := report_run q 0 retval answers s
    have hreads : Reads 0 s.data := by
      rw [hs]
      exact ⟨rfl, hcrc, hraw⟩
    rw [hr, hout, Quantity.printed, if_pos hreads, hs]
  have hline : ∀ v, q.line v = q.label ++ number v ++ q.unit := by
    intro v
    simp only [Quantity.line, number, String.append_assoc]
  constructor
  · intro h
    have hs := h 0 [] (State.start data) rfl
    rw [hrun 0 [] (State.start data) rfl, hline] at hs
    simpa [← String.toList_inj] using hs.symm
  · rintro rfl retval answers s hs
    rw [hrun retval answers s hs, hline]

theorem readsRight_iff {q : Quantity} {data : Frame} (hcrc : validCrc data data.d2 = true)
    (hraw : data.raw ≠ 0#16) :
    q.ReadsRight data ↔ number (q.value data.raw) = fixedPoint 2 (q.value data.raw) := by
  rw [← hundredths_eq]
  constructor
  · rintro ⟨text, hshows, htext, -⟩
    have hnumber := (shows_iff hcrc hraw).1 hshows
    rw [← hundredths_eq] at hnumber
    exact hnumber.symm.trans htext
  · intro h
    have hread := readDecimal_fixedPoint (by decide : 0 < 2) (q.hundredths data.raw)
    refine ⟨number (q.hundredths data.raw), (shows_iff hcrc hraw).2 (by rw [hundredths_eq]), h, ?_,
      hundredths_le q _, lt_hundredths q _⟩
    rw [h, hread]
    norm_num

/-- **The printed number is right** if and only if the reading is not negative or a whole
number: on every frame that passes the checksum with a nonzero value. -/
theorem reading_right_iff {q : Quantity} {data : Frame} (hcrc : validCrc data data.d2 = true)
    (hraw : data.raw ≠ 0#16) : q.ReadsRight data ↔ q.PrintsRight data.raw := by
  rw [readsRight_iff hcrc hraw, printsRight_iff, number_eq_iff]

/-- 24.53 degrees. -/
theorem reading_right_iff_room :
    temperature.ReadsRight ⟨0x68#8, 0x00#8, 0x62#8⟩ ↔ temperature.PrintsRight 0x6800#16 :=
  @reading_right_iff temperature ⟨0x68#8, 0x00#8, 0x62#8⟩ (by decide +kernel) (by decide)

/-- A frame of -2.92 degrees. -/
def belowZero : Frame := ⟨0x40#8, 0x00#8, 0x89#8⟩

/-- It passes the checksum and is not read right: its line is
`Temperature: -2.18446744073709551524 degC`. -/
theorem reading_below_zero :
    validCrc belowZero belowZero.d2 = true ∧ belowZero.raw ≠ 0#16 ∧
      temperature.hundredths belowZero.raw = -292 ∧ ¬temperature.ReadsRight belowZero := by
  have hcrc : validCrc belowZero belowZero.d2 = true := by decide +kernel
  have hraw : belowZero.raw ≠ 0#16 := by decide
  have hvalue : temperature.value belowZero.raw = -292 := by decide
  refine ⟨hcrc, hraw, (hundredths_eq _ _).trans hvalue, fun h => ?_⟩
  rw [readsRight_iff hcrc hraw, hvalue, number_eq_iff] at h
  omega

end Htu21
