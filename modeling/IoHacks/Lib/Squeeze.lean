import Mathlib.Algebra.Group.Nat.Defs
import Mathlib.Data.Set.Function
import Mathlib.Data.Set.Prod
import Mathlib.Order.Interval.Set.Defs
import Mathlib.Tactic.Common

/-!
# Taking bit fields out of a number

`field i k x` is the `k`-bit field of `x` at bit `i`, `squeeze i k x` is what is left of `x` when
that field is taken out, and `spread i k b y` puts a field `b` back. A memory interleave is a
choice of bank by a field and of a row by the rest, so it loses and duplicates nothing:

* `bijOn_squeeze`: on the aligned numbers below a multiple of `2 ^ (i + k)`, `x ↦ (field, squeeze)`
  is a bijection onto the pairs of a field and an aligned number below the `2 ^ k`-th part;
* `bijOn_nest`, `bijOn_twist`: an interleave inside every bank of another one, and a bank number
  permuted by a permutation that depends on the row (a hash), are bijections again;
* `bijOn_beside`: two parts of a memory laid out one beside the other.
-/

namespace Lib

open Set

/-- The `k`-bit field of `x` at bit `i`. -/
def field (i k x : Nat) : Nat := x / 2 ^ i % 2 ^ k

/-- `x` without its `k`-bit field at bit `i`: the bits above are shifted down. -/
def squeeze (i k x : Nat) : Nat := x / 2 ^ (i + k) * 2 ^ i + x % 2 ^ i

/-- `y` with the `k`-bit field `b` put in at bit `i`. -/
def spread (i k b y : Nat) : Nat := (y / 2 ^ i * 2 ^ k + b) * 2 ^ i + y % 2 ^ i

/-- The multiples of `2 ^ j` below `n`. -/
def aligned (j n : Nat) : Set Nat := {x | 2 ^ j ∣ x ∧ x < n}

section
variable {i k j n b x y : Nat}

theorem field_lt : field i k x < 2 ^ k := Nat.mod_lt _ (Nat.two_pow_pos k)

theorem mul_add_mod_div (a c m : Nat) : (a * 2 ^ m + c % 2 ^ m) / 2 ^ m = a := by
  rw [Nat.add_comm, Nat.add_mul_div_right _ _ (Nat.two_pow_pos m),
    Nat.div_eq_of_lt (Nat.mod_lt _ (Nat.two_pow_pos m)), Nat.zero_add]

theorem mul_add_mod_mod (a c m : Nat) : (a * 2 ^ m + c % 2 ^ m) % 2 ^ m = c % 2 ^ m := by
  rw [Nat.add_comm, Nat.add_mul_mod_self_right, Nat.mod_mod]

@[simp] theorem squeeze_div : squeeze i k x / 2 ^ i = x / 2 ^ (i + k) := mul_add_mod_div _ _ _

@[simp] theorem squeeze_mod : squeeze i k x % 2 ^ i = x % 2 ^ i := mul_add_mod_mod _ _ _

@[simp] theorem spread_div : spread i k b y / 2 ^ i = y / 2 ^ i * 2 ^ k + b :=
  mul_add_mod_div _ _ _

@[simp] theorem spread_mod : spread i k b y % 2 ^ i = y % 2 ^ i := mul_add_mod_mod _ _ _

theorem spread_div_add (hb : b < 2 ^ k) : spread i k b y / 2 ^ (i + k) = y / 2 ^ i := by
  rw [Nat.pow_add, ← Nat.div_div_eq_div_mul, spread_div, Nat.add_comm,
    Nat.add_mul_div_right _ _ (Nat.two_pow_pos k), Nat.div_eq_of_lt hb, Nat.zero_add]

theorem field_spread (hb : b < 2 ^ k) : field i k (spread i k b y) = b := by
  rw [field, spread_div, Nat.add_comm, Nat.add_mul_mod_self_right, Nat.mod_eq_of_lt hb]

theorem squeeze_spread (hb : b < 2 ^ k) : squeeze i k (spread i k b y) = y := by
  rw [squeeze, spread_div_add hb, spread_mod, Nat.div_add_mod']

theorem spread_field_squeeze : spread i k (field i k x) (squeeze i k x) = x := by
  rw [spread, squeeze_div, squeeze_mod, field, Nat.pow_add, ← Nat.div_div_eq_div_mul,
    Nat.div_add_mod', Nat.div_add_mod']

theorem field_width_zero : field i 0 x = 0 := Nat.mod_one _

theorem squeeze_width_zero : squeeze i 0 x = x := by
  rw [squeeze, Nat.add_zero, Nat.div_add_mod']

theorem squeeze_le : squeeze i k x ≤ x := by
  have h : x / 2 ^ (i + k) * 2 ^ i ≤ x / 2 ^ i * 2 ^ i := by
    rw [Nat.pow_add, ← Nat.div_div_eq_div_mul]
    exact Nat.mul_le_mul_right _ (Nat.div_le_self _ _)
  calc squeeze i k x ≤ x / 2 ^ i * 2 ^ i + x % 2 ^ i := Nat.add_le_add_right h _
    _ = x := Nat.div_add_mod' x _

/-- Alignment below the field is kept. -/
theorem dvd_squeeze (hj : j ≤ i) : 2 ^ j ∣ squeeze i k x ↔ 2 ^ j ∣ x := by
  have h := Nat.pow_dvd_pow 2 hj
  rw [← Nat.dvd_mod_iff h, squeeze_mod, Nat.dvd_mod_iff h]

theorem squeeze_lt_iff (hn : 2 ^ (i + k) ∣ n) : squeeze i k x < n / 2 ^ k ↔ x < n := by
  obtain ⟨m, rfl⟩ := hn
  rw [Nat.pow_add, Nat.mul_comm (2 ^ i), Nat.mul_assoc,
    Nat.mul_div_cancel_left _ (Nat.two_pow_pos k), ← Nat.mul_assoc, Nat.mul_comm (2 ^ k),
    ← Nat.pow_add, Nat.mul_comm (2 ^ i), Nat.mul_comm (2 ^ (i + k)),
    ← Nat.div_lt_iff_lt_mul (Nat.two_pow_pos i), squeeze_div,
    Nat.div_lt_iff_lt_mul (Nat.two_pow_pos _)]

theorem squeeze_mem_aligned (hj : j ≤ i) (hn : 2 ^ (i + k) ∣ n) :
    squeeze i k x ∈ aligned j (n / 2 ^ k) ↔ x ∈ aligned j n := by
  simp only [aligned, mem_ofPred_eq, dvd_squeeze hj, squeeze_lt_iff hn]

/-- An aligned offset numbers the aligned addresses from it. -/
theorem bijOn_sub (hb : 2 ^ j ∣ b) : BijOn (fun x => x - b) {x | 2 ^ j ∣ x ∧ b ≤ x ∧ x < n}
    (aligned j (n - b)) := by
  have hinv : InvOn (fun y => y + b) (fun x => x - b) {x | 2 ^ j ∣ x ∧ b ≤ x ∧ x < n}
      (aligned j (n - b)) :=
    ⟨fun x ⟨_, hx, _⟩ => Nat.sub_add_cancel hx, fun y _ => Nat.add_sub_cancel y b⟩
  refine hinv.bijOn (fun x ⟨hd, hx, hn⟩ => ⟨Nat.dvd_sub hd hb, ?_⟩)
    (fun y ⟨hd, hn⟩ => ⟨Nat.dvd_add hd hb, Nat.le_add_left b y, Nat.add_lt_of_lt_sub hn⟩)
  exact Nat.sub_lt_sub_right hx hn

/-- **A field and the rest**: nothing is lost and nothing is duplicated. -/
theorem bijOn_squeeze (hj : j ≤ i) (hn : 2 ^ (i + k) ∣ n) :
    BijOn (fun x => (field i k x, squeeze i k x)) (aligned j n)
      (Iio (2 ^ k) ×ˢ aligned j (n / 2 ^ k)) := by
  have hinv : InvOn (fun p => spread i k p.1 p.2) (fun x => (field i k x, squeeze i k x))
      (aligned j n) (Iio (2 ^ k) ×ˢ aligned j (n / 2 ^ k)) :=
    ⟨fun x _ => spread_field_squeeze,
      fun ⟨b, y⟩ ⟨hb, _⟩ => Prod.ext (field_spread hb) (squeeze_spread hb)⟩
  refine hinv.bijOn (fun x hx => ⟨field_lt, (squeeze_mem_aligned hj hn).2 hx⟩) ?_
  · rintro ⟨b, y⟩ ⟨hb, hy⟩
    exact (squeeze_mem_aligned hj hn).1 (by rw [squeeze_spread hb]; exact hy)

end

section
variable {X N Y C Z : Type} {s : Set X} {T : Set N} {u : Set Y} {w : Set Z} {c : Set C}

/-- **A bijection inside every bank** of a bijection. -/
theorem bijOn_nest {bank : X → N} {row : X → Y} (h : BijOn (fun x => (bank x, row x)) s (T ×ˢ u))
    {g : N → Y → Z} (hg : ∀ b ∈ T, BijOn (g b) u w) :
    BijOn (fun x => (bank x, g (bank x) (row x))) s (T ×ˢ w) := by
  refine ⟨fun x hx => ?_, fun x hx x' hx' he => ?_, fun ⟨b, z⟩ ⟨hb, hz⟩ => ?_⟩
  · obtain ⟨hb, hr⟩ := h.mapsTo hx
    exact ⟨hb, (hg _ hb).mapsTo hr⟩
  · obtain ⟨hb, hr⟩ := h.mapsTo hx
    obtain ⟨-, hr'⟩ := h.mapsTo hx'
    obtain ⟨he1, he2⟩ := Prod.mk.inj he
    rw [← he1] at he2
    exact h.injOn hx hx' (Prod.ext he1 ((hg _ hb).injOn hr hr' he2))
  · obtain ⟨y, hy, rfl⟩ := (hg b hb).surjOn hz
    obtain ⟨x, hx, hxe⟩ := h.surjOn (show (b, y) ∈ T ×ˢ u from ⟨hb, hy⟩)
    obtain ⟨rfl, rfl⟩ := Prod.mk.inj hxe
    exact ⟨x, hx, rfl⟩

/-- **A bank number permuted by the row** (a hash of the bank select). -/
theorem bijOn_twist {bank : X → C} {row : X → Z} (h : BijOn (fun x => (bank x, row x)) s (c ×ˢ w))
    {σ : Z → C → C} (hσ : ∀ z ∈ w, BijOn (σ z) c c) :
    BijOn (fun x => (σ (row x) (bank x), row x)) s (c ×ˢ w) := by
  have hswap : BijOn (fun x => (row x, bank x)) s (w ×ˢ c) := by
    refine ⟨fun x hx => (h.mapsTo hx).symm, fun x hx x' hx' he => h.injOn hx hx' ?_,
      fun ⟨z, b⟩ ⟨hz, hb⟩ => ?_⟩
    · exact Prod.ext (Prod.mk.inj he).2 (Prod.mk.inj he).1
    · obtain ⟨x, hx, hxe⟩ := h.surjOn (show (b, z) ∈ c ×ˢ w from ⟨hb, hz⟩)
      exact ⟨x, hx, Prod.ext (Prod.mk.inj hxe).2 (Prod.mk.inj hxe).1⟩
  have hn := bijOn_nest hswap hσ
  refine ⟨fun x hx => (hn.mapsTo hx).symm, fun x hx x' hx' he => hn.injOn hx hx' ?_,
    fun ⟨b, z⟩ ⟨hb, hz⟩ => ?_⟩
  · exact Prod.ext (Prod.mk.inj he).2 (Prod.mk.inj he).1
  · obtain ⟨x, hx, hxe⟩ := hn.surjOn (show (z, b) ∈ w ×ˢ c from ⟨hz, hb⟩)
    exact ⟨x, hx, Prod.ext (Prod.mk.inj hxe).2 (Prod.mk.inj hxe).1⟩

/-- **Two parts beside each other**: bijections onto disjoint sets join. -/
theorem bijOn_beside {f : X → Y} {s' : Set X} {u' : Set Y} (h : BijOn f s u) (h' : BijOn f s' u')
    (hd : ∀ y ∈ u, y ∉ u') : BijOn f (s ∪ s') (u ∪ u') := by
  have hne : ∀ x ∈ s, ∀ x' ∈ s', f x ≠ f x' := fun x hx x' hx' he =>
    hd _ (h.mapsTo hx) (he ▸ h'.mapsTo hx')
  refine h.union h' fun x hx x' hx' he => ?_
  rcases hx with hx | hx <;> rcases hx' with hx' | hx'
  · exact h.injOn hx hx' he
  · exact absurd he (hne x hx x' hx')
  · exact absurd he.symm (hne x' hx' x hx)
  · exact h'.injOn hx hx' he

end

end Lib
