import Mathlib.Tactic.Common

/-!
# Programs that check their input

A check is an `Except` program: it returns a value or refuses with an error. `Decides x valid P`
says that `x` returns exactly when `valid` holds, and then a value in `P`. There is a rule for every
construct: a sequence of checks decides that all of them hold (`Decides.bind`), and a test that
throws adds its condition (`Decides.guard`). So the condition under which a whole program accepts
its input, in both directions, is put together from the conditions of its parts.
-/

namespace Lib

variable {ε α β : Type}

/-- A sequence that returns: both parts do. -/
theorem bind_eq_ok {x : Except ε α} {f : α → Except ε β} {b : β} :
    x >>= f = .ok b ↔ ∃ a, x = .ok a ∧ f a = .ok b := by
  constructor
  · intro h
    cases x with
    | error e => cases h
    | ok a => exact ⟨a, rfl, h⟩
  · rintro ⟨a, rfl, h⟩
    exact h

/-- The check returns if and only if `valid` holds, and then a value in `P`. -/
inductive Decides (x : Except ε α) (valid : Prop) (P : α → Prop) : Prop where
  | accepts (h : valid) (a : α) (hx : x = .ok a) (ha : P a)
  | refuses (h : ¬valid) (e : ε) (hx : x = .error e)

namespace Decides

variable {x : Except ε α} {f : α → Except ε β} {valid valid' : Prop} {P : α → Prop} {Q : β → Prop}
  {a : α} {e : ε}

theorem pure (ha : P a) : Decides (pure a : Except ε α) True P := .accepts trivial a rfl ha

theorem throw (e : ε) : Decides (throw e : Except ε α) False P := .refuses id e rfl

theorem congr (h : Decides x valid P) (hv : valid ↔ valid') : Decides x valid' P :=
  propext hv ▸ h

/-- Two checks, where the second one uses the value of the first one. -/
theorem bind (hx : Decides x valid P) (hf : ∀ a, P a → Decides (f a) valid' Q) :
    Decides (x >>= f) (valid ∧ valid') Q := by
  cases hx with
  | refuses h e hx => exact .refuses (fun hv => h hv.1) e (by rw [hx]; rfl)
  | accepts h a hx ha =>
    rw [hx]
    cases hf a ha with
    | accepts h' b hb hQ => exact .accepts ⟨h, h'⟩ b hb hQ
    | refuses h' e he => exact .refuses (fun hv => h' hv.2) e he

/-- A test that throws before the rest. -/
theorem guard {c : Prop} [Decidable c] (h : ¬c → Decides x valid P) :
    Decides (if c then MonadExcept.throw e else x) (¬c ∧ valid) P := by
  by_cases hc : c
  · rw [if_pos hc]
    exact .refuses (fun hv => hv.1 hc) e rfl
  · rw [if_neg hc]
    exact (h hc).congr (iff_and_self.2 fun _ => hc)

end Decides

end Lib
