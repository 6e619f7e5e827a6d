import IoHacks.Lib.Script
import Mathlib.Logic.Function.Basic

/-!
# Programs that run at the same time

Several programs share one device, and a scheduler lets one after the other make its next request
(`Schedule`); two programs are scheduled part by part (`Schedule.first`, `Schedule.second`). A
device may have parts that its requests work on one by one (`Parts`). Where every
program keeps to the requests of a part of its own, a schedule has no influence: every program
returns what it returns alone, and leaves its part as it does alone (`Schedule.isolated`).
-/

namespace Lib

open Query

variable {ι Req Ans σ α : Type}

/-- A program that makes only requests in `P`, whatever the answers are. -/
inductive Query.Keeps (P : Req → Prop) : Query Req Ans α → Prop where
  | ret (a : α) : Keeps P (.ret a)
  | ask {r : Req} {k : Ans → Query Req Ans α} (hr : P r) (h : ∀ x, Keeps P (k x)) :
    Keeps P (.ask r k)

namespace Query.Keeps

variable {β : Type} {P Q : Req → Prop} {p : Query Req Ans α} {f : α → Query Req Ans β}

theorem request {r : Req} (hr : P r) : Keeps P (request r : Query Req Ans Ans) :=
  .ask hr fun x => .ret x

theorem bind (hp : Keeps P p) (hf : ∀ a, Keeps P (f a)) : Keeps P (p >>= f) := by
  induction hp with
  | ret a => exact hf a
  | ask hr _ ih => exact .ask hr ih

theorem ite {c : Prop} [Decidable c] {q : Query Req Ans α} (hp : Keeps P p) (hq : Keeps P q) :
    Keeps P (if c then p else q) := by
  by_cases hc : c
  · rwa [if_pos hc]
  · rwa [if_neg hc]

theorem capture (hp : Keeps P p) (text : Req → Option String) : Keeps P (p.capture text) := by
  induction hp with
  | ret a => exact .ret _
  | ask hr _ ih => exact .ask hr fun x => (ih x).bind fun out => .ret _

end Query.Keeps

/-- The programs `p`, from the device state `s`, make their requests in some order until all of
them have returned the values `a`, and leave the state `s'`. -/
inductive Schedule [DecidableEq ι] (step : Req → σ → Ans × σ) :
    (ι → Query Req Ans α) → σ → (ι → α) → σ → Prop where
  | done (a : ι → α) (s : σ) : Schedule step (fun i => .ret (a i)) s a s
  | turn {p : ι → Query Req Ans α} {s s' : σ} {a : ι → α} (i : ι) {r : Req}
    {k : Ans → Query Req Ans α} (hi : p i = .ask r k)
    (h : Schedule step (Function.update p i (k (step r s).1)) (step r s).2 a s') :
    Schedule step p s a s'

/-- A device with the parts `κ`: the requests `own k` work on the part `k` alone, by `stepAt k`. -/
structure Parts (step : Req → σ → Ans × σ) (κ τ : Type) where
  view : κ → σ → τ
  stepAt : κ → Req → τ → Ans × τ
  own : κ → Req → Prop
  answers : ∀ {k r}, own k r → ∀ s, (step r s).1 = (stepAt k r (view k s)).1
  moves : ∀ {k r}, own k r → ∀ s, view k (step r s).2 = (stepAt k r (view k s)).2
  frame : ∀ {k l r}, own k r → l ≠ k → ∀ s, view l (step r s).2 = view l s

variable {κ τ : Type} {step : Req → σ → Ans × σ}

/-- **A program on its part** returns and does what it does on the part alone, and leaves the other
parts as they were. -/
theorem Parts.exec (parts : Parts step κ τ) {k : κ} {p : Query Req Ans α}
    (hp : p.Keeps (parts.own k)) (s : σ) :
    (p.exec step s).1 = (p.exec (parts.stepAt k) (parts.view k s)).1 ∧
      parts.view k (p.exec step s).2 = (p.exec (parts.stepAt k) (parts.view k s)).2 ∧
      ∀ l ≠ k, parts.view l (p.exec step s).2 = parts.view l s := by
  induction hp generalizing s with
  | ret a => exact ⟨rfl, rfl, fun l _ => rfl⟩
  | @ask r f hr _ ih =>
    obtain ⟨hvalue, hview, hframe⟩ := ih (step r s).1 (step r s).2
    rw [parts.moves hr, parts.answers hr] at hvalue hview
    refine ⟨?_, ?_, fun l hl => ?_⟩
    · rw [Query.exec, parts.answers hr]
      exact hvalue
    · rw [Query.exec, parts.answers hr]
      exact hview
    · rw [← parts.frame hr hl s]
      exact hframe l hl

/-- The first of two and the second. -/
def both (x y : τ) : Bool → τ := fun second => if second then y else x

namespace Schedule

variable [DecidableEq ι] {p : ι → Query Req Ans α} {s s' : σ} {a : ι → α}

/-- All programs have returned. -/
theorem finish (h : ∀ i, p i = .ret (a i)) : Schedule step p s a s := by
  have hp : p = fun i => .ret (a i) := funext h
  rw [hp]
  exact .done a s

/-- A program may make several requests at once. -/
theorem run_first {β : Type} {i : ι} {q : Query Req Ans β} {f : β → Query Req Ans α}
    (hi : p i = q >>= f)
    (h : Schedule step (Function.update p i (f (q.exec step s).1)) (q.exec step s).2 a s') :
    Schedule step p s a s' := by
  induction q generalizing p s with
  | ret b =>
    have hf : Function.update p i (f b) = p := by
      rw [Function.update_eq_self_iff, hi]
      rfl
    rwa [Query.exec, hf] at h
  | ask r k ih =>
    refine .turn i hi (ih _ (Function.update_self ..) ?_)
    rw [Function.update_idem]
    exact h

/-- After a turn every program still keeps to its requests. -/
theorem keeps_turn {own : ι → Req → Prop} (hp : ∀ i, (p i).Keeps (own i)) {j : ι} {r : Req}
    {k : Ans → Query Req Ans α} (hj : p j = .ask r k) (x : Ans) :
    own j r ∧ ∀ i, ((Function.update p j (k x)) i).Keeps (own i) := by
  have hkeeps := hp j
  rw [hj] at hkeeps
  cases hkeeps with
  | ask hr hk =>
    refine ⟨hr, fun i => ?_⟩
    by_cases hij : i = j
    · subst hij
      rw [Function.update_self]
      exact hk x
    · rw [Function.update_of_ne hij]
      exact hp i

section
variable (h : Schedule step p s a s') (parts : Parts step κ τ) {part : ι → κ}
  (hp : ∀ i, (p i).Keeps (parts.own (part i)))
include h hp

/-- **A schedule isolates programs with parts of their own.** The induction is on the turns: the
program whose turn it is makes its own next step, and no other one sees it. -/
theorem isolated (hpart : Function.Injective part) (i : ι) :
    a i = ((p i).exec (parts.stepAt (part i)) (parts.view (part i) s)).1 ∧
      parts.view (part i) s' = ((p i).exec (parts.stepAt (part i)) (parts.view (part i) s)).2 := by
  induction h with
  | done a s => exact ⟨rfl, rfl⟩
  | @turn p s s' a j r k hj _ ih =>
    obtain ⟨hr, hnext⟩ := keeps_turn hp hj (step r s).1
    obtain ⟨hvalue, hview⟩ := ih hnext
    by_cases hij : i = j
    · subst hij
      rw [Function.update_self, parts.moves hr, parts.answers hr] at hvalue hview
      rw [hj]
      exact ⟨hvalue, hview⟩
    · rw [Function.update_of_ne hij, parts.frame hr (hpart.ne hij)] at hvalue hview
      exact ⟨hvalue, hview⟩

/-- A part of none of the programs stays as it was. -/
theorem untouched {k : κ} (hk : ∀ i, part i ≠ k) : parts.view k s' = parts.view k s := by
  induction h with
  | done a s => rfl
  | @turn p s s' a j r f hj _ ih =>
    obtain ⟨hr, hnext⟩ := keeps_turn hp hj (step r s).1
    rw [ih hnext, parts.frame hr (hk j).symm]

end

/-! ## Two programs -/

section
variable {β : Type} {p : Query Req Ans α} {q : Query Req Ans β} {f : β → Query Req Ans α}
  {a : Bool → α}

/-- The first program runs its next part. -/
theorem first (h : Schedule step (both (f (q.exec step s).1) p) (q.exec step s).2 a s') :
    Schedule step (both (q >>= f) p) s a s' := by
  have hnext : Function.update (both (q >>= f) p) false (f (q.exec step s).1) =
      both (f (q.exec step s).1) p := by
    funext second
    cases second <;> rfl
  refine run_first (i := false) rfl ?_
  rwa [hnext]

/-- The second program runs its next part. -/
theorem second (h : Schedule step (both p (f (q.exec step s).1)) (q.exec step s).2 a s') :
    Schedule step (both p (q >>= f)) s a s' := by
  have hnext : Function.update (both p (q >>= f)) true (f (q.exec step s).1) =
      both p (f (q.exec step s).1) := by
    funext second
    cases second <;> rfl
  refine run_first (i := true) rfl ?_
  rwa [hnext]

end

end Schedule

end Lib
