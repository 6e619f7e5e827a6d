import Mathlib.Tactic.Common

/-!
# Query programs

`Query Req Ans α`: a finite program that asks a device for answers and returns an `α`. A program
is a tree (`ret` a value, or `ask` a request and continue with its answer), so one program can be
run against any device: `Query.eval env` answers every request `r` with `env r` (a device whose
contents are stable during the run) and `Query.trace env` lists the requests of that run,
`Query.exec step` runs it on a device with a state, and `Runs p evs a` is a run on any device, with
its requests and answers. `eval` and `exec` push through `bind` (`eval_bind`, `exec_bind`), so a
program in `do` notation is evaluated by `simp`.

`Sim R p q` relates two programs that ask the same requests whatever the answers are, and return
values in the relation `R`. It has a rule for every construct (`Sim.bind`, `Sim.ite`, …), so two
runs of one program on different inputs are compared without evaluating them.
-/

namespace Lib

/-- A finite program that asks requests `Req`, gets answers `Ans` and returns an `α`. -/
inductive Query (Req Ans α : Type) where
  | ret (a : α)
  | ask (r : Req) (k : Ans → Query Req Ans α)

namespace Query

variable {Req Ans α β γ : Type}

protected def bind : Query Req Ans α → (α → Query Req Ans β) → Query Req Ans β
  | .ret a, f => f a
  | .ask r k, f => .ask r fun x => (k x).bind f

instance : Monad (Query Req Ans) where
  pure := .ret
  bind := Query.bind

/-- Ask one request and return its answer. -/
def request (r : Req) : Query Req Ans Ans := .ask r .ret

/-- The value a program returns when every request `r` is answered by `env r`. -/
def eval (env : Req → Ans) : Query Req Ans α → α
  | .ret a => a
  | .ask r k => eval env (k (env r))

section
variable (env : Req → Ans)

@[simp] theorem eval_pure (a : α) : eval env (pure a : Query Req Ans α) = a := rfl

@[simp] theorem eval_bind (p : Query Req Ans α) (f : α → Query Req Ans β) :
    eval env (p >>= f) = eval env (f (eval env p)) := by
  induction p with
  | ret a => rfl
  | ask r k ih => exact ih (env r)

@[simp] theorem eval_ite {c : Prop} [Decidable c] (p q : Query Req Ans α) :
    eval env (if c then p else q) = if c then eval env p else eval env q := by
  split <;> rfl

end

/-- The requests that a program asks when every request `r` is answered by `env r`. -/
def trace (env : Req → Ans) : Query Req Ans α → List Req
  | .ret _ => []
  | .ask r k => r :: trace env (k (env r))

/-! ## Any device -/

/-- With some answers, the program asks the requests of `evs`, gets those answers and returns
`a`. -/
inductive Runs : Query Req Ans α → List (Req × Ans) → α → Prop where
  | ret (a : α) : Runs (.ret a) [] a
  | ask {r : Req} {k : Ans → Query Req Ans α} {x : Ans} {evs : List (Req × Ans)} {a : α}
      (h : Runs (k x) evs a) : Runs (.ask r k) ((r, x) :: evs) a

section
variable {evs : List (Req × Ans)}

@[simp] theorem runs_pure {a b : α} :
    Runs (pure a : Query Req Ans α) evs b ↔ evs = [] ∧ b = a := by
  constructor
  · intro h
    cases h
    exact ⟨rfl, rfl⟩
  · rintro ⟨rfl, rfl⟩
    exact .ret _

/-- A request may be answered by anything. -/
@[simp] theorem runs_request_bind {r : Req} {f : Ans → Query Req Ans α} {a : α} :
    Runs (request r >>= f) evs a ↔ ∃ x evs', evs = (r, x) :: evs' ∧ Runs (f x) evs' a := by
  constructor
  · intro h
    cases h with
    | ask h => exact ⟨_, _, rfl, h⟩
  · rintro ⟨x, evs', rfl, h⟩
    exact .ask h

/-- The last request of a program, with a result that does not depend on the answer. -/
theorem runs_request_pure {r : Req} {a b : α} :
    Runs (request r >>= fun _ => pure a) evs b ↔ ∃ x, evs = [(r, x)] ∧ b = a := by
  simp only [runs_request_bind, runs_pure]
  constructor
  · rintro ⟨x, evs', rfl, rfl, rfl⟩
    exact ⟨x, rfl, rfl⟩
  · rintro ⟨x, rfl, rfl⟩
    exact ⟨x, [], rfl, rfl, rfl⟩

/-- A run of a sequence is a run of its first part and then one of its second. -/
theorem runs_bind {p : Query Req Ans α} {f : α → Query Req Ans β} {b : β} :
    Runs (p >>= f) evs b ↔
      ∃ a evs₁ evs₂, evs = evs₁ ++ evs₂ ∧ Runs p evs₁ a ∧ Runs (f a) evs₂ b := by
  constructor
  · intro h
    induction p generalizing evs with
    | ret a => exact ⟨a, [], evs, rfl, .ret a, h⟩
    | ask r k ih =>
      obtain ⟨x, evs, rfl, h'⟩ := runs_request_bind.1 h
      obtain ⟨a, evs₁, evs₂, rfl, h₁, h₂⟩ := ih x h'
      exact ⟨a, (r, x) :: evs₁, evs₂, rfl, .ask h₁, h₂⟩
  · rintro ⟨a, evs₁, evs₂, rfl, h₁, h₂⟩
    induction h₁ with
    | ret a => exact h₂
    | ask _ ih => exact .ask (ih h₂)

end

/-- The run on a device with stable contents. -/
theorem runs_eval (env : Req → Ans) (p : Query Req Ans α) :
    Runs p ((p.trace env).map fun r => (r, env r)) (p.eval env) := by
  induction p with
  | ret a => exact .ret a
  | ask r k ih => exact .ask (ih (env r))

/-- The value of a program and the last state of a device that answers by `step`. -/
def exec {σ : Type} (step : Req → σ → Ans × σ) : Query Req Ans α → σ → α × σ
  | .ret a, s => (a, s)
  | .ask r k, s => exec step (k (step r s).1) (step r s).2

section
variable {σ : Type} (step : Req → σ → Ans × σ) (s : σ)

@[simp] theorem exec_pure (a : α) : exec step (pure a : Query Req Ans α) s = (a, s) := rfl

@[simp] theorem exec_request (r : Req) :
    exec step (request r : Query Req Ans Ans) s = step r s := rfl

@[simp] theorem exec_bind (p : Query Req Ans α) (f : α → Query Req Ans β) :
    exec step (p >>= f) s = exec step (f (exec step p s).1) (exec step p s).2 := by
  induction p generalizing s with
  | ret a => rfl
  | ask r k ih => exact ih _ _

end

/-! ## Two programs side by side -/

/-- The programs ask the same requests, and get to values in `R` when the answers are the same. -/
inductive Sim (R : α → β → Prop) : Query Req Ans α → Query Req Ans β → Prop where
  | ret {a : α} {b : β} (h : R a b) : Sim R (.ret a) (.ret b)
  | ask {r : Req} {k : Ans → Query Req Ans α} {l : Ans → Query Req Ans β}
      (h : ∀ x, Sim R (k x) (l x)) : Sim R (.ask r k) (.ask r l)

namespace Sim

variable {δ : Type} {R : α → β → Prop} {S : γ → δ → Prop}
  {p p' : Query Req Ans α} {q q' : Query Req Ans β}

theorem refl (p : Query Req Ans α) : Sim Eq p p := by
  induction p with
  | ret a => exact .ret rfl
  | ask r k ih => exact .ask ih

theorem pure {a : α} {b : β} (h : R a b) :
    Sim R (pure a : Query Req Ans α) (pure b : Query Req Ans β) := .ret h

/-- A request is answered alike in both programs. -/
theorem request_bind {r : Req} {f : Ans → Query Req Ans α} {g : Ans → Query Req Ans β}
    (h : ∀ x, Sim R (f x) (g x)) : Sim R (request r >>= f) (request r >>= g) := .ask h

theorem bind {f : α → Query Req Ans γ} {g : β → Query Req Ans δ} (h : Sim R p q)
    (hf : ∀ a b, R a b → Sim S (f a) (g b)) : Sim S (p >>= f) (q >>= g) := by
  induction h with
  | ret h => exact hf _ _ h
  | ask _ ih => exact .ask ih

theorem ite {c c' : Prop} [Decidable c] [Decidable c'] (hc : c ↔ c') (h : Sim R p q)
    (h' : Sim R p' q') : Sim R (if c then p else p') (if c' then q else q') := by
  by_cases hp : c
  · rwa [if_pos hp, if_pos (hc.1 hp)]
  · rwa [if_neg hp, if_neg fun hp' => hp (hc.2 hp')]

theorem eval (h : Sim R p q) (env : Req → Ans) : R (p.eval env) (q.eval env) := by
  induction h with
  | ret h => exact h
  | ask _ ih => exact ih _

theorem trace_eq (h : Sim R p q) (env : Req → Ans) : p.trace env = q.trace env := by
  induction h with
  | ret _ => rfl
  | ask _ ih => exact congrArg (List.cons _) (ih _)

end Sim

end Query

end Lib
