import IoHacks.Lib.Query

/-!
# Scripts

A script calls other programs and goes on by what they return: a `Query` program whose requests
are the calls. `Query.subst` runs it, with a program for every call. `Query.capture` is a program
together with the texts that it prints, as a script sees it, and `Query.run` executes it so.
`Query.Always` says what holds in all states of a run.

`Refines` says that on a device the program of a call returns and does what the call does on an
abstract state. Then a whole script does on the device what it does on the abstract state
(`Refines.exec_subst`), whatever it decides by the results in between.
-/

namespace Lib

namespace Query

variable {Req Ans κ α β : Type}

/-- The script `p` with the program `impl c` run at every call `c`. -/
def subst (impl : κ → Query Req Ans β) : Query κ β α → Query Req Ans α
  | .ret a => .ret a
  | .ask c k => impl c >>= fun b => subst impl (k b)

/-- The program with the texts that its requests print. -/
def capture (text : Req → Option String) : Query Req Ans α → Query Req Ans (List String × α)
  | .ret a => .ret ([], a)
  | .ask r k => .ask r fun x =>
    capture text (k x) >>= fun out => .ret ((text r).toList ++ out.1, out.2)

theorem bind_assoc {γ : Type} (p : Query Req Ans α) (f : α → Query Req Ans β)
    (g : β → Query Req Ans γ) : p >>= f >>= g = p >>= fun a => f a >>= g := by
  induction p with
  | ret a => rfl
  | ask r k ih => exact congrArg (Query.ask r) (funext ih)

section
variable {text : Req → Option String}

/-- A sequence prints the texts of its first part and then those of its second. -/
theorem capture_bind (p : Query Req Ans α) (f : α → Query Req Ans β) :
    capture text (p >>= f) = capture text p >>= fun out =>
      capture text (f out.2) >>= fun out' => pure (out.1 ++ out'.1, out'.2) := by
  induction p with
  | ret a =>
    have hret : ∀ q : Query Req Ans (List String × β), q >>= pure = q := fun q => by
      induction q with
      | ret b => rfl
      | ask r k ih => exact congrArg (Query.ask r) (funext ih)
    exact (hret _).symm
  | ask r k ih =>
    refine congrArg (Query.ask r) (funext fun x => ?_)
    show capture text (k x >>= f) >>= _ = (capture text (k x) >>= _) >>= _
    rw [ih, bind_assoc, bind_assoc]
    refine congrArg _ (funext fun out => ?_)
    show (capture text (f out.2) >>= _) >>= _ = capture text (f out.2) >>= _
    rw [bind_assoc]
    refine congrArg _ (funext fun out' => ?_)
    exact congrArg Query.ret (Prod.ext (List.append_assoc ..).symm rfl)

variable {σ : Type} (step : Req → σ → Ans × σ)

/-- What a program prints and returns when a device with a state answers it, and what it leaves. -/
def run (text : Req → Option String) (p : Query Req Ans α) (s : σ) : (List String × α) × σ :=
  (capture text p).exec step s

@[simp] theorem run_pure (a : α) (s : σ) :
    run step text (pure a : Query Req Ans α) s = (([], a), s) := rfl

@[simp] theorem run_request (r : Req) (s : σ) :
    run step text (request r : Query Req Ans Ans) s =
      (((text r).toList, (step r s).1), (step r s).2) := by
  show ((((text r).toList ++ [], (step r s).1), (step r s).2) : (List String × Ans) × σ) = _
  rw [List.append_nil]

@[simp] theorem run_bind (p : Query Req Ans α) (f : α → Query Req Ans β) (s : σ) :
    run step text (p >>= f) s =
      (((run step text p s).1.1 ++ (run step text (f (run step text p s).1.2)
          (run step text p s).2).1.1,
        (run step text (f (run step text p s).1.2) (run step text p s).2).1.2),
        (run step text (f (run step text p s).1.2) (run step text p s).2).2) := by
  simp only [run, capture_bind, exec_bind, exec_pure]

/-- Its value and the last state are those without the texts. -/
theorem run_exec (text : Req → Option String) (p : Query Req Ans α) (s : σ) :
    (run step text p s).1.2 = (p.exec step s).1 ∧ (run step text p s).2 = (p.exec step s).2 := by
  induction p generalizing s with
  | ret a => exact ⟨rfl, rfl⟩
  | ask r k ih =>
    obtain ⟨hvalue, hstate⟩ := ih (step r s).1 (step r s).2
    simp only [run, capture, exec, exec_bind] at hvalue hstate ⊢
    exact ⟨hvalue, hstate⟩

/-- `P` holds in all the states that a run of the program visits. -/
def Always (P : σ → Prop) : Query Req Ans α → σ → Prop
  | .ret _, s => P s
  | .ask r k, s => P s ∧ Always P (k (step r s).1) (step r s).2

section
variable {step} {P : σ → Prop} {s : σ}

theorem Always.start {p : Query Req Ans α} (h : Always step P p s) : P s := by
  cases p with
  | ret a => exact h
  | ask r k => exact h.1

/-- A sequence: its first part, and its second part from where the first one ends. -/
theorem always_bind {p : Query Req Ans α} {f : α → Query Req Ans β} :
    Always step P (p >>= f) s ↔
      Always step P p s ∧ Always step P (f (p.exec step s).1) (p.exec step s).2 := by
  induction p generalizing s with
  | ret a => exact ⟨fun h => ⟨h.start, h⟩, fun h => h.2⟩
  | ask r k ih =>
    show _ ∧ Always step P (k (step r s).1 >>= f) (step r s).2 ↔ _
    rw [ih, ← and_assoc]
    exact Iff.rfl

end

end

end Query

variable {Req Ans κ α β σ τ : Type}

/-- From related states, the program of every call returns what the call returns on the abstract
state, and leaves related states. -/
structure Refines (step : Req → σ → Ans × σ) (impl : κ → Query Req Ans β)
    (call : κ → τ → β × τ) (R : σ → τ → Prop) : Prop where
  result : ∀ c {s t}, R s t → ((impl c).exec step s).1 = (call c t).1
  state : ∀ c {s t}, R s t → R ((impl c).exec step s).2 (call c t).2

/-- **Scripts refine.** -/
theorem Refines.exec_subst {step : Req → σ → Ans × σ} {impl : κ → Query Req Ans β}
    {call : κ → τ → β × τ} {R : σ → τ → Prop} (h : Refines step impl call R) (p : Query κ β α)
    {s : σ} {t : τ} (hR : R s t) :
    ((p.subst impl).exec step s).1 = (p.exec call t).1 ∧
      R ((p.subst impl).exec step s).2 (p.exec call t).2 := by
  induction p generalizing s t with
  | ret a => exact ⟨rfl, hR⟩
  | ask c k ih =>
    rw [Query.subst, Query.exec_bind, h.result c hR]
    exact ih _ (h.state c hR)

end Lib
