import IoHacks.Lib.Query
import IoHacks.Lib.Run

/-!
# Programs on a device

A device with a state `δ` answers every request and goes to its next state. `Serves step p s d o s'
d'`: with the answers of the device in the state `d`, the program `p` goes from its own state `s` to
`s'` and ends with the outcome `o`, which leaves the device in the state `d'`. There is a rule for
every construct of a program; a loop is served iteration by iteration (`Serves.loop_none`,
`Serves.loop_some`). `Leads` has a postcondition for the outcome and the two states. `Stops` is an
exit right after an event that it names. `Scripted` runs a script of programs one after the other on
the device.
-/

namespace Lib

open Prog

variable {Req Ans σ δ α β : Type} {step : Req → δ → Ans × δ}

/-- The answers to the events are those of the device. -/
def Conforms (step : Req → δ → Ans × δ) : List (Req × Ans) → δ → δ → Prop
  | [], d, d' => d = d'
  | (r, x) :: evs, d, d' => (step r d).1 = x ∧ Conforms step evs (step r d).2 d'

theorem Conforms.append {evs evs' : List (Req × Ans)} {d d' d'' : δ}
    (h : Conforms step evs d d') (h' : Conforms step evs' d' d'') :
    Conforms step (evs ++ evs') d d'' := by
  induction evs generalizing d with
  | nil =>
    obtain rfl := h
    exact h'
  | cons e evs ih => exact ⟨h.1, ih h.2⟩

/-- On the device, the program runs to the outcome `o`. -/
def Serves (step : Req → δ → Ans × δ) (p : Prog Req Ans σ α) (s : σ) (d : δ) (o : Outcome α)
    (s' : σ) (d' : δ) : Prop :=
  ∃ replies evs, Conforms step evs d d' ∧ ∀ rest, p (replies ++ rest) s =
    { outcome := o, events := evs, answers := rest, state := s' }

namespace Serves

variable {p : Prog Req Ans σ α} {f : α → Prog Req Ans σ β} {s s' s'' : σ} {d d' d'' : δ}

theorem pure (a : α) (s : σ) (d : δ) :
    Serves step (Pure.pure a : Prog Req Ans σ α) s d (.ret a) s d := by
  refine ⟨[], [], rfl, fun rest => ?_⟩
  rfl

theorem exit (status : Nat) (s : σ) (d : δ) :
    Serves step (Prog.exit status : Prog Req Ans σ α) s d (.exit status) s d := by
  refine ⟨[], [], rfl, fun rest => ?_⟩
  rfl

theorem get (s : σ) (d : δ) : Serves step Prog.get s d (.ret s) s d := by
  refine ⟨[], [], rfl, fun rest => ?_⟩
  rfl

theorem modify (g : σ → σ) (s : σ) (d : δ) :
    Serves step (Prog.modify g) s d (.ret ()) (g s) d := by
  refine ⟨[], [], rfl, fun rest => ?_⟩
  rfl

theorem ask (r : Req) (s : σ) (d : δ) :
    Serves step (Prog.ask r) s d (.ret (step r d).1) s (step r d).2 := by
  refine ⟨[(step r d).1], [(r, (step r d).1)], ⟨rfl, rfl⟩, fun rest => ?_⟩
  rfl

theorem bind {a : α} {o : Outcome β} (hp : Serves step p s d (.ret a) s' d')
    (hf : Serves step (f a) s' d' o s'' d'') : Serves step (p >>= f) s d o s'' d'' := by
  obtain ⟨replies, evs, hevs, hrun⟩ := hp
  obtain ⟨replies', evs', hevs', hrun'⟩ := hf
  refine ⟨replies ++ replies', evs ++ evs', hevs.append hevs', fun rest => ?_⟩
  rw [List.append_assoc, bind_of_ret (hrun _), hrun']
  rfl

theorem bind_exit {status : Nat} (hp : Serves step p s d (.exit status) s' d') :
    Serves step (p >>= f) s d (.exit status) s' d' := by
  obtain ⟨replies, evs, hevs, hrun⟩ := hp
  refine ⟨replies, evs, hevs, fun rest => ?_⟩
  rw [bind_run, hrun]
  rfl

section
variable {body : Prog Req Ans σ (Option α)} (hc : Consumes body)
include hc

/-- An iteration that goes on. -/
theorem loop_none {o : Outcome α} (hb : Serves step body s d (.ret none) s' d')
    (hl : Serves step (loop body) s' d' o s'' d'') : Serves step (loop body) s d o s'' d'' := by
  rw [loop_eq hc]
  exact hb.bind hl

/-- The last iteration. -/
theorem loop_some {a : α} (hb : Serves step body s d (.ret (some a)) s' d') :
    Serves step (loop body) s d (.ret a) s' d' := by
  rw [loop_eq hc]
  exact hb.bind (.pure a s' d')

/-- An iteration that ends the program. -/
theorem loop_exit {status : Nat} (hb : Serves step body s d (.exit status) s' d') :
    Serves step (loop body) s d (.exit status) s' d' := by
  rw [loop_eq hc]
  exact hb.bind_exit

end

end Serves

/-- On the device, the program ends as `Q` says. -/
def Leads (step : Req → δ → Ans × δ) (p : Prog Req Ans σ α) (s : σ) (d : δ)
    (Q : Outcome α → σ → δ → Prop) : Prop :=
  ∃ o s' d', Serves step p s d o s' d' ∧ Q o s' d'

namespace Leads

variable {p : Prog Req Ans σ α} {f : α → Prog Req Ans σ β} {s s' : σ} {d d' : δ}
  {Q : Outcome β → σ → δ → Prop}

theorem pure {b : β} (h : Q (.ret b) s d) :
    Leads step (Pure.pure b : Prog Req Ans σ β) s d Q :=
  ⟨.ret b, s, d, .pure b s d, h⟩

/-- A first part whose end is known. -/
theorem after {a : α} (hp : Serves step p s d (.ret a) s' d') (hf : Leads step (f a) s' d' Q) :
    Leads step (p >>= f) s d Q := by
  obtain ⟨o, s'', d'', hserves, hQ⟩ := hf
  exact ⟨o, s'', d'', hp.bind hserves, hQ⟩

/-- A first part with a postcondition. -/
theorem bind {P : Outcome α → σ → δ → Prop} (hp : Leads step p s d P)
    (hf : ∀ o s' d', P o s' d' → ∃ a, o = .ret a ∧ Leads step (f a) s' d' Q) :
    Leads step (p >>= f) s d Q := by
  obtain ⟨o, s', d', hserves, hP⟩ := hp
  obtain ⟨a, rfl, hrest⟩ := hf o s' d' hP
  exact .after hserves hrest

/-- An iteration that goes on. -/
theorem loop_none {body : Prog Req Ans σ (Option β)} (hc : Consumes body)
    (hb : Serves step body s d (.ret none) s' d') (hl : Leads step (loop body) s' d' Q) :
    Leads step (loop body) s d Q := by
  obtain ⟨o, s'', d'', hserves, hQ⟩ := hl
  exact ⟨o, s'', d'', .loop_none hc hb hserves, hQ⟩

end Leads

/-- On the device, the program exits right after the event `e`. -/
def Stops (step : Req → δ → Ans × δ) (p : Prog Req Ans σ α) (s : σ) (d : δ) (e : Req × Ans)
    (status : Nat) (s' : σ) (d' : δ) : Prop :=
  ∃ replies evs, Conforms step (evs ++ [e]) d d' ∧ ∀ rest, p (replies ++ rest) s =
    { outcome := .exit status, events := evs ++ [e], answers := rest, state := s' }

namespace Stops

variable {p : Prog Req Ans σ α} {f : α → Prog Req Ans σ β} {s s' s'' : σ} {d d' d'' : δ}
  {e : Req × Ans} {status : Nat} {a : α}

/-- The last request, and an end without another one. -/
theorem last {r : Req} {x : Ans} (hstep : step r d = (x, d'))
    (hp : ∀ rest, p (x :: rest) s =
      { outcome := .ret a, events := [(r, x)], answers := rest, state := s' })
    (hf : ∀ rest, f a rest s' =
      { outcome := .exit status, events := [], answers := rest, state := s'' }) :
    Stops step (p >>= f) s d (r, x) status s'' d' := by
  refine ⟨[x], [], ⟨congrArg Prod.fst hstep, congrArg Prod.snd hstep⟩, fun rest => ?_⟩
  rw [List.cons_append, bind_of_ret (hp _), List.nil_append, hf]
  rfl

theorem bind (hp : Stops step p s d e status s' d') : Stops step (p >>= f) s d e status s' d' := by
  obtain ⟨replies, evs, hevs, hrun⟩ := hp
  refine ⟨replies, evs, hevs, fun rest => ?_⟩
  rw [bind_run, hrun]
  rfl

/-- A first part that returns. -/
theorem after (hp : Serves step p s d (.ret a) s' d')
    (hf : Stops step (f a) s' d' e status s'' d'') : Stops step (p >>= f) s d e status s'' d'' := by
  obtain ⟨replies, evs, hevs, hrun⟩ := hp
  obtain ⟨replies', evs', hevs', hrun'⟩ := hf
  refine ⟨replies ++ replies', evs ++ evs', ?_, fun rest => ?_⟩
  · rw [List.append_assoc]
    exact hevs.append hevs'
  · rw [List.append_assoc, bind_of_ret (hrun _), hrun', List.append_assoc]
    rfl

end Stops

section
variable {κ ρ γ : Type} (step) (prog : κ → Prog Req Ans σ α) (start : κ → σ)
  (result : Outcome α → σ → ρ)

/-- The script runs on the device: every call `c` starts its program in the state `start c`, and the
script goes on with the result of that. -/
inductive Scripted : Query κ ρ γ → δ → γ → δ → Prop where
  | ret (b : γ) (d : δ) : Scripted (.ret b) d b d
  | ask {c : κ} {k : ρ → Query κ ρ γ} {d d' d'' : δ} {o : Outcome α} {s : σ} {b : γ} :
      Serves step (prog c) (start c) d o s d' → Scripted (k (result o s)) d' b d'' →
      Scripted (.ask c k) d b d''

/-- When every program does on the device what its call says, so does a script. -/
theorem scripted_exec {call : κ → δ → ρ × δ} (h : ∀ c d, Leads step (prog c) (start c) d
    fun o s d' => result o s = (call c d).1 ∧ d' = (call c d).2) (script : Query κ ρ γ) (d : δ) :
    Scripted step prog start result script d (script.exec call d).1 (script.exec call d).2 := by
  induction script generalizing d with
  | ret b => exact .ret b d
  | ask c k ih =>
    obtain ⟨o, s, d', hserves, hresult, rfl⟩ := h c d
    refine .ask hserves ?_
    rw [hresult]
    exact ih _ _

end

end Lib
