import IoHacks.Lib.Schedule

/-!
# Rely and guarantee

Programs that share a device rely on what the others may do to it, and guarantee the same of
themselves. `Guarantees step R P p Q`: when `P` holds at the start, every request of `p` changes
the state as `R` allows, and `Q` holds of the value and of the state at the end, whatever the
others do in between as `R` allows it. A schedule of such programs does what `R` allows, and every
program ends as it should (`Schedule.guaranteed`).

`Confined` is an `R` for devices where an index register selects the register that is accessed:
what is selected, and what is written, stays within bounds.
-/

namespace Lib

open Query

variable {ι Req Ans σ α β : Type}

/-- What the others may do leaves `P` true. -/
def Stable (R : σ → σ → Prop) (P : σ → Prop) : Prop := ∀ s s', R s s' → P s → P s'

/-- `P'` is what the program knows by an answer; the others may do something before it goes on. -/
inductive Query.Guarantees (step : Req → σ → Ans × σ) (R : σ → σ → Prop) :
    (σ → Prop) → Query Req Ans α → (α → σ → Prop) → Prop where
  | ret {P : σ → Prop} {Q : α → σ → Prop} {a : α} (h : ∀ s, P s → Q a s) :
    Guarantees step R P (.ret a) Q
  | ask {P : σ → Prop} {P' : Ans → σ → Prop} {Q : α → σ → Prop} {r : Req}
      {k : Ans → Query Req Ans α}
      (hstep : ∀ s, P s → R s (step r s).2 ∧ P' (step r s).1 (step r s).2)
      (hstable : ∀ x, Stable R (P' x)) (h : ∀ x, Guarantees step R (P' x) (k x) Q) :
    Guarantees step R P (.ask r k) Q

variable {step : Req → σ → Ans × σ} {R : σ → σ → Prop} {P P' : σ → Prop} {p : Query Req Ans α}
  {f : α → Query Req Ans β} {Q : α → σ → Prop} {Q' : β → σ → Prop}

theorem stable_and {P' : Prop} (h : Stable R P) : Stable R fun s => P' ∧ P s :=
  fun s s' hR hP => ⟨hP.1, h s s' hR hP.2⟩

theorem stable_const {P : Prop} : Stable R fun _ => P := fun _ _ _ h => h

namespace Query.Guarantees

theorem weaken (hp : Guarantees step R P p Q) (h : ∀ s, P' s → P s) :
    Guarantees step R P' p Q := by
  cases hp with
  | ret hQ => exact .ret fun s hP => hQ s (h s hP)
  | ask hstep hstable hk => exact .ask (fun s hP => hstep s (h s hP)) hstable hk

theorem bind (hp : Guarantees step R P p Q) (hf : ∀ a, Guarantees step R (Q a) (f a) Q') :
    Guarantees step R P (p >>= f) Q' := by
  induction hp with
  | ret h => exact (hf _).weaken h
  | ask hstep hstable _ ih => exact .ask hstep hstable fun x => ih x hf

theorem request {r : Req} {Q : Ans → σ → Prop}
    (hstep : ∀ s, P s → R s (step r s).2 ∧ Q (step r s).1 (step r s).2)
    (hstable : ∀ x, Stable R (Q x)) :
    Guarantees step R P (request r : Query Req Ans Ans) Q :=
  .ask hstep hstable fun _ => .ret fun _ h => h

/-- A request that changes nothing. -/
theorem read {r : Req} (hrefl : ∀ s, R s s) (hP : Stable R P) (hr : ∀ s, (step r s).2 = s) :
    Guarantees step R P (Query.request r : Query Req Ans Ans) fun _ => P := by
  refine request (fun s h => ?_) fun _ => hP
  rw [hr]
  exact ⟨hrefl s, h⟩

/-- A request that the device does not see. -/
theorem inert {r : Req} {x : Ans} (hrefl : ∀ s, R s s) (hP : Stable R P)
    (hr : ∀ s, step r s = (x, s)) :
    Guarantees step R P (Query.request r : Query Req Ans Ans) fun y s => y = x ∧ P s := by
  refine request (fun s h => ?_) fun _ => stable_and hP
  rw [hr]
  exact ⟨hrefl s, rfl, h⟩

/-- A program that is never started. -/
theorem unreachable (h : ∀ s, ¬P s) : Guarantees step R P p Q := by
  induction p generalizing P with
  | ret a => exact .ret fun s hP => absurd hP (h s)
  | ask r k ih =>
    exact .ask (fun s hP => absurd hP (h s)) (fun _ => stable_const) fun x => ih x fun _ h => h

/-- A test of which the precondition knows how it ends. -/
theorem ite_neg {c : Prop} [Decidable c] {q : Query Req Ans α}
    (hq : Guarantees step R P q Q) (h : ∀ s, P s → ¬c) :
    Guarantees step R P (if c then p else q) Q := by
  by_cases hc : c
  · rw [if_pos hc]
    exact unreachable fun s hP => h s hP hc
  · rwa [if_neg hc]

theorem capture (hp : Guarantees step R P p Q) (text : Req → Option String) :
    Guarantees step R P (p.capture text) fun out => Q out.2 := by
  induction hp with
  | ret h => exact .ret h
  | ask hstep hstable _ ih =>
    exact .ask hstep hstable fun x => (ih x).bind fun out => .ret fun _ h => h

end Query.Guarantees

namespace Schedule

variable [DecidableEq ι] {p : ι → Query Req Ans α} {s s' : σ} {a : ι → α}

/-- **Schedules of programs with guarantees.** The induction is on the turns: one program makes a
step that the others rely on. -/
theorem guaranteed {P : ι → σ → Prop} {Q : ι → α → σ → Prop} (h : Schedule step p s a s')
    (hrefl : ∀ s, R s s) (htrans : ∀ s₁ s₂ s₃, R s₁ s₂ → R s₂ s₃ → R s₁ s₃)
    (hp : ∀ i, (p i).Guarantees step R (P i) (Q i)) (hP : ∀ i, Stable R (P i))
    (hs : ∀ i, P i s) : R s s' ∧ ∀ i, Q i (a i) s' := by
  induction h generalizing P with
  | done a s =>
    refine ⟨hrefl s, fun i => ?_⟩
    have hi : Guarantees step R (P i) (.ret (a i)) (Q i) := hp i
    cases hi with
    | ret h => exact h s (hs i)
  | @turn p s s' a i r k hi _ ih =>
    have hturn := hp i
    rw [hi] at hturn
    cases hturn with
    | @ask _ P' _ _ _ hstep hstable hk =>
      obtain ⟨hR, hnext⟩ := hstep s (hs i)
      have hp' : ∀ j, (Function.update p i (k (step r s).1) j).Guarantees step R
          (Function.update P i (P' (step r s).1) j) (Q j) := by
        intro j
        by_cases hj : j = i
        · subst hj
          rw [Function.update_self, Function.update_self]
          exact hk _
        · rw [Function.update_of_ne hj, Function.update_of_ne hj]
          exact hp j
      have hP' : ∀ j, Stable R (Function.update P i (P' (step r s).1) j) :=
        (Function.forall_update_iff P fun _ P => Stable R P).2 ⟨hstable _, fun j _ => hP j⟩
      have hs' : ∀ j, Function.update P i (P' (step r s).1) j (step r s).2 :=
        (Function.forall_update_iff P fun _ P => P (step r s).2).2
          ⟨hnext, fun j _ => hP j _ _ hR (hs j)⟩
      obtain ⟨hrest, hend⟩ := ih hp' hP' hs'
      exact ⟨htrans _ _ _ hR hrest, hend⟩

end Schedule

/-! ## Index registers -/

section
variable {Index Cell Word : Type} (sel : Index → Prop) (cell : Index → Cell) (sent : Word → Prop)

/-- The index goes from a selected one to a selected one, and a register changes only where it can
be selected, to a word that is sent. -/
structure Confined (index index' : Index) (regs regs' : Cell → Word) : Prop where
  index : sel index → sel index'
  regs : ∀ c, regs' c = regs c ∨ (∃ i, sel i ∧ cell i = c) ∧ sent (regs' c)

namespace Confined

variable {sel cell sent} {index index' index'' : Index} {regs regs' regs'' : Cell → Word}

theorem refl : Confined sel cell sent index index regs regs := ⟨id, fun _ => .inl rfl⟩

theorem trans (h : Confined sel cell sent index index' regs regs')
    (h' : Confined sel cell sent index' index'' regs' regs'') :
    Confined sel cell sent index index'' regs regs'' := by
  refine ⟨fun hsel => h'.index (h.index hsel), fun c => ?_⟩
  rcases h'.regs c with heq | hsent
  · rw [heq]
    exact h.regs c
  · exact .inr hsent

theorem select (h : sel index') : Confined sel cell sent index index' regs regs :=
  ⟨fun _ => h, fun _ => .inl rfl⟩

theorem write [DecidableEq Cell] {word : Word} (hsel : sel index) (hsent : sent word) :
    Confined sel cell sent index index regs (Function.update regs (cell index) word) := by
  refine ⟨id, fun c => ?_⟩
  by_cases hc : c = cell index
  · subst hc
    rw [Function.update_self]
    exact .inr ⟨⟨index, hsel, rfl⟩, hsent⟩
  · exact .inl (Function.update_of_ne hc ..)

end Confined

end

end Lib
