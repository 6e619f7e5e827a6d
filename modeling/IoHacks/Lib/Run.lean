import Mathlib.Tactic.Common

/-!
# Programs against a list of answers

A `Prog Req Ans σ α` issues requests to an environment that it does not control, keeps a state
`σ`, and returns an `α`, exits with a status, or goes on for ever. The environment is the list of
the answers it will give: a run (`Run`) consumes them one by one and waits when there are none
left, so a program that never ends is one that waits on every finite list, and a statement about
all lists is about every behaviour of the environment. The events of a run are its requests with
their answers.

* `Prog.loop` is the unbounded loop. It ends its run only when the body does (`loop_eq`), provided
  that an iteration that goes on consumes an answer.
* `Prog.wp` is the weakest precondition over the events so far and the state, with a rule for
  every construct (`wp_bind`, `wp_ask`, `wp_loop`, …).
-/

namespace Lib

/-- How a run ends, or that it waits for an answer. -/
inductive Outcome (α : Type) where
  | ret (a : α)
  | exit (status : Nat)
  | wait
  deriving DecidableEq

/-- What a run did, the answers it left and its last state. -/
structure Run (Req Ans σ α : Type) where
  outcome : Outcome α
  events : List (Req × Ans)
  answers : List Ans
  state : σ

/-- A program, by its run on every list of answers. -/
def Prog (Req Ans σ α : Type) : Type := List Ans → σ → Run Req Ans σ α

variable {Req Ans σ α β : Type}

/-- The run with the events `evs` before it. -/
def Run.after (evs : List (Req × Ans)) (r : Run Req Ans σ α) : Run Req Ans σ α :=
  { r with events := evs ++ r.events }

@[simp] theorem Run.after_state (evs : List (Req × Ans)) (r : Run Req Ans σ α) :
    (r.after evs).state = r.state := rfl

theorem Run.after_after (evs evs' : List (Req × Ans)) (r : Run Req Ans σ α) :
    (r.after evs').after evs = r.after (evs ++ evs') := by
  simp only [Run.after, List.append_assoc]

/-- A run followed by the program that takes over its value. -/
def Run.andThen (r : Run Req Ans σ α) (f : α → Prog Req Ans σ β) : Run Req Ans σ β :=
  match r.outcome with
  | .ret a => (f a r.answers r.state).after r.events
  | .exit status => { r with outcome := .exit status }
  | .wait => { r with outcome := .wait }

namespace Prog

instance : Monad (Prog Req Ans σ) where
  pure a := fun answers s => { outcome := .ret a, events := [], answers, state := s }
  bind p f := fun answers s => (p answers s).andThen f

/-- Issue a request and return its answer. -/
def ask (r : Req) : Prog Req Ans σ Ans := fun answers s =>
  match answers with
  | [] => { outcome := .wait, events := [], answers, state := s }
  | a :: rest => { outcome := .ret a, events := [(r, a)], answers := rest, state := s }

/-- End the run. -/
def exit (status : Nat) : Prog Req Ans σ α := fun answers s =>
  { outcome := .exit status, events := [], answers, state := s }

def get : Prog Req Ans σ σ := fun answers s =>
  { outcome := .ret s, events := [], answers, state := s }

def modify (f : σ → σ) : Prog Req Ans σ Unit := fun answers s =>
  { outcome := .ret (), events := [], answers, state := f s }

/-! ## Runs of a sequence -/

section
variable {p : Prog Req Ans σ α} {f : α → Prog Req Ans σ β} {answers answers' : List Ans} {s s' : σ}

theorem bind_run (p : Prog Req Ans σ α) (f : α → Prog Req Ans σ β) (answers : List Ans) (s : σ) :
    (p >>= f) answers s = (p answers s).andThen f := rfl

/-- A sequence starts with the events of its first part. -/
theorem andThen_events (r : Run Req Ans σ α) (f : α → Prog Req Ans σ β) :
    ∃ evs, (r.andThen f).events = r.events ++ evs := by
  unfold Run.andThen
  cases r.outcome with
  | ret a => exact ⟨_, rfl⟩
  | exit status => exact ⟨[], (List.append_nil _).symm⟩
  | wait => exact ⟨[], (List.append_nil _).symm⟩

/-- A program that returned hands its answers and its state on. -/
theorem bind_of_ret {a : α} {evs : List (Req × Ans)}
    (h : p answers s = { outcome := .ret a, events := evs, answers := answers', state := s' }) :
    (p >>= f) answers s = (f a answers' s').after evs := by
  rw [bind_run, h]
  rfl

/-- A sequence that returns ran its first part to the end. -/
theorem bind_ret_inv {b : β} (h : ((p >>= f) answers s).outcome = .ret b) :
    ∃ a, (p answers s).outcome = .ret a ∧
      (f a (p answers s).answers (p answers s).state).outcome = .ret b ∧
      (p >>= f) answers s =
        (f a (p answers s).answers (p answers s).state).after (p answers s).events := by
  rw [bind_run] at h ⊢
  unfold Run.andThen at h ⊢
  cases ho : (p answers s).outcome with
  | ret a =>
    rw [ho] at h
    exact ⟨a, rfl, h, rfl⟩
  | exit status =>
    rw [ho] at h
    cases h
  | wait =>
    rw [ho] at h
    cases h

/-- A sequence exits in its first part or in its second. -/
theorem bind_exit_inv {status : Nat} (h : ((p >>= f) answers s).outcome = .exit status) :
    (p answers s).outcome = .exit status ∨ ∃ a, (p answers s).outcome = .ret a ∧
      (f a (p answers s).answers (p answers s).state).outcome = .exit status := by
  rw [bind_run] at h
  unfold Run.andThen at h
  cases ho : (p answers s).outcome with
  | ret a =>
    rw [ho] at h
    exact .inr ⟨a, rfl, h⟩
  | exit status' =>
    rw [ho] at h
    cases h
    exact .inl rfl
  | wait =>
    rw [ho] at h
    cases h

end

/-! ## Agreement -/

/-- The two programs have the same run wherever the events of the first one satisfy `P`. -/
def AgreeOn (P : Req × Ans → Prop) (p q : Prog Req Ans σ α) : Prop :=
  ∀ answers s, (∀ e ∈ (p answers s).events, P e) → p answers s = q answers s

section
variable {P : Req × Ans → Prop} {p q : Prog Req Ans σ α} {f g : α → Prog Req Ans σ β}

theorem AgreeOn.refl (p : Prog Req Ans σ α) : AgreeOn P p p := fun _ _ _ => rfl

theorem AgreeOn.bind (hp : AgreeOn P p q) (hf : ∀ a, AgreeOn P (f a) (g a)) :
    AgreeOn P (p >>= f) (q >>= g) := by
  intro answers s h
  rw [bind_run] at h ⊢
  obtain ⟨evs, he⟩ := andThen_events (p answers s) f
  rw [bind_run, ← hp answers s fun e hm => h e (he ▸ List.mem_append_left _ hm)]
  unfold Run.andThen at h ⊢
  cases ho : (p answers s).outcome with
  | ret a =>
    rw [ho] at h
    have hrun := hf a (p answers s).answers (p answers s).state fun e hm =>
      h e (List.mem_append_right _ hm)
    simp only [hrun]
  | exit status => rfl
  | wait => rfl

end

/-! ## Loops -/

/-- End a loop with a value, or go on with `p`. -/
def next (p : Prog Req Ans σ α) : Option α → Prog Req Ans σ α
  | some a => pure a
  | none => p

/-- At most `n` iterations of a body that returns `none` to go on. -/
def loopN (body : Prog Req Ans σ (Option α)) : Nat → Prog Req Ans σ α
  | 0 => fun answers s => { outcome := .wait, events := [], answers, state := s }
  | n + 1 => body >>= next (loopN body n)

/-- Repeat `body` until it returns a value. -/
def loop (body : Prog Req Ans σ (Option α)) : Prog Req Ans σ α := fun answers s =>
  loopN body (answers.length + 1) answers s

/-- An iteration that goes on has consumed an answer. -/
def Consumes (body : Prog Req Ans σ (Option α)) : Prop :=
  ∀ answers s, (body answers s).outcome = .ret none →
    (body answers s).answers.length < answers.length

/-- More iterations than answers change nothing. -/
theorem loopN_eq {body : Prog Req Ans σ (Option α)} (h : Consumes body) :
    ∀ (n m : Nat) (answers : List Ans) (s : σ), answers.length < n → answers.length < m →
      loopN body n answers s = loopN body m answers s := by
  intro n
  induction n with
  | zero => exact fun m answers s hn => absurd hn (Nat.not_lt_zero _)
  | succ n ih =>
    intro m answers s hn hm
    obtain ⟨m, rfl⟩ : ∃ k, m = k + 1 := ⟨m - 1, by omega⟩
    have hlt := h answers s
    show (body answers s).andThen _ = (body answers s).andThen _
    unfold Run.andThen
    cases ho : (body answers s).outcome with
    | exit status => rfl
    | wait => rfl
    | ret o =>
      cases o with
      | some a => rfl
      | none =>
        have hrest := hlt ho
        exact congrArg (Run.after (body answers s).events)
          (ih m (body answers s).answers (body answers s).state (by omega) (by omega))

/-- **A loop is its body and then the loop again.** -/
theorem loop_eq {body : Prog Req Ans σ (Option α)} (h : Consumes body) :
    loop body = body >>= next (loop body) := by
  funext answers s
  show (body answers s).andThen _ = (body answers s).andThen _
  have hlt := h answers s
  unfold Run.andThen
  cases ho : (body answers s).outcome with
  | exit status => rfl
  | wait => rfl
  | ret o =>
    cases o with
    | some a => rfl
    | none =>
      exact congrArg (Run.after (body answers s).events)
        (loopN_eq h _ _ (body answers s).answers (body answers s).state (hlt ho)
          (Nat.lt_succ_self _))

section
variable {body : Prog Req Ans σ (Option α)} {answers answers' : List Ans} {s s' : σ}
  {evs : List (Req × Ans)} (h : Consumes body)
include h

theorem loop_run (answers : List Ans) (s : σ) :
    loop body answers s = (body answers s).andThen (next (loop body)) :=
  congrFun (congrFun (loop_eq h) answers) s

/-- An iteration that goes on. -/
theorem loop_of_none (hb : body answers s =
      { outcome := .ret none, events := evs, answers := answers', state := s' }) :
    loop body answers s = (loop body answers' s').after evs := by
  rw [loop_run h, hb]
  rfl

/-- The last iteration. -/
theorem loop_of_some {a : α} (hb : body answers s =
      { outcome := .ret (some a), events := evs, answers := answers', state := s' }) :
    loop body answers s =
      { outcome := .ret a, events := evs, answers := answers', state := s' } := by
  rw [loop_run h, hb]
  show ({ outcome := .ret a, events := evs ++ [], answers := answers', state := s' } : Run ..) = _
  rw [List.append_nil]

end

/-! ## Weakest preconditions -/

/-- What is to hold of the events and the state when a program returns, exits or waits. -/
structure Post (Req Ans σ α : Type) where
  ret : α → List (Req × Ans) → σ → Prop
  exit : Nat → List (Req × Ans) → σ → Prop
  wait : List (Req × Ans) → σ → Prop

def Post.Holds (Q : Post Req Ans σ α) (o : Outcome α) (evs : List (Req × Ans)) (s : σ) : Prop :=
  match o with
  | .ret a => Q.ret a evs s
  | .exit status => Q.exit status evs s
  | .wait => Q.wait evs s

/-- The post-condition of a program that is followed by others. -/
def Post.bind (Q : Post Req Ans σ β) (R : α → List (Req × Ans) → σ → Prop) : Post Req Ans σ α :=
  { ret := R, exit := Q.exit, wait := Q.wait }

/-- The post-condition of one iteration of a loop with the invariant `I`. -/
def Post.iteration (Q : Post Req Ans σ α) (I : List (Req × Ans) → σ → Prop) :
    Post Req Ans σ (Option α) :=
  Q.bind fun o evs s => match o with
    | some a => Q.ret a evs s
    | none => I evs s

/-- From the events `evs` and the state `s`, every run of `p` meets `Q`. -/
def wp (p : Prog Req Ans σ α) (Q : Post Req Ans σ α) (evs : List (Req × Ans)) (s : σ) : Prop :=
  ∀ answers, Q.Holds (p answers s).outcome (evs ++ (p answers s).events) (p answers s).state

section Rules
variable {Q : Post Req Ans σ α} {evs : List (Req × Ans)} {s : σ}

theorem wp_pure {a : α} (h : Q.ret a evs s) : wp (pure a) Q evs s := fun _ => by
  show Q.ret a (evs ++ []) s
  rwa [List.append_nil]

theorem wp_exit {status : Nat} (h : Q.exit status evs s) : wp (exit status) Q evs s := fun _ => by
  show Q.exit status (evs ++ []) s
  rwa [List.append_nil]

theorem wp_get {Q : Post Req Ans σ σ} (h : Q.ret s evs s) : wp get Q evs s := fun _ => by
  show Q.ret s (evs ++ []) s
  rwa [List.append_nil]

theorem wp_modify {Q : Post Req Ans σ Unit} {f : σ → σ} (h : Q.ret () evs (f s)) :
    wp (modify f) Q evs s := fun _ => by
  show Q.ret () (evs ++ []) (f s)
  rwa [List.append_nil]

/-- A request may be answered by anything, or not at all. -/
theorem wp_ask {Q : Post Req Ans σ Ans} {r : Req} (hw : Q.wait evs s)
    (h : ∀ a, Q.ret a (evs ++ [(r, a)]) s) : wp (ask r) Q evs s := by
  intro answers
  cases answers with
  | nil =>
    show Q.wait (evs ++ []) s
    rwa [List.append_nil]
  | cons a rest => exact h a

theorem wp_bind {Q : Post Req Ans σ β} {p : Prog Req Ans σ α} {f : α → Prog Req Ans σ β}
    (h : wp p (Q.bind fun a evs s => wp (f a) Q evs s) evs s) : wp (p >>= f) Q evs s := by
  intro answers
  have hp := h answers
  show Q.Holds ((p answers s).andThen f).outcome (evs ++ ((p answers s).andThen f).events)
    ((p answers s).andThen f).state
  unfold Run.andThen
  cases ho : (p answers s).outcome with
  | ret a =>
    rw [ho] at hp
    have hf := hp (p answers s).answers
    rw [List.append_assoc] at hf
    exact hf
  | exit status =>
    rw [ho] at hp
    exact hp
  | wait =>
    rw [ho] at hp
    exact hp

theorem wp_pure_bind {Q : Post Req Ans σ β} {a : α} {f : α → Prog Req Ans σ β}
    (h : wp (f a) Q evs s) : wp (pure a >>= f) Q evs s := wp_bind (wp_pure h)

theorem wp_get_bind {Q : Post Req Ans σ β} {f : σ → Prog Req Ans σ β} (h : wp (f s) Q evs s) :
    wp (get >>= f) Q evs s := wp_bind (wp_get h)

theorem wp_mono {Q' : Post Req Ans σ α} {p : Prog Req Ans σ α} (h : wp p Q evs s)
    (hret : ∀ a evs s, Q.ret a evs s → Q'.ret a evs s)
    (hexit : ∀ status evs s, Q.exit status evs s → Q'.exit status evs s)
    (hwait : ∀ evs s, Q.wait evs s → Q'.wait evs s) : wp p Q' evs s := by
  intro answers
  have hp := h answers
  unfold Post.Holds at hp ⊢
  cases ho : (p answers s).outcome <;> rw [ho] at hp
  · exact hret _ _ _ hp
  · exact hexit _ _ _ hp
  · exact hwait _ _ hp

/-- **The sequence rule**: what the first part returns with is what the second part needs. -/
theorem wp_seq {Q : Post Req Ans σ β} {p : Prog Req Ans σ α} {f : α → Prog Req Ans σ β}
    {R : α → List (Req × Ans) → σ → Prop} (hp : wp p (Q.bind R) evs s)
    (hf : ∀ a evs s, R a evs s → wp (f a) Q evs s) : wp (p >>= f) Q evs s :=
  wp_bind (wp_mono hp hf (fun _ _ _ => id) fun _ _ => id)

/-- **The invariant rule**: what every iteration preserves and every wait allows. -/
theorem wp_loop {body : Prog Req Ans σ (Option α)} (I : List (Req × Ans) → σ → Prop)
    (hbody : ∀ evs s, I evs s → wp body (Q.iteration I) evs s)
    (hwait : ∀ evs s, I evs s → Q.wait evs s) (hi : I evs s) : wp (loop body) Q evs s := by
  have hn : ∀ n evs s, I evs s → wp (loopN body n) Q evs s := by
    intro n
    induction n with
    | zero =>
      intro evs s hi answers
      show Q.wait (evs ++ []) s
      rw [List.append_nil]
      exact hwait evs s hi
    | succ n ih =>
      intro evs s hi
      refine wp_seq (hbody evs s hi) fun o evs s ho => ?_
      cases o with
      | some a => exact wp_pure ho
      | none => exact ih evs s ho
  exact fun answers => hn (answers.length + 1) evs s hi answers

/-- What a precondition says about a run from the start. -/
theorem wp.run {p : Prog Req Ans σ α} (h : wp p Q [] s) (answers : List Ans) :
    Q.Holds (p answers s).outcome (p answers s).events (p answers s).state := h answers

end Rules

end Prog

end Lib
