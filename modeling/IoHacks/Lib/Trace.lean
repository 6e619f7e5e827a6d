import Mathlib.Tactic.Common

/-!
# Properties of traces

A trace is a list with the oldest event first. `EachAfter R` says of every event of a trace that it
was allowed by what came before it; `Since q p` says that some event satisfied `q` and that all
events after it satisfy `p`, the past-time operator of temporal logic; `Throughout P` says that `P`
holds of the trace at every moment. They are determined by the last event and the trace before it
(`eachAfter_concat`, `since_concat`, `throughout_concat`), so a program's trace is checked event by
event.
-/

namespace Lib

variable {α : Type} {R q : List α → α → Prop} {p : α → Prop} {l : List α} {e : α}

/-- Every event `e` of the trace, with the trace `pre` before it, satisfies `R pre e`. -/
def EachAfter (R : List α → α → Prop) (l : List α) : Prop :=
  ∀ pre e post, l = pre ++ e :: post → R pre e

/-- Some event satisfied `q`, and every event after it satisfies `p`. -/
def Since (q : List α → α → Prop) (p : α → Prop) (l : List α) : Prop :=
  ∃ pre e post, l = pre ++ e :: post ∧ q pre e ∧ ∀ x ∈ post, p x

/-- Every beginning of the trace satisfies `P`. -/
def Throughout (P : List α → Prop) (l : List α) : Prop := ∀ pre, pre <+: l → P pre

/-- The two ways to split a trace at an event: at its end or before. -/
theorem concat_eq_append_cons {pre post : List α} {x : α} :
    l ++ [e] = pre ++ x :: post ↔
      (pre = l ∧ x = e ∧ post = []) ∨ ∃ post', post = post' ++ [e] ∧ l = pre ++ x :: post' := by
  constructor
  · intro h
    rcases List.eq_nil_or_concat post with rfl | ⟨post', y, rfl⟩
    · obtain ⟨rfl, hx⟩ := List.append_inj' h rfl
      cases hx
      exact .inl ⟨rfl, rfl, rfl⟩
    · rw [List.concat_eq_append, ← List.cons_append, ← List.append_assoc] at h
      obtain ⟨hl, hy⟩ := List.append_inj' h rfl
      cases hy
      exact .inr ⟨post', List.concat_eq_append .., hl⟩
  · rintro (⟨rfl, rfl, rfl⟩ | ⟨post', rfl, rfl⟩)
    · rfl
    · rw [List.append_assoc, List.cons_append]

@[simp] theorem eachAfter_nil : EachAfter R [] := fun pre e post h => by simp at h

@[simp] theorem eachAfter_concat : EachAfter R (l ++ [e]) ↔ EachAfter R l ∧ R l e := by
  constructor
  · intro h
    refine ⟨fun pre x post hl => ?_, h l e [] rfl⟩
    exact h pre x (post ++ [e]) (concat_eq_append_cons.2 (.inr ⟨post, rfl, hl⟩))
  · rintro ⟨h, he⟩ pre x post hl
    rcases concat_eq_append_cons.1 hl with ⟨rfl, rfl, -⟩ | ⟨post', -, hl'⟩
    · exact he
    · exact h pre x post' hl'

@[simp] theorem since_concat : Since q p (l ++ [e]) ↔ q l e ∨ (Since q p l ∧ p e) := by
  constructor
  · rintro ⟨pre, x, post, hl, hq, hp⟩
    rcases concat_eq_append_cons.1 hl with ⟨rfl, rfl, -⟩ | ⟨post', rfl, hl'⟩
    · exact .inl hq
    · exact .inr ⟨⟨pre, x, post', hl', hq, fun y hy => hp y (List.mem_append_left _ hy)⟩,
        hp e (by simp)⟩
  · rintro (hq | ⟨⟨pre, x, post, rfl, hq, hp⟩, he⟩)
    · exact ⟨l, e, [], rfl, hq, by simp⟩
    · refine ⟨pre, x, post ++ [e], by simp, hq, fun y hy => ?_⟩
      rcases List.mem_append.1 hy with h | h
      · exact hp y h
      · rw [List.mem_singleton.1 h]
        exact he

section
variable {P Q : List α → Prop}

theorem throughout_nil (h : P []) : Throughout P [] := fun pre hpre => by
  rwa [List.prefix_nil.1 hpre]

@[simp] theorem throughout_concat : Throughout P (l ++ [e]) ↔ Throughout P l ∧ P (l ++ [e]) := by
  constructor
  · intro h
    exact ⟨fun pre hpre => h pre (hpre.trans (List.prefix_append ..)), h _ List.prefix_rfl⟩
  · rintro ⟨h, he⟩ pre hpre
    rcases List.prefix_concat_iff.1 hpre with rfl | hpre
    · exact he
    · exact h pre hpre

theorem Throughout.now (h : Throughout P l) : P l := h l List.prefix_rfl

theorem Throughout.mono (h : Throughout P l) (hPQ : ∀ l, P l → Q l) : Throughout Q l :=
  fun pre hpre => hPQ pre (h pre hpre)

end

end Lib
