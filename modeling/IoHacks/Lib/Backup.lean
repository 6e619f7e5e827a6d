import IoHacks.Lib.Script
import Mathlib.Logic.Function.Basic

/-!
# Registers saved as text

A run of one program prints a register, and a run of another one takes such a line and writes the
register. `save` is the script that keeps the lines of some registers, `restore` the one that writes
lines back. `Restorable` is what the two programs have to do; then saved registers are restored
(`Restorable.restore_save`), whatever happened to them meanwhile.
-/

namespace Lib

namespace Query

variable {Req Ans σ κ γ ν : Type}

/-- The texts of the runs for some registers. -/
def save (text : Req → Option String) (read : κ → Query Req Ans Nat) :
    List κ → Query Req Ans (List String)
  | [] => pure []
  | k :: ks => do
    let out ← capture text (read k)
    let lines ← save text read ks
    pure (out.1 ++ lines)

/-- A run for every line, with the statuses that they return. -/
def restore (write : String → Query Req Ans Nat) : List String → Query Req Ans (List Nat)
  | [] => pure []
  | line :: lines => do
    let status ← write line
    let statuses ← restore write lines
    pure (status :: statuses)

/-- In a device state with the registers `regs s`, the run for `k` prints the line of the register
`cell k` and changes none; a run for a line writes the value of the line to that register. -/
structure Restorable (step : Req → σ → Ans × σ) (text : Req → Option String)
    (read : κ → Query Req Ans Nat) (write : String → Query Req Ans Nat) [DecidableEq γ]
    (regs : σ → γ → ν) (cell : κ → γ) (line : κ → ν → String) : Prop where
  read : ∀ k s, (run step text (read k) s).1 = ([line k (regs s (cell k))], 0) ∧
    regs (run step text (read k) s).2 = regs s
  write : ∀ k v s, ((write (line k v)).exec step s).1 = 0 ∧
    regs ((write (line k v)).exec step s).2 = Function.update (regs s) (cell k) v

namespace Restorable

variable {step : Req → σ → Ans × σ} {text : Req → Option String} {read : κ → Query Req Ans Nat}
  {write : String → Query Req Ans Nat} [DecidableEq γ] {regs : σ → γ → ν} {cell : κ → γ}
  {line : κ → ν → String} (h : Restorable step text read write regs cell line)
include h

theorem exec_save (ks : List κ) (s : σ) :
    ((save text read ks).exec step s).1 = ks.map (fun k => line k (regs s (cell k))) ∧
      regs ((save text read ks).exec step s).2 = regs s := by
  induction ks generalizing s with
  | nil => exact ⟨rfl, rfl⟩
  | cons k ks ih =>
    obtain ⟨hout, hregs⟩ := h.read k s
    obtain ⟨ihout, ihregs⟩ := ih (run step text (read k) s).2
    rw [run] at hout hregs ihout ihregs
    simp only [save, exec_bind, exec_pure, hout, ihout, hregs, ihregs, List.map_cons]
    exact ⟨rfl, trivial⟩

/-- Lines with the values of `saved`, written one after the other. -/
theorem exec_restore (saved : γ → ν) (ks : List κ) (s : σ) :
    ((restore write (ks.map fun k => line k (saved (cell k)))).exec step s).1 =
        List.replicate ks.length 0 ∧
      ∀ c, regs ((restore write (ks.map fun k => line k (saved (cell k)))).exec step s).2 c =
        if c ∈ ks.map cell then saved c else regs s c := by
  induction ks generalizing s with
  | nil => exact ⟨rfl, fun c => rfl⟩
  | cons k ks ih =>
    obtain ⟨hstatus, hregs⟩ := h.write k (saved (cell k)) s
    obtain ⟨ihstatus, ihregs⟩ := ih ((write (line k (saved (cell k)))).exec step s).2
    simp only [List.map_cons, restore, exec_bind, exec_pure, hstatus, ihstatus]
    refine ⟨rfl, fun c => ?_⟩
    rw [ihregs, hregs]
    by_cases hc : c = cell k
    · subst hc
      simp
    · simp [hc]

/-- **What was saved is restored**: every run returns 0, the registers of the lines are what they
were when they were saved, and the others stay. -/
theorem restore_save (ks : List κ) (s t : σ) :
    ((restore write ((save text read ks).exec step s).1).exec step t).1 =
        List.replicate ks.length 0 ∧
      ∀ c, regs ((restore write ((save text read ks).exec step s).1).exec step t).2 c =
        if c ∈ ks.map cell then regs s c else regs t c := by
  rw [(h.exec_save ks s).1]
  exact h.exec_restore (regs s) ks t

end Restorable

end Query

end Lib
