import IoHacks.Mem.Ioapic
import Mathlib.Algebra.Group.Nat.Defs
import Mathlib.Data.List.Induction

/-!
# The redirection table

The two programs see one table of 24 64-bit entries (`Table`): `rdt_entry` reads an entry and
`set_rdt_entry` replaces it (`exec_call`), so a run of calls on the device refines the same calls
on the table (`exec_calls`), whatever the index register holds between them. `rdt_refines`: every
`rdt_entry` returns the latest value set on its pin, and the registers outside the table stay.
-/

namespace Mem.Ioapic

open Lib

/-! ## The table -/

/-- What the programs read and write: an entry for every pin. -/
abbrev Table := Fin 24 → BitVec 64

/-- A call of one of the two functions. -/
inductive Call where
  | set (pin : Fin 24) (val : BitVec 64)
  | get (pin : Fin 24)

def Call.update : Call → Table → Table
  | .set pin val, t => Function.update t pin val
  | .get _, t => t

def Call.result : Call → Table → Option (BitVec 64)
  | .set _ _, _ => none
  | .get pin, t => some (t pin)

/-- The table after some calls. -/
def Table.after (calls : List Call) (t : Table) : Table := calls.foldl (fun t c => c.update t) t

/-- The results of some calls. -/
def results : List Call → Table → List (Option (BitVec 64))
  | [], _ => []
  | c :: cs, t => c.result t :: results cs (c.update t)

/-- The value that a call sets on a pin. -/
def Call.sets (pin : Fin 24) : Call → Option (BitVec 64)
  | .set p val => if p = pin then some val else none
  | .get _ => none

/-- The latest value that some calls set on a pin. -/
def latest (pin : Fin 24) (calls : List Call) : Option (BitVec 64) :=
  calls.reverse.findSome? (Call.sets pin)

theorem update_apply (c : Call) (t : Table) (pin : Fin 24) :
    c.update t pin = (c.sets pin).getD (t pin) := by
  cases c with
  | get p => rfl
  | set p val =>
    by_cases hp : p = pin
    · subst hp
      simp [Call.update, Call.sets]
    · simp [Call.update, Call.sets, hp, Ne.symm hp]

/-- **An entry of the table** is the latest value set, or the initial one. -/
theorem after_apply (calls : List Call) (t : Table) (pin : Fin 24) :
    Table.after calls t pin = (latest pin calls).getD (t pin) := by
  induction calls using List.reverseRecOn with
  | nil => rfl
  | append_singleton calls c ih =>
    rw [Table.after, List.foldl_append, List.foldl_cons, List.foldl_nil, update_apply,
      ← Table.after, ih, latest, latest, List.reverse_append]
    cases hc : c.sets pin with
    | none => simp [hc]
    | some val => simp [hc]

theorem results_get {calls pre post : List Call} {pin : Fin 24}
    (h : calls = pre ++ .get pin :: post) (t : Table) :
    (results calls t)[pre.length]? = some (some (Table.after pre t pin)) := by
  subst h
  induction pre generalizing t with
  | nil => rfl
  | cons c pre ih => exact ih (c.update t)

/-! ## The device -/

section
variable {i : BitVec 32} (h : i.toNat < 24)
include h

theorem lowIndex : (rdtOffset + 2#32 * i).toNat = 0x10 + 2 * i.toNat := by
  rw [BitVec.toNat_add, BitVec.toNat_mul, show rdtOffset.toNat = 0x10 by rfl,
    show (2#32).toNat = 2 by rfl]
  omega

theorem highIndex : (rdtOffset + 2#32 * i + 1#32).toNat = 0x11 + 2 * i.toNat := by
  rw [BitVec.toNat_add, lowIndex h, show (1#32).toNat = 1 by rfl]
  omega

end

/-- The entry of a pin, from its two registers. -/
def IoApic.entry (a : IoApic) (pin : Nat) : BitVec 64 :=
  (a.regs (0x11 + 2 * pin)).setWidth 64 <<< 32 ||| (a.regs (0x10 + 2 * pin)).setWidth 64

/-- The registers after the two halves of an entry are written. -/
def IoApic.withEntry (a : IoApic) (pin : Nat) (val : BitVec 64) : Nat → BitVec 32 :=
  Function.update (Function.update a.regs (0x11 + 2 * pin) ((val >>> 32).setWidth 32))
    (0x10 + 2 * pin) (val.setWidth 32)

def IoApic.table (a : IoApic) : Table := fun pin => a.entry pin

theorem exec_setRdtEntry {i : BitVec 32} (h : i.toNat < 24) (val : BitVec 64) (a : IoApic) :
    (setRdtEntry idx dat i val).exec IoApic.step a =
      ((), { index := rdtOffset + 2#32 * i, regs := a.withEntry i.toNat val }) := by
  simp [setRdtEntry, store, call, IoApic.step, idx, dat, lowIndex h, highIndex h, IoApic.withEntry]

theorem exec_rdtEntry {i : BitVec 32} (h : i.toNat < 24) (a : IoApic) :
    (rdtEntry idx dat i).exec IoApic.step a =
      (a.entry i.toNat, { a with index := rdtOffset + 2#32 * i }) := by
  simp [rdtEntry, store, load, call, IoApic.step, idx, dat, lowIndex h, highIndex h, IoApic.entry]

/-- The two halves of a value. -/
theorem halves (val : BitVec 64) :
    (((val >>> 32).setWidth 32).setWidth 64 <<< 32) ||| (val.setWidth 32).setWidth 64 = val := by
  refine BitVec.eq_of_getLsbD_eq fun i hi => ?_
  by_cases h : i < 32
  · simp [h, hi]
  · simp [h, hi, Nat.add_sub_cancel' (Nat.le_of_not_lt h), show i - 32 < 32 by omega]

section
variable (a : IoApic) (pin : Nat) (val : BitVec 64) (index : BitVec 32)

theorem withEntry_same : IoApic.entry { index, regs := a.withEntry pin val } pin = val := by
  have hne : 0x11 + 2 * pin ≠ 0x10 + 2 * pin := by omega
  simp only [IoApic.entry, IoApic.withEntry, Function.update_self, Function.update_of_ne hne,
    halves]

theorem withEntry_regs {n : Nat} (hlow : n ≠ 0x10 + 2 * pin) (hhigh : n ≠ 0x11 + 2 * pin) :
    a.withEntry pin val n = a.regs n := by
  rw [IoApic.withEntry, Function.update_of_ne hlow, Function.update_of_ne hhigh]

theorem withEntry_other {p : Nat} (hp : p ≠ pin) :
    IoApic.entry { index, regs := a.withEntry pin val } p = a.entry p := by
  have hlow : a.withEntry pin val (0x10 + 2 * p) = a.regs (0x10 + 2 * p) :=
    withEntry_regs a pin val (by omega) (by omega)
  have hhigh : a.withEntry pin val (0x11 + 2 * p) = a.regs (0x11 + 2 * p) :=
    withEntry_regs a pin val (by omega) (by omega)
  simp only [IoApic.entry, hlow, hhigh]

end

/-! ## The refinement -/

/-- A register of the table. -/
def InTable (n : Nat) : Prop := 0x10 ≤ n ∧ n ≤ 0x3f

/-- The program of a call; `rdt_entry` has a result. -/
def Call.run : Call → Io (Option (BitVec 64))
  | .set pin val => do
    setRdtEntry idx dat (BitVec.ofNat 32 pin) val
    pure none
  | .get pin => do
    let val ← rdtEntry idx dat (BitVec.ofNat 32 pin)
    pure (some val)

/-- Some calls one after the other, with their results. -/
def runCalls : List Call → Io (List (Option (BitVec 64)))
  | [] => pure []
  | c :: cs => do
    let r ← c.run
    let rs ← runCalls cs
    pure (r :: rs)

theorem ofNat_pin (pin : Fin 24) : (BitVec.ofNat 32 pin).toNat = pin := by
  rw [BitVec.toNat_ofNat, Nat.mod_eq_of_lt (by omega)]

/-- **One call** does to the device what it does to the table. -/
theorem exec_call (c : Call) (a : IoApic) :
    (c.run.exec IoApic.step a).1 = c.result a.table ∧
      (c.run.exec IoApic.step a).2.table = c.update a.table ∧
      ∀ n, ¬InTable n → (c.run.exec IoApic.step a).2.regs n = a.regs n := by
  cases c with
  | set pin val =>
    have hpin := ofNat_pin pin
    have hlt := pin.isLt
    simp only [Call.run, Query.exec_bind, Query.exec_pure, exec_setRdtEntry (hpin ▸ hlt), hpin]
    refine ⟨rfl, funext fun p => ?_, fun n hn => ?_⟩
    · by_cases hp : p = pin
      · subst hp
        simp only [IoApic.table, withEntry_same, Call.update, Function.update_self]
      · have hne : (p : Nat) ≠ pin := fun he => hp (Fin.ext he)
        simp only [IoApic.table, withEntry_other a pin val _ hne, Call.update,
          Function.update_of_ne hp]
    · simp only [InTable] at hn
      exact withEntry_regs a pin val (by omega) (by omega)
  | get pin =>
    have hpin := ofNat_pin pin
    have hlt := pin.isLt
    simp only [Call.run, Query.exec_bind, Query.exec_pure, exec_rdtEntry (hpin ▸ hlt), hpin,
      implies_true, and_true]
    exact ⟨rfl, rfl⟩

/-- **A run of calls** on the device refines the calls on the table. -/
theorem exec_calls (calls : List Call) (a : IoApic) :
    ((runCalls calls).exec IoApic.step a).1 = results calls a.table ∧
      ∀ n, ¬InTable n → ((runCalls calls).exec IoApic.step a).2.regs n = a.regs n := by
  induction calls generalizing a with
  | nil => exact ⟨rfl, fun n _ => rfl⟩
  | cons c cs ih =>
    obtain ⟨hresult, htable, hregs⟩ := exec_call c a
    obtain ⟨ihresults, ihregs⟩ := ih (c.run.exec IoApic.step a).2
    simp only [runCalls, Query.exec_bind, Query.exec_pure, results, ihresults, htable, hresult,
      true_and]
    exact fun n hn => (ihregs n hn).trans (hregs n hn)

/-- **The two programs agree on the redirection table**: in every sequence of calls, `rdt_entry`
returns the latest value that `set_rdt_entry` was given for its pin, or the entry's initial
content, and the registers outside the table are not changed. -/
theorem rdt_refines (a : IoApic) (calls : List Call) :
    (∀ pre pin post, calls = pre ++ .get pin :: post →
      ((runCalls calls).exec IoApic.step a).1[pre.length]? =
        some (some ((latest pin pre).getD (a.entry pin)))) ∧
    ∀ n, ¬InTable n → ((runCalls calls).exec IoApic.step a).2.regs n = a.regs n := by
  obtain ⟨hresults, hregs⟩ := exec_calls calls a
  refine ⟨fun pre pin post h => ?_, hregs⟩
  rw [hresults, results_get h, after_apply]
  rfl

/-- An entry is read back after another entry was written. -/
theorem rdt_refines_two :
    ((runCalls [.set 3 0x100000002#64, .set 4 5#64, .get 3]).exec IoApic.step
      { index := 0#32, regs := fun _ => 0#32 }).1[2]? = some (some 0x100000002#64) :=
  (rdt_refines { index := 0#32, regs := fun _ => 0#32 }
    [.set 3 0x100000002#64, .set 4 5#64, .get 3]).1 [.set 3 0x100000002#64, .set 4 5#64] 3 [] rfl

end Mem.Ioapic
