import IoHacks.Lib.Numeral
import IoHacks.Lib.Script
import IoHacks.Mem.Proof.IoapicWr
import Mathlib.Data.Fintype.Basic
import Mathlib.Tactic.FinCases

/-!
# A printed table, written back

`ioapic` prints a line for every pin, with the pin and the entry as `ioapic_wr` takes them. But it
pads the pin with a zero, which makes it an octal numeral for `strtoul`: 08 and 09 are read as 0,
and `ioapic_wr` does not look at the text after the number. `restore_dump`: the lines written back
restore every entry but three. Pin 0 gets the entry of pin 9, and the pins 8 and 9 keep what they
had.
-/

namespace Mem.Ioapic

open Lib

/-- The lines that `ioapic` prints. -/
def dump (a : IoApic) : List String := (Query.run IoApic.step Req.stdout main a).1.1

/-- `ioapic_wr` on the words of one line after the other, with the statuses it returns. -/
def restore : List String → Io (List Nat)
  | [] => pure []
  | line :: lines => do
    let status ← mainWr (words line)
    let statuses ← restore lines
    pure (status :: statuses)

/-- The line of a pin. -/
def entryLine (t : Table) (pin : Fin 24) : String :=
  d02 pin ++ " 0x" ++ hex 16 (t pin).toNat ++ "\n"

/-- The pin that `ioapic_wr` reads from the line of a pin. -/
def pinRead (pin : Fin 24) : Fin 24 := if pin = 8 ∨ pin = 9 then 0 else pin

/-! ## The lines -/

theorem run_rdtEntry {i : BitVec 32} (h : i.toNat < 24) (a : IoApic) :
    Query.run IoApic.step Req.stdout (rdtEntry idx dat i) a =
      (([], a.entry i.toNat), { a with index := rdtOffset + 2#32 * i }) := by
  simp [rdtEntry, store, load, call, IoApic.step, idx, dat, lowIndex h, highIndex h, IoApic.entry,
    Req.stdout]

/-- The loop prints the lines of its pins, and changes the index register alone. -/
theorem run_printEntries (pins : List (Fin 24)) (a : IoApic) :
    ∃ index, Query.run IoApic.step Req.stdout (printEntries (pins.map Fin.val)) a =
      ((pins.map (entryLine a.table), ()), { a with index }) := by
  induction pins generalizing a with
  | nil => exact ⟨a.index, rfl⟩
  | cons pin pins ih =>
    obtain ⟨index, hrun⟩ := ih { a with index := rdtOffset + 2#32 * BitVec.ofNat 32 pin }
    have hpin := ofNat_pin pin
    refine ⟨index, ?_⟩
    rw [List.map_cons, printEntries, Query.run_bind, run_rdtEntry (by omega), hpin]
    simp only [Query.run_bind, call, Query.run_request, Query.run_pure, IoApic.step, hrun,
      Req.stdout]
    rfl

theorem dump_eq (a : IoApic) : dump a = (List.finRange 24).map (entryLine a.table) := by
  have hpins : (List.finRange 24).map Fin.val = List.range rdtCount := by decide
  obtain ⟨index, hrun⟩ := run_printEntries (List.finRange 24) a
  rw [hpins] at hrun
  unfold dump main withWindow
  simp [hrun, IoApic.step, ready, Req.stdout]

/-! ## The words -/

theorem hex_numeral (width n : Nat) : IsNumeral 16 (hex width n).toList n := by
  rw [hex, String.toList_ofList]
  exact (isNumeral_toDigits (by omega) (by omega) n).pad (by omega) (by omega) _

theorem d02_numeral (n : Nat) : IsNumeral 10 (d02 n).toList n := by
  have hnum : IsNumeral 10 (Nat.toDigits 10 n) n := isNumeral_toDigits (by omega) (by omega) n
  unfold d02
  split
  · have hpad := hnum.pad (by omega) (by omega) 1
    simpa using hpad
  · simpa using hnum

theorem words_entryLine (t : Table) (pin : Fin 24) :
    words (entryLine t pin) = [d02 pin, "0x" ++ hex 16 (t pin).toNat] := by
  have hline : entryLine t pin =
      d02 pin ++ (" " ++ (("0x" ++ hex 16 (t pin).toNat) ++ "\n")) := by
    simp [entryLine, ← String.toList_inj]
  rw [hline, words_cons (d02_numeral pin).isWord, words_last (isWord_0x (hex_numeral _ _))]

/-- **What `ioapic_wr` makes of a line**: the entry, and the pin except for the lines 08 and 09. -/
theorem parse_entryLine (t : Table) (pin : Fin 24) :
    parse (words (entryLine t pin)) =
      .ok { which := BitVec.ofNat 32 (pinRead pin), val := t pin } := by
  have hpin : ∀ pin : Fin 24, (strtoul (d02 pin)).value = pinRead pin ∧
      (strtoul (d02 pin)).error = 0 := by decide
  have hval := strtoul_0x (hex_numeral 16 (t pin).toNat) (t pin).isLt
  have hlt : ¬(rdtCount : Int) ≤ (BitVec.ofNat 32 (pinRead pin)).toInt := by
    have hall : ∀ p : Fin 24, ¬(rdtCount : Int) ≤ (BitVec.ofNat 32 p).toInt := by decide
    exact hall _
  rw [words_entryLine, parse]
  simp only [(hpin pin).1, (hpin pin).2, strtoumax, hval, lower_ofNat]
  rw [if_neg (by simp), if_neg hlt, if_neg (by simp), BitVec.ofNat_toNat, BitVec.setWidth_eq]
  rfl

/-! ## Writing back -/

/-- A line writes one entry of the table, without a message. -/
theorem exec_mainWr (t : Table) (pin : Fin 24) (b : IoApic) :
    ((mainWr (words (entryLine t pin))).exec IoApic.step b).1 = 0 ∧
      ((mainWr (words (entryLine t pin))).exec IoApic.step b).2.table =
        (Call.set (pinRead pin) (t pin)).update b.table ∧
      ∀ n, ¬InTable n →
        ((mainWr (words (entryLine t pin))).exec IoApic.step b).2.regs n = b.regs n := by
  have hlt := (pinRead pin).isLt
  have hrun : (mainWr (words (entryLine t pin))).exec IoApic.step b =
      (0, ((Call.set (pinRead pin) (t pin)).run.exec IoApic.step b).2) := by
    have hset :=
      exec_setRdtEntry (i := BitVec.ofNat 32 (pinRead pin)) (by rwa [ofNat_pin]) (t pin) b
    rw [mainWr, parse_entryLine]
    simp [withWindow, IoApic.step, ready, Call.run, hset]
  obtain ⟨-, htable, hregs⟩ := exec_call (.set (pinRead pin) (t pin)) b
  rw [hrun]
  exact ⟨rfl, htable, hregs⟩

/-- The lines of some pins write the entries one after the other. -/
theorem exec_restore (t : Table) (pins : List (Fin 24)) (b : IoApic) :
    ((restore (pins.map (entryLine t))).exec IoApic.step b).1 = List.replicate pins.length 0 ∧
      ((restore (pins.map (entryLine t))).exec IoApic.step b).2.table =
        Table.after (pins.map fun pin => .set (pinRead pin) (t pin)) b.table ∧
      ∀ n, ¬InTable n →
        ((restore (pins.map (entryLine t))).exec IoApic.step b).2.regs n = b.regs n := by
  induction pins generalizing b with
  | nil => exact ⟨rfl, rfl, fun n _ => rfl⟩
  | cons pin pins ih =>
    obtain ⟨hstatus, htable, hregs⟩ := exec_mainWr t pin b
    obtain ⟨ihstatus, ihtable, ihregs⟩ :=
      ih ((mainWr (words (entryLine t pin))).exec IoApic.step b).2
    simp only [List.map_cons, restore, Query.exec_bind, Query.exec_pure, hstatus, ihstatus,
      ihtable, htable]
    exact ⟨rfl, rfl, fun n hn => (ihregs n hn).trans (hregs n hn)⟩

/-- **A printed table, written back**: every run of `ioapic_wr` returns 0, the entries are restored
except those of the pins 8 and 9, which are left alone, and of pin 0, which gets that of pin 9. The
registers outside the table stay. -/
theorem restore_dump (a b : IoApic) :
    ((restore (dump a)).exec IoApic.step b).1 = List.replicate 24 0 ∧
      (∀ pin, ((restore (dump a)).exec IoApic.step b).2.table pin =
        if pin = 0 then a.table 9 else if pin = 8 ∨ pin = 9 then b.table pin else a.table pin) ∧
      ∀ n, ¬InTable n → ((restore (dump a)).exec IoApic.step b).2.regs n = b.regs n := by
  obtain ⟨hstatus, htable, hregs⟩ := exec_restore a.table (List.finRange 24) b
  rw [← dump_eq] at hstatus htable hregs
  have hlatest : ∀ pin, latest pin ((List.finRange 24).map fun p =>
      .set (pinRead p) (a.table p)) = if pin = 0 then some (a.table 9)
        else if pin = 8 ∨ pin = 9 then none else some (a.table pin) := by
    intro pin
    fin_cases pin <;> rfl
  refine ⟨hstatus, fun pin => ?_, hregs⟩
  rw [htable, after_apply, hlatest]
  split
  · rfl
  · split <;> rfl

end Mem.Ioapic
