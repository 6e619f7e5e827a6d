import IoHacks.Lib.Rely
import IoHacks.Mem.Proof.Restore

/-!
# The IOAPIC shared by several runs

The programs select a register in one step and access it in another one, and nothing keeps other
runs of them from doing the same in between.

* `dump_misdirects`: while `ioapic` prints the table, `ioapic_wr` may write the lower half of its
  entry to the entry of any pin.
* `shared_confined`: no more than that happens, in any order of the accesses of any runs. Every run
  returns what it returns alone, and a register changes only when some run selects it, to a word
  that some run writes.
-/

namespace Mem.Ioapic

open Lib

/-! ## The runs -/

/-- A run of one of the programs. -/
inductive Run where
  | dump
  | write (args : List String)

def Run.main : Run → Io Nat
  | .dump => Mem.Ioapic.main
  | .write args => mainWr args

/-- What a run returns. -/
def Run.status : Run → Nat
  | .dump => 0
  | .write args =>
    match parse args with
    | .ok _ => 0
    | .error _ => 1

/-- The index words of an entry. -/
def IsIndex (i index : BitVec 32) : Prop :=
  index = rdtOffset + 2#32 * i + 1#32 ∨ index = rdtOffset + 2#32 * i

/-- The index words that a run selects. -/
def Run.Selects : Run → BitVec 32 → Prop
  | .dump, index => ∃ pin < rdtCount, IsIndex (BitVec.ofNat 32 pin) index
  | .write args, index => ∃ w, parse args = .ok w ∧ IsIndex w.which index

/-- The words that a run writes. -/
def Run.Sends : Run → BitVec 32 → Prop
  | .dump, _ => False
  | .write args, word => ∃ w, parse args = .ok w ∧
    (word = (w.val >>> 32).setWidth 32 ∨ word = w.val.setWidth 32)

/-! ## A write that goes astray -/

theorem printEntries_append (is js : List Nat) :
    printEntries (is ++ js) = printEntries is >>= fun _ => printEntries js := by
  induction is with
  | nil => rfl
  | cons i is ih =>
    rw [List.cons_append, printEntries, ih, printEntries]
    simp only [Query.bind_assoc]

/-- Printing changes the index register alone. -/
theorem exec_printEntries (pins : List (Fin 24)) (a : IoApic) :
    ∃ index, ((printEntries (pins.map Fin.val)).exec IoApic.step a).2 = { a with index } := by
  obtain ⟨index, hrun⟩ := run_printEntries pins a
  refine ⟨index, ?_⟩
  rw [← (Query.run_exec IoApic.step Req.stdout _ a).2, hrun]

/-- `ioapic` on its window, up to the moment when it has read the entry of a pin. -/
def printUpTo (pins : List (Fin 24)) (pin : Fin 24) : Io (BitVec 64) := do
  printEntries (pins.map Fin.val)
  rdtEntry idx dat (BitVec.ofNat 32 pin)

/-- The lower half of that entry is selected then. -/
theorem exec_printUpTo (pins : List (Fin 24)) (pin : Fin 24) (a : IoApic) :
    ((printUpTo pins pin).exec IoApic.step a).2 =
      { a with index := rdtOffset + 2#32 * BitVec.ofNat 32 pin } := by
  have hpin := ofNat_pin pin
  obtain ⟨index, hexec⟩ := exec_printEntries pins a
  rw [printUpTo, Query.exec_bind, hexec, exec_rdtEntry (by omega)]

/-- `ioapic` with a pause after it has read the entry of a pin. -/
theorem main_split (pin : Fin 24) : ∃ pre post : List (Fin 24),
    main = withWindow length true addr (printUpTo pre pin >>= fun rdte =>
      call (.printf (d02 pin ++ " 0x" ++ hex 16 rdte.toNat ++ "\n")) >>= fun _ =>
        printEntries (post.map Fin.val) >>= fun _ => pure 0) := by
  have hpins : (List.finRange 24).map Fin.val = List.range rdtCount := by decide
  obtain ⟨pre, post, hsplit⟩ := List.append_of_mem (List.mem_finRange pin)
  refine ⟨pre, post, ?_⟩
  rw [main, ← hpins, hsplit, List.map_append, List.map_cons, printEntries_append, printEntries,
    printUpTo]
  simp only [Query.bind_assoc]

/-- `ioapic_wr` on its window, up to the moment when it has selected the lower half of its entry. -/
def writeUpTo (w : Write) : Io Unit := do
  store idx (rdtOffset + 2#32 * w.which + 1#32)
  store dat ((w.val >>> 32).setWidth 32)
  store idx (rdtOffset + 2#32 * w.which)

theorem exec_writeUpTo (w : Write) (a : IoApic) :
    ((writeUpTo w).exec IoApic.step a).2 =
      { index := rdtOffset + 2#32 * w.which
        regs := Function.update a.regs (rdtOffset + 2#32 * w.which + 1#32).toNat
          ((w.val >>> 32).setWidth 32) } := rfl

/-- `ioapic_wr` with a pause before its last store. -/
theorem mainWr_split {args : List String} {w : Write} (h : parse args = .ok w) :
    mainWr args = withWindow length true addr (writeUpTo w >>= fun _ =>
      store dat (w.val.setWidth 32) >>= fun _ => pure 0) := by
  rw [mainWr, h]
  rfl

section
variable {p access : Io Nat} {a a' : IoApic} {out : Bool → Nat} {len adr : Nat} {write : Bool}

/-- The window is opened without an access. -/
theorem first_withWindow (h : Schedule IoApic.step (both access p) a out a') :
    Schedule IoApic.step (both (withWindow len write adr access) p) a out a' :=
  .first (q := Query.request Req.openMem) (.first (q := Query.request (Req.mmap len write adr)) h)

theorem second_withWindow (h : Schedule IoApic.step (both p access) a out a') :
    Schedule IoApic.step (both p (withWindow len write adr access)) a out a' :=
  .second (q := Query.request Req.openMem) (.second (q := Query.request (Req.mmap len write adr)) h)

end

/-- The registers after the upper half is written to its register, and the lower half to the
register of a pin. -/
def strayed (regs : Nat → BitVec 32) (w : Write) (pin : Fin 24) : Nat → BitVec 32 :=
  Function.update (Function.update regs (rdtOffset + 2#32 * w.which + 1#32).toNat
    ((w.val >>> 32).setWidth 32)) (0x10 + 2 * pin) (w.val.setWidth 32)

/-- `ioapic` selects the entry of a pin just before the last store of `ioapic_wr`. -/
theorem schedule_strayed {args : List String} {w : Write} (h : parse args = .ok w) (a : IoApic)
    (pin : Fin 24) : ∃ index, Schedule IoApic.step (both main (mainWr args)) a (fun _ => 0)
      { index, regs := strayed a.regs w pin } := by
  obtain ⟨pre, post, hmain⟩ := main_split pin
  obtain ⟨index, hrest⟩ := exec_printEntries post
    { index := rdtOffset + 2#32 * BitVec.ofNat 32 pin, regs := strayed a.regs w pin }
  have hstore : ∀ regs, ((store dat (w.val.setWidth 32)).exec IoApic.step
      { index := rdtOffset + 2#32 * BitVec.ofNat 32 pin, regs }).2 =
      { index := rdtOffset + 2#32 * BitVec.ofNat 32 pin
        regs := Function.update regs (0x10 + 2 * pin) (w.val.setWidth 32) } := by
    have hlow := lowIndex (i := BitVec.ofNat 32 pin) (by rw [ofNat_pin]; exact pin.isLt)
    rw [ofNat_pin] at hlow
    intro regs
    simp [store, call, IoApic.step, idx, dat, hlow]
  refine ⟨index, ?_⟩
  rw [hmain, mainWr_split h]
  refine second_withWindow (.second (q := writeUpTo w) ?_)
  rw [exec_writeUpTo]
  refine first_withWindow (.first (q := printUpTo pre pin) ?_)
  rw [exec_printUpTo]
  refine .second (q := store dat (w.val.setWidth 32)) ?_
  rw [hstore]
  refine .first (q := call _) (.first (q := printEntries (post.map Fin.val)) ?_)
  show Schedule IoApic.step _ ((printEntries (post.map Fin.val)).exec IoApic.step
    { index := rdtOffset + 2#32 * BitVec.ofNat 32 pin, regs := strayed a.regs w pin }).2 _ _
  rw [hrest]
  refine .finish fun second => ?_
  cases second with
  | false => rfl
  | true => rfl

/-- **A write goes astray**: in some order of their accesses `ioapic` and `ioapic_wr` both return 0,
and the lower half of the entry is written to the entry of any pin instead of its own. -/
theorem dump_misdirects {args : List String} {w : Write} (h : parse args = .ok w) (a : IoApic)
    (pin : Fin 24) : ∃ a', Schedule IoApic.step (both main (mainWr args)) a (fun _ => 0) a' ∧
      a'.regs = strayed a.regs w pin := by
  obtain ⟨index, hschedule⟩ := schedule_strayed h a pin
  exact ⟨_, hschedule, rfl⟩

/-- The device before a write to pin 3. -/
def blank : IoApic := { index := 0#32, regs := fun _ => 0#32 }

theorem parse_pin3 : parse ["3", "0x10031"] = .ok { which := 3#32, val := 0x10031#64 } := by decide

/-- The entry of pin 3 stays, and pin 8 gets it. -/
theorem dump_misdirects_pin3 : ∃ a',
    Schedule IoApic.step (both main (mainWr ["3", "0x10031"])) blank (fun _ => 0) a' ∧
      a'.entry 3 = 0#64 ∧ a'.entry 8 = 0x10031#64 := by
  obtain ⟨a', hschedule, hregs⟩ := dump_misdirects parse_pin3 blank 8
  refine ⟨a', hschedule, ?_, ?_⟩
  · rw [IoApic.entry, hregs]
    decide
  · rw [IoApic.entry, hregs]
    decide

/-! ## What a run guarantees -/

section
variable {sel sent : BitVec 32 → Prop}

/-- The registers change where they are selected, to words that are sent. -/
def Shares (sel sent : BitVec 32 → Prop) (a a' : IoApic) : Prop :=
  Confined sel BitVec.toNat sent a.index a'.index a.regs a'.regs

theorem shares_refl (a : IoApic) : Shares sel sent a a := .refl

theorem stable_selected : Stable (Shares sel sent) fun a => sel a.index :=
  fun _ _ h => h.index

theorem guarantees_select {index : BitVec 32} (h : sel index) :
    (store idx index).Guarantees IoApic.step (Shares sel sent) (fun _ => True)
      fun _ a => sel a.index :=
  (Query.Guarantees.request (fun _ _ => ⟨.select h, h⟩) fun _ => stable_selected).bind
    fun _ => .ret fun _ h => h

theorem guarantees_write {word : BitVec 32} (h : sent word) :
    (store dat word).Guarantees IoApic.step (Shares sel sent) (fun a => sel a.index)
      fun _ _ => True :=
  (Query.Guarantees.request (fun _ hsel => ⟨.write hsel h, trivial⟩) fun _ => stable_const).bind
    fun _ => .ret fun _ h => h

theorem guarantees_load (i : Nat) :
    (load i).Guarantees IoApic.step (Shares sel sent) (fun _ => True) fun _ _ => True := by
  refine (Query.Guarantees.read shares_refl stable_const fun a => ?_).bind
    fun _ => .ret fun _ h => h
  simp only [IoApic.step]
  split
  · rfl
  · split <;> rfl

theorem guarantees_setRdtEntry {i : BitVec 32} {val : BitVec 64}
    (hsel : ∀ index, IsIndex i index → sel index) (hhigh : sent ((val >>> 32).setWidth 32))
    (hlow : sent (val.setWidth 32)) :
    (setRdtEntry idx dat i val).Guarantees IoApic.step (Shares sel sent) (fun _ => True)
      fun _ _ => True :=
  (guarantees_select (hsel _ (.inl rfl))).bind fun _ => (guarantees_write hhigh).bind fun _ =>
    (guarantees_select (hsel _ (.inr rfl))).bind fun _ => guarantees_write hlow

theorem guarantees_rdtEntry {i : BitVec 32} (hsel : ∀ index, IsIndex i index → sel index) :
    (rdtEntry idx dat i).Guarantees IoApic.step (Shares sel sent) (fun _ => True)
      fun _ _ => True := by
  have hload : ∀ i, (load i).Guarantees IoApic.step (Shares sel sent) (fun a => sel a.index)
      fun _ _ => True := fun i => (guarantees_load i).weaken fun _ _ => trivial
  exact (guarantees_select (hsel _ (.inl rfl))).bind fun _ => (hload dat).bind fun _ =>
    (guarantees_select (hsel _ (.inr rfl))).bind fun _ => (hload dat).bind fun _ =>
      .ret fun _ h => h

/-- A request that is none of the device's. -/
theorem guarantees_call {r : Req} (h : ∀ a, IoApic.step r a = (ready r, a)) :
    (call r).Guarantees IoApic.step (Shares sel sent) (fun _ => True) fun _ _ => True :=
  (Query.Guarantees.inert shares_refl stable_const h).bind fun _ => .ret fun _ _ => trivial

theorem guarantees_printEntries {pins : List Nat}
    (hsel : ∀ pin ∈ pins, ∀ index, IsIndex (BitVec.ofNat 32 pin) index → sel index) :
    (printEntries pins).Guarantees IoApic.step (Shares sel sent) (fun _ => True)
      fun _ _ => True := by
  induction pins with
  | nil => exact .ret fun _ h => h
  | cons pin pins ih =>
    exact (guarantees_rdtEntry (hsel pin List.mem_cons_self)).bind fun _ =>
      (guarantees_call fun _ => rfl).bind fun _ =>
        ih fun pin hpin => hsel pin (List.mem_cons_of_mem _ hpin)

theorem guarantees_withWindow {length addr : Nat} {write : Bool} {access : Io Nat}
    {Q : Nat → IoApic → Prop}
    (h : access.Guarantees IoApic.step (Shares sel sent) (fun _ => True) Q) :
    (withWindow length write addr access).Guarantees IoApic.step (Shares sel sent)
      (fun _ => True) Q := by
  have hchecked : ∀ r, (∀ a, IoApic.step r a = (ready r, a)) →
      (Query.request r : Io Reply).Guarantees IoApic.step (Shares sel sent) (fun _ => True)
        fun reply _ => reply.failed = false := by
    refine fun r hr => .request (fun a _ => ?_) fun _ => stable_const
    rw [hr]
    exact ⟨shares_refl a, rfl⟩
  have hfailed : ∀ {reply : Reply}, reply.failed = false → ¬reply.failed = true := by
    intro reply h
    rw [h]
    exact Bool.false_ne_true
  exact (hchecked _ fun _ => rfl).bind fun _ => .ite_neg ((Query.Guarantees.weaken
    (hchecked _ fun _ => rfl) fun _ _ => trivial).bind fun _ => .ite_neg
      (h.weaken fun _ _ => trivial) fun _ => hfailed) fun _ => hfailed

/-- **A run guarantees** that it selects and writes what it is meant to. -/
theorem guarantees_main (run : Run) (hsel : ∀ index, run.Selects index → sel index)
    (hsent : ∀ word, run.Sends word → sent word) :
    run.main.Guarantees IoApic.step (Shares sel sent) (fun _ => True)
      fun status _ => status = run.status := by
  cases run with
  | dump =>
    refine guarantees_withWindow ((guarantees_printEntries fun pin hpin index h => ?_).bind
      fun _ => .ret fun _ _ => rfl)
    exact hsel index ⟨pin, List.mem_range.1 hpin, h⟩
  | write args =>
    simp only [Run.main, mainWr, Run.status]
    cases hparse : parse args with
    | error message =>
      have hcall : ∀ a, IoApic.step message.req a = (ready message.req, a) := by
        intro a
        cases message with
        | plain text => rfl
        | errno text => rfl
      exact (guarantees_call hcall).bind fun _ => .ret fun _ _ => rfl
    | ok w =>
      exact guarantees_withWindow ((guarantees_setRdtEntry
        (fun index h => hsel index ⟨w, hparse, h⟩) (hsent _ ⟨w, hparse, .inl rfl⟩)
        (hsent _ ⟨w, hparse, .inr rfl⟩)).bind fun _ => .ret fun _ _ => rfl)

end

/-- **Runs at the same time**: in every order of their accesses each run returns what it returns
alone, and a register changes only when one of the runs selects it, to a word that one of them
writes. -/
theorem shared_confined {ι : Type} [DecidableEq ι] {runs : ι → Run} {a a' : IoApic}
    {out : ι → Nat} (h : Schedule IoApic.step (fun i => (runs i).main) a out a') :
    (∀ i, out i = (runs i).status) ∧
      ∀ n, a'.regs n = a.regs n ∨
        (∃ index, (∃ i, (runs i).Selects index) ∧ index.toNat = n) ∧
          ∃ i, (runs i).Sends (a'.regs n) := by
  have hruns : ∀ i, (runs i).main.Guarantees IoApic.step
      (Shares (fun index => ∃ i, (runs i).Selects index) fun word => ∃ i, (runs i).Sends word)
      (fun _ => True) fun status _ => status = (runs i).status :=
    fun i => guarantees_main (runs i) (fun _ h => ⟨i, h⟩) fun _ h => ⟨i, h⟩
  obtain ⟨hshares, hstatus⟩ := h.guaranteed shares_refl (fun _ _ _ => Confined.trans) hruns
    (fun _ => stable_const) fun _ => trivial
  exact ⟨hstatus, hshares.regs⟩

/-- The write that goes astray stays within these bounds. -/
theorem shared_confined_pin3 : ∃ a' : IoApic, a'.regs 0x20 = 0x10031#32 ∧
    ∀ n, a'.regs n = 0#32 ∨
      (∃ index, (∃ second, (both Run.dump (.write ["3", "0x10031"]) second).Selects index) ∧
        index.toNat = n) ∧
      ∃ second, (both Run.dump (.write ["3", "0x10031"]) second).Sends (a'.regs n) := by
  obtain ⟨index, hschedule⟩ := schedule_strayed parse_pin3 blank 8
  have hruns : both main (mainWr ["3", "0x10031"]) = fun second =>
      (both Run.dump (.write ["3", "0x10031"]) second).main := by
    funext second
    cases second <;> rfl
  have hregs : strayed blank.regs { which := 3#32, val := 0x10031#64 } 8 0x20 = 0x10031#32 := by
    decide
  rw [hruns] at hschedule
  exact ⟨_, hregs, (shared_confined hschedule).2⟩

end Mem.Ioapic
