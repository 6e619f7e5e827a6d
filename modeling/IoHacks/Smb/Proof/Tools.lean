import IoHacks.Smb.Proof.Device
import IoHacks.Smb.Proof.TuneReg

/-!
# Runs of the SMBus tools

`Tool.call` says what a run of a program does on a bus: what it prints, how it ends and what it
leaves in the registers. `does_main` proves it of every program, and `scripts_serve` of scripts of
runs. `smb_tune_reg` takes any number of steps, each of which may fail, for what `setreg` does at
once, and `tune_agrees` says when the two leave the same behind.
-/

namespace Smb

open Lib
open TuneReg (int)

/-! ## What the tools are for -/

/-- A run of one of the programs. -/
inductive Tool where
  | setreg (reg val : String)
  | setregB1 (reg val : String)
  | smbTuneReg (reg val : String)
  | getreg (reg : String)
  | getregB1 (reg : String)
  | getregSpd
  | spdDump (slave : String)
  | smbDumpSlave (slave : String)
  | smbTest
  | smbTest2

def Tool.main : Tool → Io TuneReg.Vars Nat
  | .setreg reg val => Smb.setreg reg val
  | .setregB1 reg val => Smb.setregB1 reg val
  | .smbTuneReg reg val => TuneReg.main reg val
  | .getreg reg => Smb.getreg reg
  | .getregB1 reg => Smb.getregB1 reg
  | .getregSpd => Smb.getregSpd
  | .spdDump slave => Smb.spdDump slave
  | .smbDumpSlave slave => Smb.smbDumpSlave slave
  | .smbTest => Smb.smbTest
  | .smbTest2 => Smb.smbTest2

/-- The texts that a run prints, how it ends and what the registers contain then. -/
abbrev Effect := (List String × Outcome Nat) × Regs

section
variable (bus : Bus) (regs : Regs)

/-- What `smbioctl_readB` returns, with -1 for a failure. -/
def Bus.value (slave : BitVec 8) (addr : Int) : Int :=
  TuneReg.readValue (bus.readB regs slave (BitVec.ofInt 8 addr))

def Bus.setAt (slave : BitVec 8) (reg val : Int) : Effect :=
  let text := settingText reg (bus.value regs slave reg) val
  match bus.writeB regs slave (BitVec.ofInt 8 reg) (BitVec.ofInt 8 val) with
  | none => (([text], .ret 0), regs.set slave (BitVec.ofInt 8 reg) (BitVec.ofInt 8 val))
  | some _ => (([text], .exit failure), regs)

def tuningText (reg oldval val : Int) : String :=
  "tuning reg " ++ u reg ++ "(" ++ hash02x reg ++ ") from " ++ u oldval ++ "(" ++
    hash02x oldval ++ ") to " ++ u val ++ "(" ++ hash02x val ++ ")\n"

def tunedText (reg val : Int) : String :=
  "reg " ++ u reg ++ "(" ++ hash02x reg ++ ") = " ++ u val ++ "(" ++ hash02x val ++ ")\n"

def ending (goesOn : Bool) : Outcome Nat := if goesOn then .ret 0 else .exit failure

/-- Writes of bytes to a register, up to one that fails: whether none does, and what the registers
contain then. -/
def Bus.writes (slave cmd : BitVec 8) : Regs → List (BitVec 8) → Bool × Regs
  | regs, [] => (true, regs)
  | regs, byte :: bytes =>
    match bus.writeB regs slave cmd byte with
    | none => Bus.writes slave cmd (regs.set slave cmd byte) bytes
    | some _ => (false, regs)

/-- The steps from the value that is read to the target. -/
def Bus.tuneAt (slave : BitVec 8) (reg val : Int) : Effect :=
  let oldval := bus.value regs slave reg
  let path := TuneReg.path (TuneReg.direction val oldval) (TuneReg.steps val oldval) oldval
  let out := bus.writes slave (BitVec.ofInt 8 reg) regs (path.map (BitVec.ofInt 8))
  ((tuningText reg oldval val ::
    if out.1 then [tunedText reg (bus.value out.2 slave reg)] else [], ending out.1), out.2)

/-- What `getreg` prints for a register, and whether it goes on. -/
def Bus.valueAt (slave : BitVec 8) (reg : Int) : List String × Bool :=
  match bus.readB regs slave (BitVec.ofInt 8 reg) with
  | .ok ret => ([valueText reg (ret.setWidth 8).toNat], true)
  | .fail _ => ([], false)

/-- The iterations of a loop up to one that ends the program. -/
def upTo : List (List String × Bool) → List String × Bool
  | [] => ([], true)
  | (texts, goesOn) :: rest =>
    if goesOn then (texts ++ (upTo rest).1, (upTo rest).2) else (texts, false)

/-- The line of a register in a dump. -/
def Bus.line (shown : Int → Bool) (slave : BitVec 32) (addr : Nat) : Option String :=
  let val := bus.value regs (slave.setWidth 8) addr
  if shown val then some (readText slave addr val) else none

/-- What a run of a program does. -/
def Tool.call (tool : Tool) : Effect :=
  let unchanged (out : List String × Bool) := ((out.1, ending out.2), regs)
  match tool with
  | .setreg reg val => bus.setAt regs (0x2d#8 <<< 1) (int reg) (int val)
  | .setregB1 reg val => bus.setAt regs (0x49#8 <<< 1) (int reg) (int val)
  | .smbTuneReg reg val => bus.tuneAt regs TuneReg.slave (int reg) (int val)
  | .getreg reg => unchanged (bus.valueAt regs (0x2d#8 <<< 1) (int reg))
  | .getregB1 reg =>
    unchanged ([valueText (int reg) (bus.value regs (0x49#8 <<< 1) (int reg))], true)
  | .getregSpd => unchanged <| upTo <|
    [0x50#8 <<< 1, 0x51#8 <<< 1, 0x52#8 <<< 1].map fun slave =>
      upTo ((List.range 32).map fun reg : Nat => bus.valueAt regs slave reg)
  | .spdDump slave => unchanged
    ((List.range 0x80).map fun i : Nat => c (bus.value regs ((unsigned slave).setWidth 8) i), true)
  | .smbDumpSlave slave =>
    unchanged ((List.range 0x100).filterMap (bus.line regs isPlain (unsigned slave)), true)
  | .smbTest => unchanged
    (((List.range 0x7f).filter (· ≠ 0x69)).filterMap fun i : Nat =>
      bus.line regs (fun val => decide (val ≥ 0)) (BitVec.ofNat 32 (i <<< 1)) 0x0, true)
  | .smbTest2 => unchanged ((List.range 0x100).filterMap (bus.line regs isPlain 0x62#32), true)

end

/-! ## Reads -/

section
variable {ν : Type} {bus : Bus} {regs : Regs} {slave : BitVec 8}

/-- A read that goes on after a failure. -/
theorem does_smbioctlReadB {failed : Io ν Int} (hfailed : Does bus failed regs [] (.ret (-1)) regs)
    (slave : BitVec 8) (addr : Int) :
    Does bus (smbioctlReadB failed slave addr) regs [] (.ret (bus.value regs slave addr)) regs := by
  refine does_read ?_
  unfold Bus.value
  cases bus.readB regs slave (BitVec.ofInt 8 addr) with
  | ok word => exact does_pure _
  | fail errno => exact hfailed

theorem does_quiet : Does bus (quiet : Io ν Int) regs [] (.ret (-1)) regs := does_pure _

theorem does_complain : Does bus (complain : Io ν Int) regs [] (.ret (-1)) regs :=
  (does_perror _).after (does_pure _)

theorem does_abort : Does bus (abort : Io ν Int) regs [] (.exit failure) regs :=
  (does_perror _).after (does_exit _)

/-- A read that ends the program when it fails, before a text with the value. -/
theorem does_abort_bind {α : Type} {reg : Int} {f : Int → Io ν α} {o : Outcome α}
    (hf : ∀ val, Does bus (f val) regs [valueText reg val] o regs) :
    Does bus (smbioctlReadB abort slave reg >>= f) regs (bus.valueAt regs slave reg).1
      (if (bus.valueAt regs slave reg).2 then o else .exit failure) regs := by
  unfold Bus.valueAt
  cases hr : bus.readB regs slave (BitVec.ofInt 8 reg) with
  | ok word =>
    have hread : Does bus (smbioctlReadB abort slave reg : Io ν Int) regs []
        (.ret (word.setWidth 8).toNat) regs := does_read (by rw [hr]; exact does_pure _)
    exact hread.bind (hf _)
  | fail errno =>
    have hread : Does bus (smbioctlReadB abort slave reg : Io ν Int) regs [] (.exit failure) regs :=
      does_read (by rw [hr]; exact does_abort)
    exact hread.bind_exit

/-! ## Loops -/

variable {ι : Type} {body : ι → Io ν Unit}

/-- A loop whose iterations leave the registers alone, and end the program or not. -/
theorem does_forEach {out : ι → List String × Bool} (h : ∀ i, Does bus (body i) regs (out i).1
      (if (out i).2 then .ret () else .exit failure) regs) (is : List ι) :
    Does bus (forEach body is) regs (upTo (is.map out)).1
      (if (upTo (is.map out)).2 then .ret () else .exit failure) regs := by
  induction is with
  | nil => exact does_pure _
  | cons i is ih =>
    have hi := h i
    rw [List.map_cons, upTo]
    cases hout : (out i).2 with
    | true =>
      rw [hout] at hi
      exact hi.bind ih
    | false =>
      rw [hout] at hi
      exact hi.bind_exit

/-- A loop that prints a line for some of its iterations. -/
theorem does_forEach_lines {line : ι → Option String}
    (h : ∀ i, Does bus (body i) regs (line i).toList (.ret ()) regs) (is : List ι) :
    Does bus (forEach body is) regs (is.filterMap line) (.ret ()) regs := by
  induction is with
  | nil => exact does_pure _
  | cons i is ih =>
    have hi : Does bus (forEach body (i :: is)) regs ((line i).toList ++ is.filterMap line)
        (.ret ()) regs := (h i).bind ih
    rw [List.filterMap_cons]
    cases hline : line i with
    | none =>
      rw [hline] at hi
      exact hi
    | some text =>
      rw [hline] at hi
      exact hi

theorem does_readNPrint {failed : Io ν Int} (hfailed : Does bus failed regs [] (.ret (-1)) regs)
    (shown : Int → Bool) (slave : BitVec 32) (addr : Nat) :
    Does bus (readNPrint failed shown slave addr) regs (bus.line regs shown slave addr).toList
      (.ret ()) regs := by
  refine (does_smbioctlReadB hfailed _ _).after ?_
  by_cases hshown : shown (bus.value regs (slave.setWidth 8) addr) = true
  · simp only [Bus.line, if_pos hshown]
    exact does_printf _
  · simp only [Bus.line, if_neg hshown]
    exact does_pure _

/-! ## Programs -/

theorem does_checkSlave (slave : BitVec 32) :
    Does bus (checkSlave slave : Io ν Unit) regs [] (.ret ()) regs := by
  unfold checkSlave
  split
  · exact does_eprintf _
  · exact does_pure _

theorem does_setregAt (slave : BitVec 8) (reg val : String) :
    Does bus (setregAt slave reg val : Io ν Nat) regs (bus.setAt regs slave (int reg) (int val)).1.1
      (bus.setAt regs slave (int reg) (int val)).1.2
      (bus.setAt regs slave (int reg) (int val)).2 := by
  refine does_open ((does_smbioctlReadB does_quiet _ _).after ?_)
  unfold Bus.setAt
  cases hwrite : bus.writeB regs slave (BitVec.ofInt 8 (int reg)) (BitVec.ofInt 8 (int val)) with
  | none =>
    have hset : Does bus (smbioctlWriteB slave (int reg) (int val) : Io ν Unit) regs [] (.ret ())
        (regs.set slave (BitVec.ofInt 8 (int reg)) (BitVec.ofInt 8 (int val))) :=
      does_write hwrite (does_pure _)
    exact (does_printf _).bind ((does_pure _).after (hset.after (does_pure _)))
  | some errno =>
    have hset : Does bus (smbioctlWriteB slave (int reg) (int val) : Io ν Unit) regs []
        (.exit failure) regs := does_write_fail hwrite ((does_perror _).after (does_exit _))
    exact (does_printf _).bind ((does_pure _).after hset.bind_exit)

end

/-! ## Tuning -/

section
open TuneReg (Vars tuneBody)

variable {bus : Bus} {regs : Regs} {reg val inc : Int}

theorem writes_ok {slave cmd byte : BitVec 8} (h : bus.writeB regs slave cmd byte = none)
    (bytes : List (BitVec 8)) : bus.writes slave cmd regs (byte :: bytes) =
      bus.writes slave cmd (regs.set slave cmd byte) bytes := by
  rw [Bus.writes, h]

theorem writes_fail {slave cmd byte : BitVec 8} {errno : Nat}
    (h : bus.writeB regs slave cmd byte = some errno) (bytes : List (BitVec 8)) :
    bus.writes slave cmd regs (byte :: bytes) = (false, regs) := by
  rw [Bus.writes, h]

/-- **The loop on the bus** writes the path, up to a write that fails. The induction is on the
number of steps to the target. -/
theorem leads_tune (hinc : inc ≠ 0) (n : Nat) (oldval : Int) (s : State Vars) (regs : Regs)
    (hs : s.vars.oldval = oldval + inc) (hval : oldval + n * inc = val) {out : Bool × Regs}
    (hout : bus.writes TuneReg.slave (BitVec.ofInt 8 reg) regs
      ((TuneReg.path inc n oldval).map (BitVec.ofInt 8)) = out) :
    Leads bus.step (Prog.loop (tuneBody reg val inc)) s regs fun o s' regs' =>
      o = (if out.1 then .ret () else .exit failure) ∧ s'.stdout = s.stdout ∧ regs' = out.2 := by
  have hconsumes := TuneReg.tuneBody_consumes reg val inc
  induction n generalizing oldval s regs with
  | zero =>
    obtain rfl := hout
    have hend : s.vars.oldval = val + inc := by
      rw [hs, ← hval]
      simp
    have hbody : Serves bus.step (tuneBody reg val inc) s regs (.ret (some ())) s regs :=
      ⟨[], [], rfl, fun rest => TuneReg.tuneBody_end hend⟩
    exact ⟨_, s, regs, .loop_some hconsumes hbody, rfl, rfl, rfl⟩
  | succ n ih =>
    have hmul : ((n + 1 : Nat) : Int) * inc = inc + n * inc := by
      rw [Int.natCast_add, Int.add_mul]
      omega
    have hgo : s.vars.oldval ≠ val + inc := by
      rw [hs, ← hval]
      intro heq
      rcases Int.mul_eq_zero.1 (show ((n + 1 : Nat) : Int) * inc = 0 by omega) with h | h
      · omega
      · exact hinc h
    rw [TuneReg.path, List.map_cons, ← hs] at hout
    cases hwrite : bus.writeB regs TuneReg.slave (BitVec.ofInt 8 reg)
        (BitVec.ofInt 8 s.vars.oldval) with
    | none =>
      rw [writes_ok hwrite] at hout
      have hstep : bus.step (TuneReg.write reg s.vars.oldval) regs = (.ok 0,
          regs.set TuneReg.slave (BitVec.ofInt 8 reg) (BitVec.ofInt 8 s.vars.oldval)) := by
        rw [TuneReg.write, Bus.step, hwrite]
      have hbody : Serves bus.step (tuneBody reg val inc) s regs (.ret none)
          { s with vars := { oldval := s.vars.oldval + inc } }
          (regs.set TuneReg.slave (BitVec.ofInt 8 reg) (BitVec.ofInt 8 s.vars.oldval)) :=
        ⟨[.ok 0], [(TuneReg.write reg s.vars.oldval, .ok 0)],
          ⟨congrArg Prod.fst hstep, congrArg Prod.snd hstep⟩,
          fun rest => TuneReg.tuneBody_ok hgo 0⟩
      rw [hs] at hout hbody
      exact .loop_none hconsumes hbody (ih (oldval + inc) _ _ rfl (by omega) hout)
    | some errno =>
      rw [writes_fail hwrite] at hout
      obtain rfl := hout
      have hsend : Does bus (TuneReg.smbioctlWriteB TuneReg.slave reg s.vars.oldval) regs []
          (.exit failure) regs := does_write_fail hwrite ((does_perror _).after (does_exit _))
      obtain ⟨_, s', _, hserves, rfl, hstdout, rfl⟩ := hsend s
      have hbody : Serves bus.step (tuneBody reg val inc) s _ (.exit failure) s' _ :=
        (Serves.get s _).bind (by rw [if_pos hgo]; exact hserves.bind_exit)
      rw [List.append_nil] at hstdout
      exact ⟨_, s', _, .loop_exit hconsumes hbody, rfl, hstdout, rfl⟩

theorem does_readB (reg : Int) : Does bus (TuneReg.smbioctlReadB TuneReg.slave reg) regs []
    (.ret (bus.value regs TuneReg.slave reg)) regs := does_smbioctlReadB does_quiet _ _

/-- `main` from the assignment before the loop on. -/
def tuneFrom (reg val oldval inc : Int) : Io Vars Nat := do
  Prog.modify fun s => { s with vars := { oldval := oldval + inc } }
  Prog.loop (tuneBody reg val inc)
  let val ← TuneReg.smbioctlReadB TuneReg.slave reg
  printf (tunedText reg val)
  pure 0

theorem does_tuneFrom {oldval : Int} {out : Bool × Regs}
    (hloop : ∀ s : State Vars, s.vars.oldval = oldval + inc →
      Leads bus.step (Prog.loop (tuneBody reg val inc)) s regs fun o s' d =>
        o = (if out.1 then .ret () else .exit failure) ∧ s'.stdout = s.stdout ∧ d = out.2) :
    Does bus (tuneFrom reg val oldval inc) regs
      (if out.1 then [tunedText reg (bus.value out.2 TuneReg.slave reg)] else []) (ending out.1)
      out.2 := by
  obtain ⟨done, regs'⟩ := out
  have hrest : Does bus (do
      let val ← TuneReg.smbioctlReadB TuneReg.slave reg
      printf (tunedText reg val)
      pure 0 : Io Vars Nat) regs' [tunedText reg (bus.value regs' TuneReg.slave reg)] (.ret 0)
      regs' := (does_readB reg).after ((does_printf _).bind (does_pure 0))
  intro s
  refine .after (Serves.modify _ s regs) ?_
  obtain ⟨_, s', _, hserves, rfl, hout, rfl⟩ :=
    hloop { s with vars := { oldval := oldval + inc } } rfl
  cases done with
  | true =>
    obtain ⟨_, s'', _, hserves', rfl, hout', rfl⟩ := hrest s'
    refine ⟨_, s'', _, hserves.bind hserves', rfl, ?_, rfl⟩
    rw [hout', hout]
    rfl
  | false =>
    refine ⟨_, s', _, hserves.bind_exit, rfl, ?_, rfl⟩
    rw [hout]
    exact (List.append_nil _).symm

/-- **`smb_tune_reg`** on the bus. -/
theorem does_tune (regWord valWord : String) :
    Does bus (TuneReg.main regWord valWord) regs
      (bus.tuneAt regs TuneReg.slave (int regWord) (int valWord)).1.1
      (bus.tuneAt regs TuneReg.slave (int regWord) (int valWord)).1.2
      (bus.tuneAt regs TuneReg.slave (int regWord) (int valWord)).2 := by
  have hsteps := TuneReg.add_steps (int valWord) (bus.value regs TuneReg.slave (int regWord))
  have hinc : TuneReg.direction (int valWord) (bus.value regs TuneReg.slave (int regWord)) ≠ 0 := by
    rcases TuneReg.direction_cases (int valWord) (bus.value regs TuneReg.slave (int regWord))
      with h | h <;> rw [h] <;> decide
  have htuned := does_tuneFrom fun s hs => leads_tune hinc _ _ s regs hs hsteps
    (rfl : bus.writes TuneReg.slave (BitVec.ofInt 8 (int regWord)) regs _ = _)
  exact does_open ((does_readB _).after ((does_printf _).bind htuned))

end

/-! ## Scripts -/

section
variable {bus : Bus} {regs : Regs}

/-- The end of a program after a part that may have ended it. -/
theorem Does.ending {ν : Type} {p : Io ν Unit} {out : List String × Bool}
    (h : Does bus p regs out.1 (if out.2 then .ret () else .exit failure) regs) :
    Does bus (p >>= fun _ => pure 0) regs out.1 (Smb.ending out.2) regs := by
  obtain ⟨texts, goesOn⟩ := out
  cases goesOn with
  | true =>
    have hall : Does bus (p >>= fun _ => pure 0) regs (texts ++ []) (.ret 0) regs :=
      h.bind (does_pure 0)
    rwa [List.append_nil] at hall
  | false => exact h.bind_exit

/-- A program that is one loop of reads. -/
theorem does_dump {ν ι : Type} {body : ι → Io ν Unit} {line : ι → Option String}
    (h : ∀ i, Does bus (body i) regs (line i).toList (.ret ()) regs) (is : List ι) :
    Does bus (withDev (forEach body is >>= fun _ => pure 0)) regs (is.filterMap line) (.ret 0)
      regs := by
  have hloop : Does bus (forEach body is) regs (is.filterMap line, true).1 _ regs :=
    does_forEach_lines h is
  exact does_open hloop.ending

theorem does_dump_all {ν ι : Type} {body : ι → Io ν Unit} {text : ι → String}
    (h : ∀ i, Does bus (body i) regs [text i] (.ret ()) regs) (is : List ι) :
    Does bus (withDev (forEach body is >>= fun _ => pure 0)) regs (is.map text) (.ret 0) regs := by
  rw [← List.filterMap_eq_map]
  exact does_dump h is

/-- **A run** of one of the programs. -/
theorem does_main (tool : Tool) :
    Does bus tool.main regs (tool.call bus regs).1.1 (tool.call bus regs).1.2
      (tool.call bus regs).2 := by
  cases tool with
  | setreg reg val => exact does_setregAt _ reg val
  | setregB1 reg val => exact does_setregAt _ reg val
  | smbTuneReg reg val => exact does_tune reg val
  | getreg reg =>
    exact does_open (does_abort_bind fun val => (does_printf _).bind (does_pure 0))
  | getregB1 reg =>
    exact does_open ((does_smbioctlReadB does_quiet _ _).after ((does_printf _).bind (does_pure 0)))
  | getregSpd =>
    exact does_open (does_forEach (fun slave => does_forEach (fun reg =>
      does_abort_bind fun val => does_printf _) (List.range 32)) _).ending
  | spdDump slave =>
    refine (does_checkSlave _).after ?_
    show Does bus _ regs ((List.range 0x80).map fun i : Nat =>
      c (bus.value regs ((unsigned slave).setWidth 8) i)) (.ret 0) regs
    exact does_dump_all (fun i =>
      (does_smbioctlReadB does_quiet _ _).after (does_printf _)) (List.range 0x80)
  | smbDumpSlave slave =>
    exact (does_checkSlave _).after
      (does_dump (does_readNPrint does_complain _ _) (List.range 0x100))
  | smbTest =>
    have hline : ∀ i : Nat, Does bus (if i = 0x69 then pure () else
        readNPrint quiet (fun val => decide (val ≥ 0)) (BitVec.ofNat 32 (i <<< 1)) 0x0 :
          Io TuneReg.Vars Unit) regs (if decide (i ≠ 0x69) = true then
        bus.line regs (fun val => decide (val ≥ 0)) (BitVec.ofNat 32 (i <<< 1)) 0x0
          else none).toList (.ret ()) regs := fun i => by
      by_cases hpll : i = 0x69
      · rw [if_pos hpll, if_neg (by simp [hpll])]
        exact does_pure _
      · rw [if_neg hpll, if_pos (by simp [hpll])]
        exact does_readNPrint does_quiet _ _ _
    have hdump := does_dump hline (List.range 0x7f)
    rw [← List.filterMap_filter] at hdump
    exact hdump
  | smbTest2 => exact does_dump (does_readNPrint does_quiet _ _) (List.range 0x100)

/-- **Scripts of runs**: a script of the programs prints and does on the bus what its calls say,
whatever it decides by the texts and the exit statuses in between. -/
theorem scripts_serve {α : Type} (bus : Bus) (vars : TuneReg.Vars)
    (script : Query Tool (List String × Outcome Nat) α) (regs : Regs) :
    Scripted bus.step Tool.main (fun _ => State.start vars) (fun o s => (s.stdout, o)) script regs
      (script.exec (fun tool regs => tool.call bus regs) regs).1
      (script.exec (fun tool regs => tool.call bus regs) regs).2 := by
  refine scripted_exec _ _ _ _ (fun tool regs => ?_) script regs
  obtain ⟨o, s, d, hserves, rfl, hout, rfl⟩ :=
    (does_main tool : Does bus _ regs _ _ _) (State.start vars)
  exact ⟨_, s, _, hserves, Prod.ext hout rfl, rfl⟩

end

/-! ## Tuning and setting -/

/-- The program ends with the status 0 and leaves `regs'`. -/
def Leaves {ν : Type} (bus : Bus) (p : Io ν Nat) (regs regs' : Regs) : Prop :=
  ∃ texts, Does bus p regs texts (.ret 0) regs'

section
variable {bus : Bus} {regs : Regs} {regWord valWord : String}

/-- What both programs send at the end. -/
def targetSet (regs : Regs) (regWord valWord : String) : Regs :=
  regs.set TuneReg.slave (BitVec.ofInt 8 (int regWord)) (BitVec.ofInt 8 (int valWord))

section
variable (hwrite : ∀ regs byte,
  bus.writeB regs TuneReg.slave (BitVec.ofInt 8 (int regWord)) byte = none)
include hwrite

theorem setreg_leaves :
    Leaves bus (setreg regWord valWord : Io Unit Nat) regs (targetSet regs regWord valWord) := by
  have hset : Does bus (setreg regWord valWord : Io Unit Nat) regs _ _ _ :=
    does_setregAt TuneReg.slave regWord valWord
  simp only [Bus.setAt, hwrite] at hset
  exact ⟨_, hset⟩

/-- Writes to a register that can be written leave the last byte. -/
theorem writes_concat (bytes : List (BitVec 8)) (byte : BitVec 8) :
    bus.writes TuneReg.slave (BitVec.ofInt 8 (int regWord)) regs (bytes ++ [byte]) =
      (true, regs.set TuneReg.slave (BitVec.ofInt 8 (int regWord)) byte) := by
  induction bytes generalizing regs with
  | nil => exact writes_ok (hwrite regs byte) []
  | cons first bytes ih => rw [List.cons_append, writes_ok (hwrite regs first), ih, set_set]

theorem tune_leaves :
    Leaves bus (TuneReg.main regWord valWord) regs
      (if bus.value regs TuneReg.slave (int regWord) = int valWord then regs
        else targetSet regs regWord valWord) := by
  have htune : Does bus (TuneReg.main regWord valWord) regs _ _ _ := does_tune regWord valWord
  have hsteps := TuneReg.add_steps (int valWord) (bus.value regs TuneReg.slave (int regWord))
  unfold Bus.tuneAt at htune
  by_cases hreached : bus.value regs TuneReg.slave (int regWord) = int valWord
  · have hnone : TuneReg.steps (int valWord) (bus.value regs TuneReg.slave (int regWord)) = 0 := by
      unfold TuneReg.steps
      omega
    simp only [hnone] at htune
    rw [if_pos hreached]
    exact ⟨_, htune⟩
  · obtain ⟨n, hn⟩ : ∃ n, TuneReg.steps (int valWord)
        (bus.value regs TuneReg.slave (int regWord)) = n + 1 :=
      Nat.exists_eq_succ_of_ne_zero (by unfold TuneReg.steps; omega)
    rw [hn] at hsteps
    simp only [hn, TuneReg.path_concat, hsteps, List.map_append, List.map_cons, List.map_nil,
      writes_concat hwrite] at htune
    rw [if_neg hreached]
    exact ⟨_, htune⟩

end

end

/-- **`smb_tune_reg` does what `setreg` does** to a register that can be written, and that is read
as it is or not at all. They differ exactly when it cannot be read and the target is -1: then
`smb_tune_reg` has nothing to do, and the register may be something else than 0xff. -/
theorem tune_agrees (bus : Bus) (regs : Regs) (regWord valWord : String)
    (hwrite : ∀ regs byte,
      bus.writeB regs TuneReg.slave (BitVec.ofInt 8 (int regWord)) byte = none)
    (hread : ∀ word ∈ (bus.readB regs TuneReg.slave (BitVec.ofInt 8 (int regWord))).word,
      word.setWidth 8 = regs TuneReg.slave (BitVec.ofInt 8 (int regWord))) :
    ∃ tuned set, Leaves bus (TuneReg.main regWord valWord) regs tuned ∧
      Leaves bus (setreg regWord valWord : Io Unit Nat) regs set ∧
      (tuned = set ↔ ¬((bus.readB regs TuneReg.slave (BitVec.ofInt 8 (int regWord))).word = none ∧
        int valWord = -1 ∧ regs TuneReg.slave (BitVec.ofInt 8 (int regWord)) ≠ 0xff#8)) := by
  refine ⟨_, _, tune_leaves hwrite, setreg_leaves hwrite, ?_⟩
  have hsame : regs = targetSet regs regWord valWord ↔
      regs TuneReg.slave (BitVec.ofInt 8 (int regWord)) = BitVec.ofInt 8 (int valWord) := by
    constructor
    · intro h
      rw [h, targetSet, regs_set]
    · intro h
      rw [targetSet, ← h, set_self]
  unfold Bus.value
  cases hr : bus.readB regs TuneReg.slave (BitVec.ofInt 8 (int regWord)) with
  | ok word =>
    rw [hr] at hread
    refine iff_of_true ?_ fun h => by cases h.1
    split
    · rename_i hreached
      have hvalue : TuneReg.readValue (.ok word) = ((word.setWidth 8).toNat : Int) := rfl
      rw [hsame, ← hread word rfl, ← hreached, hvalue, BitVec.ofInt_natCast, BitVec.ofNat_toNat,
        BitVec.setWidth_eq]
    · rfl
  | fail errno =>
    by_cases hreached : -1 = int valWord
    · rw [if_pos (by exact hreached), hsame, ← hreached]
      simp [Reply.word]
    · rw [if_neg (by exact hreached)]
      exact iff_of_true rfl fun h => hreached h.2.1.symm

/-- Slaves whose registers are all there. -/
def memory : Bus where
  readB regs slave cmd := .ok ((regs slave cmd).setWidth 16)
  readW regs slave cmd := .ok ((regs slave cmd).setWidth 16)
  writeB _ _ _ _ := none

theorem tune_agrees_memory : ∃ tuned set,
    Leaves memory (TuneReg.main "0x5b" "0x40") (fun _ _ => 0xff) tuned ∧
      Leaves memory (setreg "0x5b" "0x40" : Io Unit Nat) (fun _ _ => 0xff) set ∧
      (tuned = set ↔ ¬((memory.readB (fun _ _ => 0xff) TuneReg.slave
        (BitVec.ofInt 8 (int "0x5b"))).word = none ∧ int "0x40" = -1 ∧ 0xff#8 ≠ 0xff#8)) := by
  refine tune_agrees memory (fun _ _ => 0xff) "0x5b" "0x40" (fun _ _ => rfl) ?_
  rintro _ ⟨⟩
  rfl

end Smb
