import IoHacks.Lib.Schedule
import IoHacks.Port.Indexed
import Mathlib.Data.Fintype.Basic
import Mathlib.Tactic.FinCases

/-!
# Scripts and schedules of the index port tools

Behind every pair of ports there is a chip with an index register and some cells (`Chip`); `cell`
says which cell an index selects, so that indices may be aliases. The registers of all pairs are
what the tools are for (`Registers`): `Tool.call` is what a run of a program does to them.

* `script_refines`: a script of tool runs does the same to the registers, whatever it decides by
  the texts and the statuses in between. The index that one run leaves behind does not reach the
  next one.
* `schedule_isolates`: tools of different pairs can run at the same time.
* `race_loses_write`: two runs of one pair cannot. There is a schedule where one of them reports a
  write that has not happened.
-/

namespace Port.Indexed

open Lib

/-! ## The chips -/

/-- The device behind a pair of ports. -/
structure Chip where
  index : BitVec 8
  cells : BitVec 8 → BitVec 8

abbrev Machine := Pair → Chip

/-- The contents of the cells of all pairs. -/
abbrev Registers := Pair → BitVec 8 → BitVec 8

def registers (m : Machine) : Registers := fun pair => (m pair).cells

/-- The pair that a request goes to. -/
def port? (port : Nat) : Option Pair :=
  Pair.all.find? fun pair => port = pair.addrPort ∨ port = pair.dataPort

def pair? : Req → Option Pair
  | .outb port _ => port? port
  | .inb port => port? port
  | _ => none

section
variable (cell : Pair → BitVec 8 → BitVec 8)

/-- The request at the chip of a pair; it leaves the other ports alone. -/
def Chip.step (pair : Pair) : Req → Chip → Reply × Chip
  | .outb port byte, chip =>
    if port = pair.addrPort then (ready (.outb port byte), { chip with index := byte })
    else if port = pair.dataPort then
      (ready (.outb port byte),
        { chip with cells := Function.update chip.cells (cell pair chip.index) byte })
    else (ready (.outb port byte), chip)
  | .inb port, chip =>
    if port = pair.dataPort then
      ({ ready (.inb port) with byte := chip.cells (cell pair chip.index) }, chip)
    else (ready (.inb port), chip)
  | req, chip => (ready req, chip)

/-- The request at all chips. -/
def Machine.step (req : Req) (m : Machine) : Reply × Machine :=
  match pair? req with
  | some pair =>
    ((Chip.step cell pair req (m pair)).1,
      Function.update m pair (Chip.step cell pair req (m pair)).2)
  | none => (ready req, m)

/-! ## What the tools are for -/

/-- A run that prints the texts and leaves the registers as they are. -/
def shows (texts : List String) (regs : Registers) : (List String × Nat) × Registers :=
  ((texts, 0), regs)

/-- The registers after a write. -/
def Registers.set (regs : Registers) (pair : Pair) (index val : BitVec 8) : Registers :=
  Function.update regs pair (Function.update (regs pair) (cell pair index) val)

/-- What `amd_intr_map_tool` does for its parsed arguments. -/
def intrMapCall (parsed : Except String IntrMap.Access) (regs : Registers) :
    (List String × Nat) × Registers :=
  match parsed with
  | .error _ => (([], 1), regs)
  | .ok (.read idx) =>
    shows ["idx 0x" ++ Mem.hex 2 idx.toNat ++ " has value 0x" ++
      Mem.hex 2 (regs .intrMap (cell .intrMap idx)).toNat ++ "\n"] regs
  | .ok (.write idx val) => shows [] (regs.set cell .intrMap idx val)

/-- What a run of a program prints and returns, and what it does to the registers. -/
def Tool.call (tool : Tool) (regs : Registers) : (List String × Nat) × Registers :=
  let get (pair : Pair) (index : BitVec 8) : BitVec 8 := regs pair (cell pair index)
  match tool with
  | .getcmos reg => shows [cmosText (uInt reg) (get .cmos ((uInt reg).setWidth 8))] regs
  | .getextcmos reg => shows [cmosText (uInt reg) (get .extCmos ((uInt reg).setWidth 8))] regs
  | .amdpm2Get reg => shows [pmText (uChar reg) (get .amdpm2 (uChar reg))] regs
  | .amdpmioGet reg => shows [pmText (uChar reg) (get .amdpmio (uChar reg))] regs
  | .amdpm2Set reg val =>
    shows [pmText (uChar reg) (uChar val)] (regs.set cell .amdpm2 (uChar reg) (uChar val))
  | .amdpmioSet reg val =>
    shows [pmText (uChar reg) (uChar val)] (regs.set cell .amdpmio (uChar reg) (uChar val))
  | .ithwmGetio port =>
    shows [hwmText "has" (uInt port) (get .ithwm ((uInt port).setWidth 8))] regs
  | .ithwm2Getio port =>
    shows [hwmText "has" (uInt port) (get .ithwm2 ((uInt port).setWidth 8))] regs
  | .ithwmSetio port val =>
    shows [hwmText "now has" (uInt port) (uChar val)]
      (regs.set cell .ithwm ((uInt port).setWidth 8) (uChar val))
  | .ithwm2Setio port val =>
    shows [hwmText "now has" (uInt port) (uChar val)]
      (regs.set cell .ithwm2 ((uInt port).setWidth 8) (uChar val))
  | .getcmosAll =>
    shows ((List.range' 14 114).map fun reg => c (get .cmos (BitVec.ofNat 8 reg))) regs
  | .getextcmosAll =>
    shows ((List.range 128).map fun reg => c (get .extCmos (BitVec.ofNat 8 (reg ||| 0x80)))) regs
  | .amdIntrMap args => intrMapCall cell (IntrMap.parse args) regs

end

/-- The pair that a program works on. -/
def Tool.pair : Tool → Pair
  | .getcmos _ => .cmos
  | .getextcmos _ => .extCmos
  | .amdpm2Get _ => .amdpm2
  | .amdpmioGet _ => .amdpmio
  | .amdpm2Set _ _ => .amdpm2
  | .amdpmioSet _ _ => .amdpmio
  | .ithwmGetio _ => .ithwm
  | .ithwm2Getio _ => .ithwm2
  | .ithwmSetio _ _ => .ithwm
  | .ithwm2Setio _ _ => .ithwm2
  | .getcmosAll => .cmos
  | .getextcmosAll => .extCmos
  | .amdIntrMap _ => .intrMap

/-- A run with the texts that it prints. -/
def Tool.run (tool : Tool) : Io (List String × Nat) := Query.capture Req.stdout tool.main

/-! ## The ports of a pair -/

theorem port?_addrPort (pair : Pair) : port? pair.addrPort = some pair := by cases pair <;> rfl

theorem port?_dataPort (pair : Pair) : port? pair.dataPort = some pair := by cases pair <;> rfl

theorem dataPort_ne_addrPort (pair : Pair) : pair.dataPort ≠ pair.addrPort := by
  cases pair <;> decide

/-- A port that no pair has. -/
theorem port?_eq_none {port : Nat} (h : port? port = none) (pair : Pair) :
    port ≠ pair.addrPort ∧ port ≠ pair.dataPort := by
  have hmem : pair ∈ Pair.all := by cases pair <;> decide
  have hno := List.find?_eq_none.1 h pair hmem
  simpa only [decide_eq_true_eq, not_or] using hno

section
variable {cell : Pair → BitVec 8 → BitVec 8} {pair : Pair}

/-- The requests of no pair do nothing. -/
theorem step_none {req : Req} (h : pair? req = none) (chip : Chip) :
    Chip.step cell pair req chip = (ready req, chip) := by
  cases req with
  | outb port byte =>
    obtain ⟨haddr, hdata⟩ := port?_eq_none h pair
    rw [Chip.step, if_neg haddr, if_neg hdata]
  | inb port => rw [Chip.step, if_neg (port?_eq_none h pair).2]
  | _ => rfl

/-- The requests of a pair: to its ports, or to none. -/
def Own (pair : Pair) (req : Req) : Prop := pair? req = some pair ∨ pair? req = none

theorem step_own {req : Req} (h : Own pair req) (m : Machine) :
    Machine.step cell req m = ((Chip.step cell pair req (m pair)).1,
      Function.update m pair (Chip.step cell pair req (m pair)).2) := by
  rcases h with h | h
  · rw [Machine.step, h]
  · rw [Machine.step, h, step_none h, Function.update_eq_self]

/-- The chips are parts of the machine. -/
def chips (cell : Pair → BitVec 8 → BitVec 8) : Parts (Machine.step cell) Pair Chip where
  view pair m := m pair
  stepAt := Chip.step cell
  own := Own
  answers h m := by rw [step_own h]
  moves h m := by simp [step_own h]
  frame h hne m := by simp [step_own h, hne]

/-! ## A run on its chip -/

theorem run_outb_addrPort (byte : BitVec 8) (chip : Chip) :
    Query.run (Chip.step cell pair) Req.stdout (outb pair.addrPort byte) chip =
      (([], ()), { chip with index := byte }) := by
  simp [outb, Chip.step, Req.stdout]

theorem run_outb_dataPort (byte : BitVec 8) (chip : Chip) :
    Query.run (Chip.step cell pair) Req.stdout (outb pair.dataPort byte) chip =
      (([], ()), { chip with
        cells := Function.update chip.cells (cell pair chip.index) byte }) := by
  simp [outb, Chip.step, Req.stdout, dataPort_ne_addrPort]

theorem run_inb_dataPort (chip : Chip) :
    Query.run (Chip.step cell pair) Req.stdout (inb pair.dataPort) chip =
      (([], chip.cells (cell pair chip.index)), chip) := by
  simp [inb, Chip.step, Req.stdout]

theorem run_printf (text : String) (chip : Chip) :
    Query.run (Chip.step cell pair) Req.stdout (printf text) chip = (([text], ()), chip) := by
  simp [printf, Chip.step, Req.stdout]

theorem run_indexGet (reg : BitVec 8) (chip : Chip) :
    Query.run (Chip.step cell pair) Req.stdout (indexGet pair reg) chip =
      (([], chip.cells (cell pair reg)), { chip with index := reg }) := by
  simp [indexGet, run_outb_addrPort, run_inb_dataPort]

theorem run_indexSet (reg val : BitVec 8) (chip : Chip) :
    Query.run (Chip.step cell pair) Req.stdout (indexSet pair reg val) chip =
      (([], ()), { index := reg, cells := Function.update chip.cells (cell pair reg) val }) := by
  simp [indexSet, run_outb_addrPort, run_outb_dataPort]

theorem run_withIo (access : Io Unit) (chip : Chip) :
    Query.run (Chip.step cell pair) Req.stdout (withIo access) chip =
      (((Query.run (Chip.step cell pair) Req.stdout access chip).1.1, 0),
        (Query.run (Chip.step cell pair) Req.stdout access chip).2) := by
  simp [withIo, Chip.step, ready, Req.stdout]

/-- The loop of `getcmos_all` prints the cells and leaves them. -/
theorem run_cmosLoop (cell : Pair → BitVec 8 → BitVec 8) (regs : List Nat) (chip : Chip) :
    ∃ index, Query.run (Chip.step cell .cmos) Req.stdout (cmosLoop regs) chip =
      ((regs.map fun reg => c (chip.cells (cell .cmos (BitVec.ofNat 8 reg))), ()),
        { chip with index }) := by
  induction regs generalizing chip with
  | nil => exact ⟨chip.index, rfl⟩
  | cons reg regs ih =>
    obtain ⟨index, hrun⟩ := ih { chip with index := BitVec.ofNat 8 reg }
    refine ⟨index, ?_⟩
    simp [cmosLoop, run_indexGet, run_printf, hrun, Chip.step, Req.stdout]

/-- The loop of `getextcmos_all`, which sets the highest bit of the index. -/
theorem run_extCmosLoop (cell : Pair → BitVec 8 → BitVec 8) (regs : List Nat) (chip : Chip) :
    ∃ index, Query.run (Chip.step cell .extCmos) Req.stdout (extCmosLoop regs) chip =
      ((regs.map fun reg => c (chip.cells (cell .extCmos (BitVec.ofNat 8 (reg ||| 0x80)))), ()),
        { chip with index }) := by
  induction regs generalizing chip with
  | nil => exact ⟨chip.index, rfl⟩
  | cons reg regs ih =>
    obtain ⟨index, hrun⟩ := ih { chip with index := BitVec.ofNat 8 (reg ||| 0x80) }
    refine ⟨index, ?_⟩
    simp only [extCmosLoop, Query.run_bind, run_indexGet, run_printf, hrun, List.map_cons]
    rfl

/-! The families of programs. -/

theorem run_cmosGet (word : String) (chip : Chip) :
    Query.run (Chip.step cell pair) Req.stdout (cmosGet pair word) chip =
      (([cmosText (uInt word) (chip.cells (cell pair ((uInt word).setWidth 8)))], 0),
        { chip with index := (uInt word).setWidth 8 }) := by
  simp [cmosGet, run_withIo, run_indexGet, run_printf]

theorem run_pmGet (word : String) (chip : Chip) :
    Query.run (Chip.step cell pair) Req.stdout (pmGet pair word) chip =
      (([pmText (uChar word) (chip.cells (cell pair (uChar word)))], 0),
        { chip with index := uChar word }) := by
  simp [pmGet, run_withIo, run_indexGet, run_printf]

theorem run_pmSet (word valWord : String) (chip : Chip) :
    Query.run (Chip.step cell pair) Req.stdout (pmSet pair word valWord) chip =
      (([pmText (uChar word) (uChar valWord)], 0),
        { index := uChar word
          cells := Function.update chip.cells (cell pair (uChar word)) (uChar valWord) }) := by
  simp [pmSet, run_withIo, run_indexSet, run_printf]

theorem run_hwmGet (word : String) (chip : Chip) :
    Query.run (Chip.step cell pair) Req.stdout (hwmGet pair word) chip =
      (([hwmText "has" (uInt word) (chip.cells (cell pair ((uInt word).setWidth 8)))], 0),
        { chip with index := (uInt word).setWidth 8 }) := by
  simp [hwmGet, run_withIo, run_indexGet, run_printf]

theorem run_hwmSet (word valWord : String) (chip : Chip) :
    Query.run (Chip.step cell pair) Req.stdout (hwmSet pair word valWord) chip =
      (([hwmText "now has" (uInt word) (uChar valWord)], 0),
        { index := (uInt word).setWidth 8
          cells := Function.update chip.cells (cell pair ((uInt word).setWidth 8))
            (uChar valWord) }) := by
  simp [hwmSet, run_withIo, run_indexSet, run_indexGet, run_printf]

theorem run_intrMap (args : List String) (m : Machine) :
    ∃ index, Query.run (Chip.step cell .intrMap) Req.stdout (IntrMap.main args) (m .intrMap) =
      ((intrMapCall cell (IntrMap.parse args) (registers m)).1,
        { index
          cells := (intrMapCall cell (IntrMap.parse args) (registers m)).2 .intrMap }) := by
  unfold IntrMap.main
  cases IntrMap.parse args with
  | error text =>
    refine ⟨(m .intrMap).index, ?_⟩
    simp [Chip.step, Req.stdout, intrMapCall, registers]
  | ok a =>
    cases a with
    | read idx =>
      refine ⟨idx, ?_⟩
      simp [IntrMap.access, Chip.step, ready, Req.stdout, Pair.addrPort, Pair.dataPort,
        IntrMap.addrPort, IntrMap.dataPort, intrMapCall, shows, registers]
    | write idx val =>
      refine ⟨idx, ?_⟩
      simp [IntrMap.access, Chip.step, ready, Req.stdout, Pair.addrPort, Pair.dataPort,
        IntrMap.addrPort, IntrMap.dataPort, intrMapCall, shows, registers, Registers.set]

/-- **A run on its chip** prints, returns and does what `Tool.call` says. -/
theorem run_main (cell : Pair → BitVec 8 → BitVec 8) (tool : Tool) (m : Machine) :
    ∃ index, Query.run (Chip.step cell tool.pair) Req.stdout tool.main (m tool.pair) =
      ((tool.call cell (registers m)).1,
        { index, cells := (tool.call cell (registers m)).2 tool.pair }) := by
  have hset : ∀ {out : (List String × Nat) × Chip} {pair index reg val texts},
      out = ((texts, 0), { index, cells := Function.update (m pair).cells (cell pair reg) val }) →
      out = ((shows texts ((registers m).set cell pair reg val)).1,
        { index, cells := (shows texts ((registers m).set cell pair reg val)).2 pair }) := by
    rintro _ pair index reg val texts rfl
    simp [shows, Registers.set, registers]
  cases tool with
  | getcmos reg => exact ⟨_, run_cmosGet reg (m .cmos)⟩
  | getextcmos reg => exact ⟨_, run_cmosGet reg (m .extCmos)⟩
  | amdpm2Get reg => exact ⟨_, run_pmGet reg (m .amdpm2)⟩
  | amdpmioGet reg => exact ⟨_, run_pmGet reg (m .amdpmio)⟩
  | amdpm2Set reg val => exact ⟨_, hset (run_pmSet reg val (m .amdpm2))⟩
  | amdpmioSet reg val => exact ⟨_, hset (run_pmSet reg val (m .amdpmio))⟩
  | ithwmGetio port => exact ⟨_, run_hwmGet port (m .ithwm)⟩
  | ithwm2Getio port => exact ⟨_, run_hwmGet port (m .ithwm2)⟩
  | ithwmSetio port val => exact ⟨_, hset (run_hwmSet port val (m .ithwm))⟩
  | ithwm2Setio port val => exact ⟨_, hset (run_hwmSet port val (m .ithwm2))⟩
  | getcmosAll =>
    obtain ⟨index, hrun⟩ := run_cmosLoop cell (List.range' 14 114) (m .cmos)
    refine ⟨index, ?_⟩
    have heprintf : ∀ text, Chip.step cell .cmos (.eprintf text) (m .cmos) =
      (ready (.eprintf text), m .cmos) := fun _ => rfl
    show Query.run (Chip.step cell .cmos) Req.stdout getcmosAll (m .cmos) = _
    simp only [getcmosAll, run_withIo, Query.run_bind, Query.run_request, heprintf, hrun]
    rfl
  | getextcmosAll =>
    obtain ⟨index, hrun⟩ := run_extCmosLoop cell (List.range 128) (m .extCmos)
    refine ⟨index, ?_⟩
    show Query.run (Chip.step cell .extCmos) Req.stdout getextcmosAll (m .extCmos) = _
    rw [getextcmosAll, run_withIo, hrun]
    rfl
  | amdIntrMap args => exact run_intrMap args m

/-- A run leaves the registers of the other pairs. -/
theorem call_frame (tool : Tool) (regs : Registers) {l : Pair} (hl : l ≠ tool.pair) :
    (tool.call cell regs).2 l = regs l := by
  have hset : ∀ {pair index val}, l ≠ pair → (regs.set cell pair index val) l = regs l :=
    fun hne => Function.update_of_ne hne ..
  cases tool with
  | amdpm2Set reg val => exact hset hl
  | amdpmioSet reg val => exact hset hl
  | ithwmSetio port val => exact hset hl
  | ithwm2Setio port val => exact hset hl
  | amdIntrMap args =>
    show (intrMapCall cell (IntrMap.parse args) regs).2 l = regs l
    cases IntrMap.parse args with
    | error text => rfl
    | ok a =>
      cases a with
      | read idx => rfl
      | write idx val => exact hset hl
  | _ => rfl

/-! ## The ports that a run uses -/

theorem keeps_call {req : Req} (h : Own pair req) {β : Type} (f : Reply → β) :
    (do let x ← Query.request req; pure (f x) : Io β).Keeps (Own pair) :=
  (Query.Keeps.request h).bind fun x => .ret (f x)

theorem keeps_outb {port : Nat} (h : port? port = some pair) (byte : BitVec 8) :
    (outb port byte).Keeps (Own pair) :=
  keeps_call (show Own pair (.outb port byte) from .inl h) fun _ => ()

theorem keeps_inb {port : Nat} (h : port? port = some pair) : (inb port).Keeps (Own pair) :=
  keeps_call (show Own pair (.inb port) from .inl h) Reply.byte

theorem keeps_indexGet (reg : BitVec 8) : (indexGet pair reg).Keeps (Own pair) :=
  (keeps_outb (port?_addrPort pair) reg).bind fun _ => keeps_inb (port?_dataPort pair)

theorem keeps_indexSet (reg val : BitVec 8) : (indexSet pair reg val).Keeps (Own pair) :=
  (keeps_outb (port?_addrPort pair) reg).bind fun _ => keeps_outb (port?_dataPort pair) val

theorem keeps_printf (text : String) : (printf text).Keeps (Own pair) :=
  keeps_call (.inr rfl) fun _ => ()

theorem keeps_withIo {access : Io Unit} (h : access.Keeps (Own pair)) :
    (withIo access).Keeps (Own pair) :=
  (Query.Keeps.request (.inr rfl)).bind fun _ =>
    .ite (keeps_call (.inr rfl) fun _ => 1) (h.bind fun _ => keeps_call (.inr rfl) fun _ => 0)

theorem keeps_cmosLoop (regs : List Nat) : (cmosLoop regs).Keeps (Own .cmos) := by
  induction regs with
  | nil => exact .ret ()
  | cons reg regs ih =>
    exact (keeps_indexGet _).bind fun val => (keeps_printf _).bind fun _ =>
      (Query.Keeps.request (.inr rfl)).bind fun _ => ih

theorem keeps_extCmosLoop (regs : List Nat) : (extCmosLoop regs).Keeps (Own .extCmos) := by
  induction regs with
  | nil => exact .ret ()
  | cons reg regs ih =>
    exact (keeps_indexGet _).bind fun val => (keeps_printf _).bind fun _ => ih

theorem keeps_intrMap (args : List String) : (IntrMap.main args).Keeps (Own .intrMap) := by
  unfold IntrMap.main
  cases IntrMap.parse args with
  | error text => exact keeps_call (.inr rfl) fun _ => 1
  | ok a =>
    have haccess : (IntrMap.access a).Keeps (Own .intrMap) := by
      cases a with
      | read idx =>
        exact (Query.Keeps.request (.inl rfl)).bind fun _ =>
          (Query.Keeps.request (.inl rfl)).bind fun _ => keeps_call (.inr rfl) fun _ => ()
      | write idx val =>
        exact (Query.Keeps.request (.inl rfl)).bind fun _ => keeps_call (.inl rfl) fun _ => ()
    exact keeps_withIo haccess

/-- A program uses the ports of its pair alone. -/
theorem keeps_main (tool : Tool) : tool.main.Keeps (Own tool.pair) := by
  cases tool with
  | getcmos reg | getextcmos reg | amdpm2Get reg | amdpmioGet reg | ithwmGetio port
  | ithwm2Getio port =>
    exact keeps_withIo ((keeps_indexGet _).bind fun val => keeps_printf _)
  | amdpm2Set reg val | amdpmioSet reg val =>
    exact keeps_withIo ((keeps_indexSet _ _).bind fun _ => keeps_printf _)
  | ithwmSetio port val | ithwm2Setio port val =>
    exact keeps_withIo ((keeps_indexSet _ _).bind fun _ =>
      (keeps_indexGet _).bind fun val => keeps_printf _)
  | getcmosAll =>
    exact keeps_withIo ((Query.Keeps.request (.inr rfl)).bind fun _ => keeps_cmosLoop _)
  | getextcmosAll => exact keeps_withIo (keeps_extCmosLoop _)
  | amdIntrMap args => exact keeps_intrMap args

/-! ## Scripts -/

/-- A run on the machine. -/
theorem exec_run (tool : Tool) (m : Machine) :
    (tool.run.exec (Machine.step cell) m).1 = (tool.call cell (registers m)).1 ∧
      registers (tool.run.exec (Machine.step cell) m).2 = (tool.call cell (registers m)).2 ∧
      ∀ l ≠ tool.pair, (tool.run.exec (Machine.step cell) m).2 l = m l := by
  obtain ⟨index, hrun⟩ := run_main cell tool m
  obtain ⟨hvalue, hview, hframe⟩ := (chips cell).exec ((keeps_main tool).capture Req.stdout) m
  change Query.exec (Chip.step cell tool.pair) _ (m tool.pair) = _ at hrun
  refine ⟨hvalue.trans (congrArg Prod.fst hrun), funext fun l => ?_, hframe⟩
  by_cases hl : l = tool.pair
  · subst hl
    exact congrArg Chip.cells (hview.trans (congrArg Prod.snd hrun))
  · rw [call_frame tool _ hl]
    exact congrArg Chip.cells (hframe l hl)

/-- **Scripts of tool runs**: a script of runs, whatever it decides by their texts and statuses,
returns on the machine what it returns on the registers, and does the same to them. -/
theorem script_refines {α : Type} (cell : Pair → BitVec 8 → BitVec 8)
    (script : Query Tool (List String × Nat) α) (m : Machine) :
    ((script.subst Tool.run).exec (Machine.step cell) m).1 =
        (script.exec (Tool.call cell) (registers m)).1 ∧
      registers ((script.subst Tool.run).exec (Machine.step cell) m).2 =
        (script.exec (Tool.call cell) (registers m)).2 := by
  have hrefines : Refines (Machine.step cell) Tool.run (Tool.call cell)
      fun m regs => registers m = regs :=
    { result := by
        rintro tool m _ rfl
        exact (exec_run tool m).1
      state := by
        rintro tool m _ rfl
        exact (exec_run tool m).2.1 }
  exact hrefines.exec_subst script rfl

/-! ## Schedules -/

/-- **Tools of different pairs can run at the same time**: every one prints, returns and leaves in
its registers what it does alone, and the other pairs stay. -/
theorem schedule_isolates {ι : Type} [DecidableEq ι] {tools : ι → Tool}
    (hpair : Function.Injective fun i => (tools i).pair) {m m' : Machine}
    {out : ι → List String × Nat}
    (h : Schedule (Machine.step cell) (fun i => (tools i).run) m out m') :
    (∀ i, out i = ((tools i).call cell (registers m)).1 ∧ registers m' (tools i).pair =
        ((tools i).call cell (registers m)).2 (tools i).pair) ∧
      ∀ pair, (∀ i, (tools i).pair ≠ pair) → m' pair = m pair := by
  have hkeeps : ∀ i, (tools i).run.Keeps (Own (tools i).pair) :=
    fun i => (keeps_main (tools i)).capture Req.stdout
  refine ⟨fun i => ?_, fun pair hne => h.untouched (chips cell) hkeeps hne⟩
  obtain ⟨hvalue, hview⟩ := h.isolated (chips cell) hkeeps hpair i
  obtain ⟨index, hrun⟩ := run_main cell (tools i) m
  change Query.exec (Chip.step cell (tools i).pair) _ (m (tools i).pair) = _ at hrun
  exact ⟨hvalue.trans (congrArg Prod.fst hrun),
    congrArg Chip.cells (hview.trans (congrArg Prod.snd hrun))⟩

theorem own_addrPort (byte : BitVec 8) : Own pair (.outb pair.addrPort byte) :=
  .inl (port?_addrPort pair)

theorem own_dataPort (byte : BitVec 8) : Own pair (.outb pair.dataPort byte) :=
  .inl (port?_dataPort pair)

theorem step_outb_addrPort (byte : BitVec 8) (m : Machine) :
    (Machine.step cell (.outb pair.addrPort byte) m).2 =
      Function.update m pair { m pair with index := byte } := by
  rw [step_own (own_addrPort byte), Chip.step, if_pos rfl]

theorem step_outb_dataPort (byte : BitVec 8) (m : Machine) :
    (Machine.step cell (.outb pair.dataPort byte) m).2 =
      Function.update m pair { m pair with
        cells := Function.update (m pair).cells (cell pair (m pair).index) byte } := by
  rw [step_own (own_dataPort byte), Chip.step, if_neg (dataPort_ne_addrPort pair), if_pos rfl]

/-- A write and a read of other pairs. -/
def twoTools (second : Bool) : Tool :=
  if second then .amdpmioGet "0x20" else .amdpm2Set "0x10" "1"

theorem twoTools_schedule :
    ∃ m', Schedule (Machine.step fun _ index => index) (fun second => (twoTools second).run)
      (fun _ => { index := 0, cells := fun _ => 0 })
      (fun second => ([if second then pmText (uChar "0x20") 0 else
        pmText (uChar "0x10") (uChar "1")], 0)) m' := by
  refine ⟨_, .turn false rfl (.turn false rfl (.turn true rfl (.turn true rfl (.turn false rfl
    (.turn false rfl (.turn false rfl (.turn true rfl (.turn true rfl (.turn true rfl
      (.finish ?_))))))))))⟩
  intro second
  cases second with
  | false => rfl
  | true => rfl

/-- The write arrives, though the other program selects its register before it is done. -/
theorem schedule_isolates_two :
    ∃ m', registers m' .amdpm2 (uChar "0x10") = uChar "1" ∧
      Schedule (Machine.step fun _ index => index) (fun second => (twoTools second).run)
        (fun _ => { index := 0, cells := fun _ => 0 })
        (fun second => ([if second then pmText (uChar "0x20") 0 else
          pmText (uChar "0x10") (uChar "1")], 0)) m' := by
  obtain ⟨m', h⟩ := twoTools_schedule
  have hpair : Function.Injective fun second => (twoTools second).pair := by decide
  have hregs := ((schedule_isolates hpair h).1 false).2
  refine ⟨m', (congrFun hregs _).trans ?_, h⟩
  simp [twoTools, Tool.pair, Tool.call, shows, Registers.set]

/-- **Writes of one pair race**: there is a schedule where both report their write and the registers
are as though the first of them had not run. Each selects its register before either writes. -/
theorem race_loses_write (cell : Pair → BitVec 8 → BitVec 8) (pair : Pair)
    (reg val reg' val' : String) (m : Machine) :
    ∃ m', Schedule (Machine.step cell)
        (fun second : Bool => Query.capture Req.stdout
          (if second then pmSet pair reg' val' else pmSet pair reg val)) m
        (fun second => ([if second then pmText (uChar reg') (uChar val') else
          pmText (uChar reg) (uChar val)], 0)) m' ∧
      registers m' = (registers m).set cell pair (uChar reg') (uChar val') := by
  refine ⟨_, .turn false rfl (.turn false rfl (.turn true rfl (.turn true rfl (.turn false rfl
    (.turn false rfl (.turn false rfl (.turn true rfl (.turn true rfl (.turn true rfl
      (.finish ?_)))))))))), ?_⟩
  · intro second
    cases second with
    | false => rfl
    | true => rfl
  · show registers (Machine.step cell (.outb pair.dataPort (uChar val'))
      (Machine.step cell (.outb pair.dataPort (uChar val))
        (Machine.step cell (.outb pair.addrPort (uChar reg'))
          (Machine.step cell (.outb pair.addrPort (uChar reg)) m).2).2).2).2 = _
    funext l
    by_cases hl : l = pair
    · subst hl
      simp [step_outb_addrPort, step_outb_dataPort, registers, Registers.set]
    · simp [step_outb_addrPort, step_outb_dataPort, registers, Registers.set, hl]

end

end Port.Indexed
