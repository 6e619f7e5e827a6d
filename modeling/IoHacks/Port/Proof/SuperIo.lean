import IoHacks.Lib.Script
import IoHacks.Port.SuperIo
import Mathlib.Data.List.Induction
import Mathlib.Logic.Function.Basic

/-!
# Runs of the Super I/O tools

A chip (`Chip`) is in its configuration mode or not, and remembers the bytes that it has got on the
index port meanwhile: it enters the mode when the last ones are those of `cfg_entr`. A `Kind` says
which bytes leave the mode again, and where the registers are.

* `enter_configures`: after `cfg_entr` a chip is in the mode, whatever state it was in.
* `runs_refine`: so a script of runs does to the registers what `Tool.call` says, from any state of
  the chip. Neither the device that an earlier run selected nor a mode that was never left is of
  any influence.
* `superio2_relocates`: `superio2` moves two devices to other ports, and none of them is ever
  enabled at a port that is neither its old nor its new one.
-/

namespace Port.SuperIo

open Lib

/-! ## The chip -/

/-- The behaviour of a chip. The registers before CR 30 are the same for all devices. -/
structure Kind (κ : Type) where
  entry : Entry
  leaves : BitVec 8 → Bool
  cell : BitVec 8 → BitVec 8 → κ
  enters : entry.cfgEntr ≠ []
  stays : ∀ byte ∈ devSel :: entry.cfgEntr, leaves byte = false
  global : ∀ reg < devEn, ∀ ldn ldn', cell ldn reg = cell ldn' reg

/-- `recent` are the bytes on the index port outside the mode, with the last one first. -/
structure Chip (κ : Type) where
  configured : Bool
  recent : List (BitVec 8)
  index : BitVec 8
  ldn : BitVec 8
  cells : κ → BitVec 8

section
variable {κ : Type} [DecidableEq κ] (kind : Kind κ)

/-- A byte on the index port. -/
def Chip.select (byte : BitVec 8) (chip : Chip κ) : Chip κ :=
  if chip.configured then
    if kind.leaves byte then { chip with configured := false, recent := [] }
    else { chip with index := byte }
  else
    { chip with
      configured := kind.entry.cfgEntr.reverse.isPrefixOf (byte :: chip.recent)
      recent := byte :: chip.recent }

/-- The byte at the data port; there is none outside the mode. -/
def Chip.peek (chip : Chip κ) : BitVec 8 :=
  if chip.configured then
    if chip.index = devSel then chip.ldn else chip.cells (kind.cell chip.ldn chip.index)
  else 0xff

def Chip.poke (byte : BitVec 8) (chip : Chip κ) : Chip κ :=
  if chip.configured then
    if chip.index = devSel then { chip with ldn := byte }
    else
      { chip with cells := Function.update chip.cells (kind.cell chip.ldn chip.index) byte }
  else chip

def Chip.step : Req → Chip κ → Reply × Chip κ
  | .outb port byte, chip =>
    if port = kind.entry.superPort then (ready (.outb port byte), chip.select kind byte)
    else if port = kind.entry.superPort + 1 then (ready (.outb port byte), chip.poke kind byte)
    else (ready (.outb port byte), chip)
  | .inb port, chip =>
    if port = kind.entry.superPort + 1 then
      ({ ready (.inb port) with byte := chip.peek kind }, chip)
    else (ready (.inb port), chip)
  | req, chip => (ready req, chip)

end

/-! ## What the tools are for -/

/-- A run of one of the programs. -/
inductive Tool where
  | iteSioGetreg (dev reg : String)
  | nvtSioGetreg (dev reg : String)
  | iteSioSetreg (dev reg val : String)
  | nvtSioSetreg (dev reg val : String)
  | iteSio
  | superio
  | superio2

def Tool.main : Tool → Io Nat
  | .iteSioGetreg dev reg => SuperIo.iteSioGetreg dev reg
  | .nvtSioGetreg dev reg => SuperIo.nvtSioGetreg dev reg
  | .iteSioSetreg dev reg val => SuperIo.iteSioSetreg dev reg val
  | .nvtSioSetreg dev reg val => SuperIo.nvtSioSetreg dev reg val
  | .iteSio => SuperIo.iteSio
  | .superio => SuperIo.superio
  | .superio2 => SuperIo.superio2

/-- A run with the texts that it prints. -/
def Tool.run (tool : Tool) : Io (List String × Nat) := Query.capture Req.stdout tool.main

/-- The chip that a program is for. -/
def Tool.entry : Tool → Entry
  | .iteSioGetreg _ _ | .iteSioSetreg _ _ _ | .iteSio => ite
  | .nvtSioGetreg _ _ | .nvtSioSetreg _ _ _ => nvt
  | .superio | .superio2 => sio3f0

def Tool.cfgExit : Tool → List (BitVec 8)
  | .iteSioGetreg _ _ | .iteSioSetreg _ _ _ | .iteSio => [0x02, 0x02]
  | .nvtSioGetreg _ _ => [0xaa, 0xaa]
  | .nvtSioSetreg _ _ _ | .superio | .superio2 => [0xaa]

/-- The registers that a run names. -/
def Tool.regs : Tool → List (BitVec 8)
  | .iteSioGetreg _ reg | .nvtSioGetreg _ reg => [uChar reg]
  | .iteSioSetreg _ reg _ | .nvtSioSetreg _ reg _ => [uChar reg]
  | .iteSio => [0xef]
  | .superio => [0x2c, 0xe4, 0xe3, 0xe7, 0xf2, 0xf3, 0xf4]
  | .superio2 => [devEn, 0x60, 0x61]

section
variable {κ : Type} [DecidableEq κ] (kind : Kind κ)

/-- A run at a chip that it is for, with registers that do not leave the mode. -/
structure Tool.Fits (tool : Tool) : Prop where
  entry : tool.entry = kind.entry
  regs : ∀ reg ∈ tool.regs, kind.leaves reg = false

/-- The byte of a register; CR 7 is the device itself. -/
def Kind.get (dev reg : BitVec 8) (cells : κ → BitVec 8) : BitVec 8 :=
  if reg = devSel then dev else cells (kind.cell dev reg)

def Kind.set (dev reg val : BitVec 8) (cells : κ → BitVec 8) : κ → BitVec 8 :=
  if reg = devSel then cells else Function.update cells (kind.cell dev reg) val

/-- Some writes one after the other. -/
def Kind.setAll (writes : List (BitVec 8 × BitVec 8 × BitVec 8)) (cells : κ → BitVec 8) :
    κ → BitVec 8 :=
  writes.foldl (fun cells w => kind.set w.1 w.2.1 w.2.2 cells) cells

/-- What a run of a program prints and returns, and what it does to the registers. -/
def Tool.call (tool : Tool) (cells : κ → BitVec 8) : (List String × Nat) × (κ → BitVec 8) :=
  let get (dev reg : String) :=
    (([regText (uChar dev) (uChar reg) (kind.get (uChar dev) (uChar reg) cells)], 0), cells)
  let set (dev reg val : String) :=
    (([ "Was: " ++ regText (uChar dev) (uChar reg) (kind.get (uChar dev) (uChar reg) cells),
        "Now: " ++ regText (uChar dev) (uChar reg) (uChar val)], 0),
      kind.set (uChar dev) (uChar reg) (uChar val) cells)
  match tool with
  | .iteSioGetreg dev reg | .nvtSioGetreg dev reg => get dev reg
  | .iteSioSetreg dev reg val | .nvtSioSetreg dev reg val => set dev reg val
  | .iteSio =>
    let val := kind.get 7 0xef cells &&& ~~~1
    ((["LDN7[EF] = " ++ hex04 val.toNat ++ "\n"], 0), kind.set 7 0xef val cells)
  | .superio =>
    (([], 0), kind.setAll [(0, 0x2c, 0x01), (7, 0xe4, 0x02), (7, 0xe3, 0x01), (7, 0xe7, 0x01),
      (8, 0xf2, 0x00), (8, 0xf3, 0xf9), (8, 0xf4, 0xc0)] cells)
  | .superio2 =>
    (([], 0), kind.setAll [(7, devEn, 0), (7, 0x60, 0x2), (7, 0x61, 0x50), (7, devEn, 1),
      (8, devEn, 0), (8, 0x60, 0x2), (8, 0x61, 0x54), (8, devEn, 1)] cells)

end

/-! ## The mode -/

section
variable {κ : Type} {kind : Kind κ}

/-- Bytes on the index port. -/
def Chip.selectAll (kind : Kind κ) (bytes : List (BitVec 8)) (chip : Chip κ) : Chip κ :=
  bytes.foldl (fun chip byte => chip.select kind byte) chip

theorem selectAll_concat (bytes : List (BitVec 8)) (byte : BitVec 8) (chip : Chip κ) :
    chip.selectAll kind (bytes ++ [byte]) = (chip.selectAll kind bytes).select kind byte := by
  simp [Chip.selectAll]

theorem select_cells (byte : BitVec 8) (chip : Chip κ) :
    (chip.select kind byte).cells = chip.cells := by
  unfold Chip.select
  split
  · split <;> rfl
  · rfl

theorem selectAll_cells (bytes : List (BitVec 8)) (chip : Chip κ) :
    (chip.selectAll kind bytes).cells = chip.cells := by
  induction bytes generalizing chip with
  | nil => rfl
  | cons byte bytes ih => exact (ih _).trans (select_cells byte chip)

/-- A byte that does not leave the mode. -/
theorem select_stays {byte : BitVec 8} (h : kind.leaves byte = false) {chip : Chip κ}
    (hconf : chip.configured = true) : chip.select kind byte = { chip with index := byte } := by
  rw [Chip.select, if_pos hconf, h]
  rfl

/-- After bytes that do not leave the mode, the chip is in it or remembers all of them. -/
theorem selectAll_stays {bytes : List (BitVec 8)}
    (h : ∀ byte ∈ bytes, kind.leaves byte = false) (chip : Chip κ) :
    (chip.selectAll kind bytes).configured = true ∨
      (chip.selectAll kind bytes).recent = bytes.reverse ++ chip.recent := by
  induction bytes using List.reverseRecOn with
  | nil => exact .inr rfl
  | append_singleton bytes byte ih =>
    rw [selectAll_concat]
    rcases ih fun b hb => h b (List.mem_append_left _ hb) with hconf | hrecent
    · rw [select_stays (h byte (by simp)) hconf]
      exact .inl hconf
    · by_cases hconf : (chip.selectAll kind bytes).configured = true
      · rw [select_stays (h byte (by simp)) hconf]
        exact .inl hconf
      · rw [Chip.select, if_neg hconf]
        refine .inr ?_
        simp [hrecent]

theorem cfgEntr_eq (kind : Kind κ) : ∃ bytes byte, kind.entry.cfgEntr = bytes ++ [byte] ∧
    (∀ b ∈ bytes, kind.leaves b = false) ∧ kind.leaves byte = false := by
  rcases List.eq_nil_or_concat kind.entry.cfgEntr with hnil | ⟨bytes, byte, hsplit⟩
  · exact absurd hnil kind.enters
  · rw [List.concat_eq_append] at hsplit
    exact ⟨bytes, byte, hsplit, fun b hb => kind.stays b (by simp [hsplit, hb]),
      kind.stays byte (by simp [hsplit])⟩

/-- **`cfg_entr`**: the chip is in the mode, whatever state it was in. -/
theorem enter_configures (chip : Chip κ) :
    (chip.selectAll kind kind.entry.cfgEntr).configured = true := by
  obtain ⟨bytes, byte, hsplit, hbytes, hbyte⟩ := cfgEntr_eq kind
  rw [hsplit, selectAll_concat]
  by_cases hconf : (chip.selectAll kind bytes).configured = true
  · rw [select_stays hbyte hconf]
    exact hconf
  · have hrecent := (selectAll_stays hbytes chip).resolve_left hconf
    rw [Chip.select, if_neg hconf]
    simp [hrecent, hsplit]

/-- A byte that leaves the mode is not the last one of those that enter it. -/
theorem select_leaves {byte : BitVec 8} (h : kind.leaves byte = true) (chip : Chip κ) :
    (chip.select kind byte).configured = false := by
  by_cases hconf : chip.configured = true
  · rw [Chip.select, if_pos hconf, if_pos h]
  · obtain ⟨bytes, last, hsplit, -, hlast⟩ := cfgEntr_eq kind
    have hne : last ≠ byte := by
      rintro rfl
      rw [h] at hlast
      cases hlast
    rw [Chip.select, if_neg hconf]
    simp [hsplit, List.isPrefixOf, hne]

end

/-! ## The steps of a run -/

section
variable {κ : Type} [DecidableEq κ] {kind : Kind κ}

theorem run_outb_select (byte : BitVec 8) (chip : Chip κ) :
    Query.run (Chip.step kind) Req.stdout (outb kind.entry.superPort byte) chip =
      (([], ()), chip.select kind byte) := by
  simp [outb, Chip.step, Req.stdout]

theorem run_outb_poke (byte : BitVec 8) (chip : Chip κ) :
    Query.run (Chip.step kind) Req.stdout (outb (kind.entry.superPort + 1) byte) chip =
      (([], ()), chip.poke kind byte) := by
  simp [outb, Chip.step, Req.stdout]

theorem run_inb_peek (chip : Chip κ) :
    Query.run (Chip.step kind) Req.stdout (inb (kind.entry.superPort + 1)) chip =
      (([], chip.peek kind), chip) := by
  simp [inb, Chip.step, Req.stdout]

theorem run_printf (text : String) (chip : Chip κ) :
    Query.run (Chip.step kind) Req.stdout (printf text) chip = (([text], ()), chip) := by
  simp [printf, Chip.step, Req.stdout]

theorem run_cfgBytes (bytes : List (BitVec 8)) (chip : Chip κ) :
    Query.run (Chip.step kind) Req.stdout (cfgBytes kind.entry bytes) chip =
      (([], ()), chip.selectAll kind bytes) := by
  induction bytes generalizing chip with
  | nil => rfl
  | cons byte bytes ih =>
    rw [cfgBytes, Query.run_bind, run_outb_select, ih]
    rfl

/-- The chip is in the mode, with a device. -/
structure On (ldn : BitVec 8) (cells : κ → BitVec 8) (chip : Chip κ) : Prop where
  configured : chip.configured = true
  ldn : chip.ldn = ldn
  cells : chip.cells = cells

/-- In the mode, the program prints and returns this, and leaves the chip there. -/
def Does (kind : Kind κ) {α : Type} (ldn : BitVec 8) (cells : κ → BitVec 8) (p : Io α)
    (out : List String × α) (ldn' : BitVec 8) (cells' : κ → BitVec 8) : Prop :=
  ∀ chip, On ldn cells chip →
    ∃ chip', On ldn' cells' chip' ∧ Query.run (Chip.step kind) Req.stdout p chip = (out, chip')

section
variable {α β : Type} {ldn ldn' ldn'' dev reg val : BitVec 8} {cells cells' cells'' : κ → BitVec 8}

theorem Does.bind {p : Io α} {f : α → Io β} {texts texts' : List String} {a : α} {b : β}
    (hp : Does kind ldn cells p (texts, a) ldn' cells')
    (hf : Does kind ldn' cells' (f a) (texts', b) ldn'' cells'') :
    Does kind ldn cells (p >>= f) (texts ++ texts', b) ldn'' cells'' := by
  intro chip h
  obtain ⟨chip', h', hrun⟩ := hp chip h
  obtain ⟨chip'', h'', hrun'⟩ := hf chip' h'
  refine ⟨chip'', h'', ?_⟩
  rw [Query.run_bind, hrun, hrun']

theorem does_printf (text : String) :
    Does kind ldn cells (printf text) ([text], ()) ldn cells :=
  fun chip h => ⟨chip, h, run_printf text chip⟩

theorem does_getreg (ldn : BitVec 8) (cells : κ → BitVec 8) (hreg : kind.leaves reg = false) :
    Does kind ldn cells (getreg kind.entry reg) ([], kind.get ldn reg cells) ldn cells := by
  intro chip h
  refine ⟨{ chip with index := reg }, ⟨h.configured, h.ldn, h.cells⟩, ?_⟩
  simp [getreg, run_outb_select, run_inb_peek, select_stays hreg h.configured, Chip.peek,
    h.configured, h.ldn, h.cells, Kind.get]

/-- A write; CR 7 gets another device. -/
theorem does_setreg (ldn val : BitVec 8) (cells : κ → BitVec 8) (hreg : kind.leaves reg = false) :
    Does kind ldn cells (setreg kind.entry reg val) ([], ())
      (if reg = devSel then val else ldn) (kind.set ldn reg val cells) := by
  intro chip h
  refine ⟨({ chip with index := reg } : Chip κ).poke kind val, ?_, ?_⟩
  · by_cases hsel : reg = devSel
    · simp only [Chip.poke, h.configured, hsel, if_true, Kind.set]
      exact ⟨rfl, rfl, h.cells⟩
    · simp only [Chip.poke, h.configured, hsel, if_true, if_false, Kind.set]
      exact ⟨rfl, h.ldn, by rw [h.ldn, h.cells]⟩
  · simp [setreg, run_outb_select, run_outb_poke, select_stays hreg h.configured]

theorem does_write (hsel : reg ≠ devSel) (hreg : kind.leaves reg = false) :
    Does kind ldn cells (setreg kind.entry reg val) ([], ()) ldn (kind.set ldn reg val cells) := by
  have hdoes := does_setreg ldn val cells hreg
  rwa [if_neg hsel] at hdoes

theorem does_devsel : Does kind ldn cells (devsel kind.entry dev) ([], ()) dev cells :=
  does_setreg _ _ _ (kind.stays devSel List.mem_cons_self)

end

/-- The bytes end with one that leaves the mode. -/
def Kind.Closed (kind : Kind κ) (cfgExit : List (BitVec 8)) : Prop :=
  ∃ bytes byte, cfgExit = bytes ++ [byte] ∧ kind.leaves byte = true

/-- **A whole program**, from any state of the chip. -/
theorem run_configure {body : Io Unit} {texts : List String} {cells' : κ → BitVec 8}
    (chip : Chip κ) (hbody : ∀ ldn, ∃ ldn', Does kind ldn chip.cells body (texts, ()) ldn' cells')
    (cfgExit : List (BitVec 8)) :
    ∃ chip', chip'.cells = cells' ∧ (kind.Closed cfgExit → chip'.configured = false) ∧
      Query.run (Chip.step kind) Req.stdout (configure kind.entry cfgExit body) chip =
        ((texts, 0), chip') := by
  obtain ⟨ldn', hdoes⟩ := hbody (chip.selectAll kind kind.entry.cfgEntr).ldn
  obtain ⟨chip', hon, hrun⟩ := hdoes (chip.selectAll kind kind.entry.cfgEntr)
    ⟨enter_configures chip, rfl, selectAll_cells _ chip⟩
  refine ⟨chip'.selectAll kind cfgExit, (selectAll_cells _ _).trans hon.cells, ?_, ?_⟩
  · rintro ⟨bytes, byte, rfl, hleaves⟩
    rw [selectAll_concat]
    exact select_leaves hleaves _
  · simp [configure, withIo, run_cfgBytes, hrun, Chip.step, ready, Req.stdout]

/-! ## The programs -/

section
variable (dev reg val : String) (chip : Chip κ) (cfgExit : List (BitVec 8))

theorem run_sioGetreg (hreg : kind.leaves (uChar reg) = false) :
    ∃ chip', chip'.cells = chip.cells ∧ (kind.Closed cfgExit → chip'.configured = false) ∧
      Query.run (Chip.step kind) Req.stdout (sioGetreg kind.entry cfgExit dev reg) chip =
        (([regText (uChar dev) (uChar reg) (kind.get (uChar dev) (uChar reg) chip.cells)], 0),
          chip') :=
  run_configure chip
    (fun _ => ⟨_, does_devsel.bind ((does_getreg _ _ hreg).bind (does_printf _))⟩) _

/-- What a write has written is read back. -/
theorem get_set (dev reg val : BitVec 8) (cells : κ → BitVec 8) :
    kind.get (if reg = devSel then val else dev) reg (kind.set dev reg val cells) = val := by
  by_cases hsel : reg = devSel
  · simp [Kind.get, hsel]
  · simp [Kind.get, Kind.set, hsel]

theorem get_set_of_ne {reg : BitVec 8} (hsel : reg ≠ devSel) (dev val : BitVec 8)
    (cells : κ → BitVec 8) : kind.get dev reg (kind.set dev reg val cells) = val := by
  simp [Kind.get, Kind.set, hsel]

theorem run_sioSetreg (hreg : kind.leaves (uChar reg) = false) :
    ∃ chip', chip'.cells = kind.set (uChar dev) (uChar reg) (uChar val) chip.cells ∧
      (kind.Closed cfgExit → chip'.configured = false) ∧
      Query.run (Chip.step kind) Req.stdout (sioSetreg kind.entry cfgExit dev reg val) chip =
        (([ "Was: " ++ regText (uChar dev) (uChar reg)
              (kind.get (uChar dev) (uChar reg) chip.cells),
            "Now: " ++ regText (uChar dev) (uChar reg) (uChar val)], 0), chip') := by
  have hread := does_getreg (if uChar reg = devSel then uChar val else uChar dev)
    (kind.set (uChar dev) (uChar reg) (uChar val) chip.cells) hreg
  rw [get_set] at hread
  exact run_configure chip (fun _ => ⟨_, does_devsel.bind ((does_getreg _ _ hreg).bind
    ((does_printf _).bind ((does_setreg _ _ _ hreg).bind (hread.bind (does_printf _)))))⟩) cfgExit

theorem run_iteSio (hentry : ite = kind.entry) (hreg : kind.leaves 0xef = false) :
    ∃ chip', chip'.cells = (Tool.iteSio.call kind chip.cells).2 ∧
      (kind.Closed [0x02, 0x02] → chip'.configured = false) ∧
      Query.run (Chip.step kind) Req.stdout iteSio chip =
        ((Tool.iteSio.call kind chip.cells).1, chip') := by
  unfold iteSio
  rw [hentry]
  have hread := does_getreg 7
    (kind.set 7 0xef (kind.get 7 0xef chip.cells &&& ~~~1) chip.cells) hreg
  rw [get_set_of_ne (by decide)] at hread
  exact run_configure chip (fun _ => ⟨_, does_devsel.bind ((does_getreg _ _ hreg).bind
    ((does_write (by decide) hreg).bind (hread.bind (does_printf _))))⟩) _

/-- A write of a register that the run names. -/
theorem does_named {tool : Tool} (hregs : ∀ reg ∈ tool.regs, kind.leaves reg = false)
    (hsel : devSel ∉ tool.regs) {reg val ldn : BitVec 8} {cells : κ → BitVec 8}
    (hreg : reg ∈ tool.regs) :
    Does kind ldn cells (setreg kind.entry reg val) ([], ()) ldn (kind.set ldn reg val cells) :=
  does_write (fun h => hsel (h ▸ hreg)) (hregs reg hreg)

theorem run_superio (hentry : sio3f0 = kind.entry)
    (hregs : ∀ reg ∈ Tool.superio.regs, kind.leaves reg = false) :
    ∃ chip', chip'.cells = (Tool.superio.call kind chip.cells).2 ∧
      (kind.Closed [0xaa] → chip'.configured = false) ∧
      Query.run (Chip.step kind) Req.stdout superio chip =
        ((Tool.superio.call kind chip.cells).1, chip') := by
  have hglobal : ∀ ldn, kind.set ldn 0x2c 0x01 chip.cells = kind.set 0 0x2c 0x01 chip.cells :=
    fun ldn => by rw [Kind.set, Kind.set, kind.global 0x2c (by decide) ldn 0]
  have hwrite : ∀ {ldn cells reg val}, reg ∈ Tool.superio.regs →
      Does kind ldn cells (setreg kind.entry reg val) ([], ()) ldn (kind.set ldn reg val cells) :=
    fun hreg => does_named hregs (by decide) hreg
  unfold superio
  rw [hentry]
  refine run_configure chip (fun ldn => ⟨8, ?_⟩) _
  have hfirst : Does kind ldn chip.cells (setreg kind.entry 0x2c 0x01) ([], ()) ldn
      (kind.set 0 0x2c 0x01 chip.cells) := by
    rw [← hglobal ldn]
    exact hwrite (by decide)
  exact hfirst.bind (does_devsel.bind ((hwrite (by decide)).bind ((hwrite (by decide)).bind
    ((hwrite (by decide)).bind (does_devsel.bind ((hwrite (by decide)).bind
      ((hwrite (by decide)).bind (hwrite (by decide)))))))))

theorem run_superio2 (hentry : sio3f0 = kind.entry)
    (hregs : ∀ reg ∈ Tool.superio2.regs, kind.leaves reg = false) :
    ∃ chip', chip'.cells = (Tool.superio2.call kind chip.cells).2 ∧
      (kind.Closed [0xaa] → chip'.configured = false) ∧
      Query.run (Chip.step kind) Req.stdout superio2 chip =
        ((Tool.superio2.call kind chip.cells).1, chip') := by
  unfold superio2
  rw [hentry]
  refine run_configure chip (fun ldn => ⟨8, ?_⟩) _
  have hwrite : ∀ {ldn cells reg val}, reg ∈ Tool.superio2.regs →
      Does kind ldn cells (setreg kind.entry reg val) ([], ()) ldn (kind.set ldn reg val cells) :=
    fun hreg => does_named hregs (by decide) hreg
  exact does_devsel.bind ((hwrite (by decide)).bind ((hwrite (by decide)).bind
    ((hwrite (by decide)).bind ((hwrite (by decide)).bind (does_devsel.bind
      ((hwrite (by decide)).bind ((hwrite (by decide)).bind ((hwrite (by decide)).bind
        (hwrite (by decide))))))))))

/-- **A run**, from any state of the chip. -/
theorem run_main {tool : Tool} (h : tool.Fits kind) :
    ∃ chip', chip'.cells = (tool.call kind chip.cells).2 ∧
      (kind.Closed tool.cfgExit → chip'.configured = false) ∧
      Query.run (Chip.step kind) Req.stdout tool.main chip =
        ((tool.call kind chip.cells).1, chip') := by
  obtain ⟨hentry, hregs⟩ := h
  cases tool with
  | iteSioGetreg dev reg =>
    show ∃ chip', _ ∧ _ ∧ Query.run _ _ (sioGetreg ite _ dev reg) chip = _
    rw [show ite = kind.entry from hentry]
    exact run_sioGetreg dev reg chip _ (hregs _ List.mem_cons_self)
  | nvtSioGetreg dev reg =>
    show ∃ chip', _ ∧ _ ∧ Query.run _ _ (sioGetreg nvt _ dev reg) chip = _
    rw [show nvt = kind.entry from hentry]
    exact run_sioGetreg dev reg chip _ (hregs _ List.mem_cons_self)
  | iteSioSetreg dev reg val =>
    show ∃ chip', _ ∧ _ ∧ Query.run _ _ (sioSetreg ite _ dev reg val) chip = _
    rw [show ite = kind.entry from hentry]
    exact run_sioSetreg dev reg val chip _ (hregs _ List.mem_cons_self)
  | nvtSioSetreg dev reg val =>
    show ∃ chip', _ ∧ _ ∧ Query.run _ _ (sioSetreg nvt _ dev reg val) chip = _
    rw [show nvt = kind.entry from hentry]
    exact run_sioSetreg dev reg val chip _ (hregs _ List.mem_cons_self)
  | iteSio => exact run_iteSio chip hentry (hregs _ List.mem_cons_self)
  | superio => exact run_superio chip hentry hregs
  | superio2 => exact run_superio2 chip hentry hregs

end

/-- **Scripts of runs**: from any state of the chip, a script of runs returns what it returns on
the registers, whatever it decides by the texts in between, and does the same to them. It leaves the
mode, where the programs' `cfg_exit` does. -/
theorem runs_refine {α : Type} (kind : Kind κ)
    (script : Query { tool : Tool // tool.Fits kind } (List String × Nat) α) (chip : Chip κ) :
    ((script.subst fun tool => tool.1.run).exec (Chip.step kind) chip).1 =
        (script.exec (fun tool => tool.1.call kind) chip.cells).1 ∧
      ((script.subst fun tool => tool.1.run).exec (Chip.step kind) chip).2.cells =
        (script.exec (fun tool => tool.1.call kind) chip.cells).2 ∧
      ((∀ tool : Tool, tool.Fits kind → kind.Closed tool.cfgExit) → chip.configured = false →
        ((script.subst fun tool => tool.1.run).exec (Chip.step kind) chip).2.configured =
          false) := by
  have hrefines : Refines (Chip.step kind)
      (fun tool : { tool : Tool // tool.Fits kind } => tool.1.run)
      (fun tool => tool.1.call kind) fun chip' cells => chip'.cells = cells ∧
        ((∀ tool : Tool, tool.Fits kind → kind.Closed tool.cfgExit) → chip.configured = false →
          chip'.configured = false) :=
    { result := by
        rintro ⟨tool, hfits⟩ chip _ ⟨rfl, -⟩
        obtain ⟨chip', -, -, hrun⟩ := run_main chip hfits
        exact congrArg Prod.fst hrun
      state := by
        rintro ⟨tool, hfits⟩ chip _ ⟨rfl, -⟩
        obtain ⟨chip', hcells, hleft, hrun⟩ := run_main chip hfits
        exact ⟨(congrArg (·.2.cells) hrun).trans hcells, fun hclosed _ =>
          (congrArg (·.2.configured) hrun).trans (hleft (hclosed tool hfits))⟩ }
  exact hrefines.exec_subst script ⟨rfl, fun _ => id⟩

/-! ## `superio2` -/

/-- The port of a device, and whether it is enabled. -/
def Kind.base (kind : Kind κ) (dev : BitVec 8) (cells : κ → BitVec 8) : BitVec 8 × BitVec 8 :=
  (cells (kind.cell dev 0x60), cells (kind.cell dev 0x61))

def Kind.enabled (kind : Kind κ) (dev : BitVec 8) (cells : κ → BitVec 8) : Bool :=
  (cells (kind.cell dev devEn)).getLsbD 0

/-- The registers of the devices are different cells. -/
def Kind.Separate (kind : Kind κ) : Prop :=
  ∀ dev dev' reg reg', devEn ≤ reg → devEn ≤ reg' → kind.cell dev reg = kind.cell dev' reg' →
    dev = dev' ∧ reg = reg'

/-- The ports that `superio2` gives to the devices. -/
def newBase (dev : BitVec 8) : Option (BitVec 8 × BitVec 8) :=
  if dev = 7 then some (0x2, 0x50) else if dev = 8 then some (0x2, 0x54) else none

/-- A device that is enabled is at its old port or at its new one. -/
def Settled (kind : Kind κ) (old cells : κ → BitVec 8) : Prop :=
  ∀ dev, kind.enabled dev cells = true →
    kind.base dev cells = kind.base dev old ∨ some (kind.base dev cells) = newBase dev

theorem set_cell (hsep : kind.Separate) {dev reg dev' reg' val : BitVec 8} (hreg : devEn ≤ reg)
    (hreg' : devEn ≤ reg') (cells : κ → BitVec 8) :
    kind.set dev reg val cells (kind.cell dev' reg') =
      if dev' = dev ∧ reg' = reg then val else cells (kind.cell dev' reg') := by
  have hsel : reg ≠ devSel := by
    rintro rfl
    revert hreg
    decide
  rw [Kind.set, if_neg hsel]
  split
  · rename_i heq
    rw [heq.1, heq.2, Function.update_self]
  · rename_i hne
    exact Function.update_of_ne (fun h => hne (hsep _ _ _ _ hreg' hreg h)) ..

/-- From the mode, the cells satisfy `I` throughout, and these ones are there at the end. -/
def Guards (kind : Kind κ) (I : (κ → BitVec 8) → Prop) (ldn : BitVec 8) (cells : κ → BitVec 8)
    (p : Io Unit) (ldn' : BitVec 8) (cells' : κ → BitVec 8) : Prop :=
  ∀ chip, On ldn cells chip →
    Query.Always (Chip.step kind) (fun chip => I chip.cells) p chip ∧
      On ldn' cells' (p.exec (Chip.step kind) chip).2

section
variable {I : (κ → BitVec 8) → Prop} {ldn ldn' ldn'' dev reg val : BitVec 8}
  {cells cells' cells'' : κ → BitVec 8}

theorem Guards.bind {p q : Io Unit} (hp : Guards kind I ldn cells p ldn' cells')
    (hq : Guards kind I ldn' cells' q ldn'' cells'') :
    Guards kind I ldn cells (do p; q) ldn'' cells'' := by
  intro chip h
  obtain ⟨hfirst, hmid⟩ := hp chip h
  obtain ⟨hsecond, hend⟩ := hq _ hmid
  refine ⟨Query.always_bind.2 ⟨hfirst, hsecond⟩, ?_⟩
  rw [Query.exec_bind]
  exact hend

/-- A program that leaves the chip in the mode, with its states in between. -/
theorem Does.guards {p : Io Unit} {texts : List String}
    (hp : Does kind ldn cells p (texts, ()) ldn' cells')
    (h : ∀ chip, On ldn cells chip →
      Query.Always (Chip.step kind) (fun chip => I chip.cells) p chip) :
    Guards kind I ldn cells p ldn' cells' := by
  intro chip hon
  obtain ⟨chip', hon', hrun⟩ := hp chip hon
  refine ⟨h chip hon, ?_⟩
  rw [← (Query.run_exec (Chip.step kind) Req.stdout p chip).2, hrun]
  exact hon'

theorem step_select (byte : BitVec 8) (chip : Chip κ) :
    (Chip.step kind (.outb kind.entry.superPort byte) chip).2 = chip.select kind byte := by
  simp [Chip.step]

theorem always_cfgBytes {bytes : List (BitVec 8)} {chip : Chip κ} (h : I chip.cells) :
    Query.Always (Chip.step kind) (fun chip => I chip.cells) (cfgBytes kind.entry bytes) chip := by
  induction bytes generalizing chip with
  | nil => exact h
  | cons byte bytes ih =>
    have hnext : I (chip.select kind byte).cells := by rwa [select_cells]
    refine Query.always_bind.2 ⟨⟨h, ?_⟩, ?_⟩
    · show I (Chip.step kind (.outb kind.entry.superPort byte) chip).2.cells
      rwa [step_select]
    · show Query.Always _ _ _ (Chip.step kind (.outb kind.entry.superPort byte) chip).2
      rw [step_select]
      exact ih hnext

theorem guards_setreg (hreg : kind.leaves reg = false) (h : I cells)
    (h' : I (kind.set ldn reg val cells)) :
    Guards kind I ldn cells (setreg kind.entry reg val)
      (if reg = devSel then val else ldn) (kind.set ldn reg val cells) := by
  refine (does_setreg _ _ _ hreg).guards fun chip hon => ?_
  obtain ⟨chip', hon', hrun⟩ := does_setreg ldn val cells hreg chip hon
  have hlast : (Chip.step kind (.outb (kind.entry.superPort + 1) val)
      (Chip.step kind (.outb kind.entry.superPort reg) chip).2).2 = chip' :=
    congrArg Prod.snd hrun
  show I chip.cells ∧ I (Chip.step kind (.outb kind.entry.superPort reg) chip).2.cells ∧
    I (Chip.step kind (.outb (kind.entry.superPort + 1) val)
      (Chip.step kind (.outb kind.entry.superPort reg) chip).2).2.cells
  rw [hlast, step_select, select_cells, hon.cells, hon'.cells]
  exact ⟨h, h, h'⟩

theorem guards_devsel (h : I cells) :
    Guards kind I ldn cells (devsel kind.entry dev) dev cells :=
  guards_setreg (kind.stays devSel List.mem_cons_self) h h

end

theorem exec_cfgBytes (bytes : List (BitVec 8)) (chip : Chip κ) :
    ((cfgBytes kind.entry bytes).exec (Chip.step kind) chip).2 = chip.selectAll kind bytes := by
  rw [← (Query.run_exec (Chip.step kind) Req.stdout _ chip).2, run_cfgBytes]

/-- A whole program. -/
theorem always_configure {I : (κ → BitVec 8) → Prop} {body : Io Unit} {cells' : κ → BitVec 8}
    (chip : Chip κ) (h : I chip.cells) (h' : I cells')
    (hbody : ∀ ldn, ∃ ldn', Guards kind I ldn chip.cells body ldn' cells')
    (cfgExit : List (BitVec 8)) :
    Query.Always (Chip.step kind) (fun chip => I chip.cells)
      (configure kind.entry cfgExit body) chip := by
  obtain ⟨ldn', hguards⟩ := hbody (chip.selectAll kind kind.entry.cfgEntr).ldn
  obtain ⟨hinside, hon⟩ := hguards (chip.selectAll kind kind.entry.cfgEntr)
    ⟨enter_configures chip, rfl, selectAll_cells _ chip⟩
  have haccess : Query.Always (Chip.step kind) (fun chip => I chip.cells) (do
      cfgBytes kind.entry kind.entry.cfgEntr
      body
      cfgBytes kind.entry cfgExit) chip := by
    refine Query.always_bind.2 ⟨always_cfgBytes h, ?_⟩
    rw [exec_cfgBytes]
    refine Query.always_bind.2 ⟨hinside, always_cfgBytes ?_⟩
    rwa [hon.cells]
  have hend : I ((do
      cfgBytes kind.entry kind.entry.cfgEntr
      body
      cfgBytes kind.entry cfgExit : Io Unit).exec (Chip.step kind) chip).2.cells := by
    rw [Query.exec_bind, Query.exec_bind, exec_cfgBytes, exec_cfgBytes, selectAll_cells, hon.cells]
    exact h'
  refine Query.always_bind.2 ⟨⟨h, h⟩, ?_⟩
  exact Query.always_bind.2 ⟨haccess, ⟨hend, hend⟩⟩

section
variable (hsep : kind.Separate) {dev reg val low : BitVec 8} {old cells : κ → BitVec 8}
include hsep

theorem enabled_set (hreg : devEn ≤ reg) (dev' : BitVec 8) :
    kind.enabled dev' (kind.set dev reg val cells) =
      if dev' = dev ∧ devEn = reg then val.getLsbD 0 else kind.enabled dev' cells := by
  rw [Kind.enabled, set_cell hsep hreg (by decide), Kind.enabled]
  split <;> rfl

theorem base_set (hreg : devEn ≤ reg) (dev' : BitVec 8) :
    kind.base dev' (kind.set dev reg val cells) =
      (if dev' = dev ∧ 0x60 = reg then val else (kind.base dev' cells).1,
        if dev' = dev ∧ 0x61 = reg then val else (kind.base dev' cells).2) := by
  rw [Kind.base, set_cell hsep hreg (by decide), set_cell hsep hreg (by decide), Kind.base]

/-- A write to another device. -/
theorem base_set_of_ne (hreg : devEn ≤ reg) {dev' : BitVec 8} (hne : dev' ≠ dev) :
    kind.base dev' (kind.set dev reg val cells) = kind.base dev' cells := by
  simp [base_set hsep hreg, hne]

/-- A write after which the device is disabled. -/
theorem Settled.disabled (h : Settled kind old cells) (hreg : devEn ≤ reg)
    (hoff : kind.enabled dev (kind.set dev reg val cells) = false) :
    Settled kind old (kind.set dev reg val cells) := by
  intro dev' hon
  by_cases hdev : dev' = dev
  · rw [hdev, hoff] at hon
    cases hon
  · rw [base_set_of_ne hsep hreg hdev]
    rw [enabled_set hsep hreg, if_neg (fun heq => hdev heq.1)] at hon
    exact h dev' hon

/-- A device that is at its new port is enabled. -/
theorem Settled.enable (h : Settled kind old cells)
    (hbase : some (kind.base dev cells) = newBase dev) :
    Settled kind old (kind.set dev devEn val cells) := by
  intro dev' hon
  by_cases hdev : dev' = dev
  · subst hdev
    refine .inr ?_
    rw [← hbase, base_set hsep (by decide)]
    simp [devEn]
  · rw [base_set_of_ne hsep (by decide) hdev]
    rw [enabled_set hsep (by decide), if_neg (fun heq => hdev heq.1)] at hon
    exact h dev' hon

/-- The registers after a device is moved. -/
theorem moved (hnew : newBase dev = some (0x2, low)) (h : Settled kind old cells) :
    let off := kind.set dev devEn 0 cells
    let high := kind.set dev 0x60 0x2 off
    let port := kind.set dev 0x61 low high
    Settled kind old off ∧ Settled kind old high ∧ Settled kind old port ∧
      Settled kind old (kind.set dev devEn 1 port) := by
  intro off high port
  have hoff : kind.enabled dev off = false := by
    rw [enabled_set hsep (by decide), if_pos ⟨rfl, rfl⟩]
    rfl
  have hhigh : kind.enabled dev high = false := by
    rw [enabled_set hsep (by decide), if_neg fun h => absurd h.2 (by decide), hoff]
  have hport : kind.enabled dev port = false := by
    rw [enabled_set hsep (by decide), if_neg fun h => absurd h.2 (by decide), hhigh]
  have hsoff : Settled kind old off := h.disabled hsep (by decide) hoff
  have hshigh : Settled kind old high := hsoff.disabled hsep (by decide) hhigh
  have hsport : Settled kind old port := hshigh.disabled hsep (by decide) hport
  have hbase : some (kind.base dev port) = newBase dev := by
    rw [hnew, base_set hsep (by decide), base_set hsep (by decide)]
    simp
  exact ⟨hsoff, hshigh, hsport, hsport.enable hsep hbase⟩

end

/-- **`superio2` moves disabled devices**: it moves the devices 7 and 8, and in every state on the
way each enabled device is at its old port or at its new one. -/
theorem superio2_relocates (hentry : sio3f0 = kind.entry) (hsep : kind.Separate)
    (hregs : ∀ reg ∈ Tool.superio2.regs, kind.leaves reg = false) (chip : Chip κ) :
    Query.Always (Chip.step kind) (fun chip' => Settled kind chip.cells chip'.cells) superio2
        chip ∧
      ∀ dev, newBase dev ≠ none →
        kind.enabled dev (superio2.exec (Chip.step kind) chip).2.cells = true ∧
          some (kind.base dev (superio2.exec (Chip.step kind) chip).2.cells) = newBase dev := by
  have hwrite : ∀ {ldn cells reg val}, reg ∈ Tool.superio2.regs → Settled kind chip.cells cells →
      Settled kind chip.cells (kind.set ldn reg val cells) →
      Guards kind (Settled kind chip.cells) ldn cells (setreg kind.entry reg val) ldn
        (kind.set ldn reg val cells) := by
    intro ldn cells reg val hreg h h'
    have hsel : reg ≠ devSel := by
      rintro rfl
      revert hreg
      decide
    have hguards := guards_setreg (hregs reg hreg) h h'
    rwa [if_neg hsel] at hguards
  have h0 : Settled kind chip.cells chip.cells := fun dev _ => .inl rfl
  obtain ⟨h1, h2, h3, h4⟩ := moved hsep (rfl : newBase 7 = _) h0
  obtain ⟨h5, h6, h7, h8⟩ := moved hsep (rfl : newBase 8 = _) h4
  constructor
  · unfold superio2
    rw [hentry]
    exact always_configure chip h0 h8 (fun ldn => ⟨8, (guards_devsel h0).bind
      ((hwrite (by decide) h0 h1).bind ((hwrite (by decide) h1 h2).bind
        ((hwrite (by decide) h2 h3).bind ((hwrite (by decide) h3 h4).bind
          ((guards_devsel h4).bind ((hwrite (by decide) h4 h5).bind
            ((hwrite (by decide) h5 h6).bind ((hwrite (by decide) h6 h7).bind
              (hwrite (by decide) h7 h8)))))))))⟩) _
  · obtain ⟨chip', hcells, -, hrun⟩ := run_superio2 chip hentry hregs
    have hlast : (superio2.exec (Chip.step kind) chip).2 = chip' := by
      rw [← (Query.run_exec (Chip.step kind) Req.stdout _ chip).2, hrun]
    rw [hlast, hcells]
    intro dev hnew
    have hdev : dev = 7 ∨ dev = 8 := by
      by_contra hnone
      rw [not_or] at hnone
      exact hnew (by rw [newBase, if_neg hnone.1, if_neg hnone.2])
    have hport : 0x60#8 ≠ devEn ∧ 0x61#8 ≠ devEn := by decide
    rcases hdev with rfl | rfl
    · simp (disch := decide) [Tool.call, Kind.setAll, enabled_set hsep, base_set hsep, newBase,
        hport]
    · simp (disch := decide) [Tool.call, Kind.setAll, enabled_set hsep, base_set hsep, newBase,
        hport]

end

/-- A chip that 0xaa makes leave the mode, with registers of its own for every device. -/
def plain : Kind (BitVec 8 × BitVec 8) where
  entry := sio3f0
  leaves byte := byte = 0xaa
  cell ldn reg := (if reg < devEn then 0 else ldn, reg)
  enters := List.cons_ne_nil _ _
  stays := by simp [sio3f0, devSel]
  global reg hreg ldn ldn' := by rw [if_pos hreg, if_pos hreg]

theorem plain_leaves (tool : Tool) (h : tool.entry = sio3f0) :
    tool.Fits plain ∧ plain.Closed tool.cfgExit := by
  have hport : ite.superPort ≠ sio3f0.superPort := by decide
  cases tool with
  | superio => exact ⟨⟨rfl, by simp [Tool.regs, plain]⟩, [], 0xaa, rfl, rfl⟩
  | superio2 => exact ⟨⟨rfl, by simp [Tool.regs, plain, devEn]⟩, [], 0xaa, rfl, rfl⟩
  | _ => exact absurd (congrArg Entry.superPort h) hport

/-- A script that is one run of `superio2`. -/
def relocate : Query { tool : Tool // tool.Fits plain } (List String × Nat) (List String × Nat) :=
  Query.request ⟨.superio2, (plain_leaves .superio2 rfl).1⟩

theorem runs_refine_plain :
    ((relocate.subst fun tool => tool.1.run).exec (Chip.step plain)
      { configured := false, recent := [], index := 0, ldn := 0, cells := fun _ => 0 }).2.configured
      = false :=
  (runs_refine plain relocate _).2.2 (fun tool hfits => (plain_leaves tool hfits.entry).2) rfl

/-- A chip in the configuration mode whose device 7 is enabled at the port 0x290. -/
def occupied : Chip (BitVec 8 × BitVec 8) where
  configured := true
  recent := []
  index := 0x30
  ldn := 2
  cells := fun cell =>
    if cell = (7, devEn) then 1
    else if cell = (7, 0x60) then 0x02
    else if cell = (7, 0x61) then 0x90
    else 0

theorem superio2_relocates_plain :
    plain.enabled 7 occupied.cells = true ∧ plain.base 7 occupied.cells = (0x02, 0x90) ∧
      Query.Always (Chip.step plain) (fun chip => Settled plain occupied.cells chip.cells) superio2
        occupied ∧
      plain.enabled 7 (superio2.exec (Chip.step plain) occupied).2.cells = true ∧
      some (plain.base 7 (superio2.exec (Chip.step plain) occupied).2.cells) = newBase 7 := by
  have hsep : plain.Separate := by
    intro dev dev' reg reg' hreg hreg' hcell
    obtain ⟨hdev, rfl⟩ := Prod.mk.inj hcell
    rw [if_neg (BitVec.not_lt.2 hreg), if_neg (BitVec.not_lt.2 hreg)] at hdev
    exact ⟨hdev, rfl⟩
  obtain ⟨halways, hmoved⟩ :=
    superio2_relocates rfl hsep (plain_leaves .superio2 rfl).1.regs occupied
  exact ⟨by decide, by decide, halways, hmoved 7 (by decide)⟩

end Port.SuperIo
