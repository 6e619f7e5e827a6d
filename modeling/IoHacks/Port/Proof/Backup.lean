import IoHacks.Mem.Proof.GpioBackup
import IoHacks.Port.Proof.Indexed
import IoHacks.Port.Sio

/-!
# Byte registers saved and restored

Like `amd_gpio_tool`, `sio_tool` and `amd_intr_map_tool` print a register as their option `-w` takes
it. So the registers behind the Super I/O driver (`Sio.crs_restored`) and the interrupt map
(`IntrMap.map_restored`) can be saved by runs of the programs and restored by others, also where
some of the registers are aliases.
-/

namespace Port

open Lib
open Mem (hex)
open Mem.Gpio (notParsed_hex ulong_hex setMode_read setMode_write operands_read operands_write
  setMode words_hasValue)
open Mem.Ioapic (hex_numeral)

/-! ## The arguments -/

/-- A byte as it is printed. -/
def byteWord (b : BitVec 8) : String := "0x" ++ hex 2 b.toNat

theorem byteArg_byteWord {argv : List String} {i : Nat} {b : BitVec 8}
    (h : argv[i]? = some (byteWord b)) (name : String) : byteArg name argv i = .ok b := by
  have hb := b.isLt
  have hlt : b.toNat < 2 ^ 64 := by omega
  have hx : Mem.Gpio.ulong (byteWord b) = BitVec.ofNat 64 b.toNat := ulong_hex hlt
  have hp : Mem.Gpio.notParsed (byteWord b) = false := notParsed_hex hlt
  have hmax : ¬uint8Max < BitVec.ofNat 64 b.toNat := by
    rw [BitVec.lt_def]
    simp only [uint8Max, BitVec.toNat_ofNat]
    omega
  have hval : (BitVec.ofNat 64 b.toNat).setWidth 8 = b := by
    apply BitVec.eq_of_toNat_eq
    simp only [BitVec.toNat_setWidth, BitVec.toNat_ofNat]
    omega
  simp only [byteArg, h, hx, hp, hval]
  rw [if_neg Bool.false_ne_true, if_neg hmax]
  rfl

theorem isWord_byteWord (b : BitVec 8) : IsWord (byteWord b).toList := isWord_0x (hex_numeral _ _)

/-! ## The Super I/O driver -/

namespace Sio

/-- The registers behind the driver; `cell` says which one a request selects. -/
def driver {γ : Type} [DecidableEq γ] (cell : BitVec 8 × BitVec 8 → γ) :
    Req → (γ → BitVec 8) → Reply × (γ → BitVec 8)
  | .ioctl .crRead cmd, regs =>
    ({ ready (.ioctl .crRead cmd) with cmd := { cmd with val := regs (cell (cmd.ldn, cmd.cr)) } },
      regs)
  | .ioctl .crWrite cmd, regs =>
    (ready (.ioctl .crWrite cmd), Function.update regs (cell (cmd.ldn, cmd.cr)) cmd.val)
  | req, regs => (ready req, regs)

/-- A run that prints a register, given as LDN and CR; `val` is what is on the stack. -/
def readRun (val : BitVec 8) (reg : BitVec 8 × BitVec 8) : Io Nat :=
  main val [byteWord reg.1, byteWord reg.2]

def line (reg : BitVec 8 × BitVec 8) (val : BitVec 8) : String :=
  "LDN 0x" ++ hex 2 reg.1.toNat ++ " CR 0x" ++ hex 2 reg.2.toNat ++ " has value 0x" ++
    hex 2 val.toNat ++ "\n"

/-- A run that writes what stands in a line. -/
def writeRun (val : BitVec 8) (text : String) : Io Nat :=
  match words text with
  | [_, ldn, _, cr, _, _, word] => main val ["-w", ldn, cr, word]
  | _ => main val []

section
variable {args argv : List String} {stack ldn cr val : BitVec 8}

theorem parse_rd (hmode : setMode .rd (optLetters args) = .ok .rd)
    (hargv : (getopt ['r', 'w'] args).2 = argv) (hldn : argv[0]? = some (byteWord ldn))
    (hcr : argv[1]? = some (byteWord cr)) :
    parse val args = .ok (.crRead, { ldn, cr, val }) := by
  unfold parse
  simp only [hmode, hargv, byteArg_byteWord hldn, byteArg_byteWord hcr]
  rfl

theorem parse_wr (hmode : setMode .rd (optLetters args) = .ok .wr)
    (hargv : (getopt ['r', 'w'] args).2 = argv) (hldn : argv[0]? = some (byteWord ldn))
    (hcr : argv[1]? = some (byteWord cr)) (hval : argv[2]? = some (byteWord val)) :
    parse stack args = .ok (.crWrite, { ldn, cr, val }) := by
  unfold parse
  simp only [hmode, hargv, byteArg_byteWord hldn, byteArg_byteWord hcr]
  show (byteArg "value" argv 2 >>= _) = _
  rw [byteArg_byteWord hval]
  rfl

end

theorem parse_read (val ldn cr : BitVec 8) :
    parse val [byteWord ldn, byteWord cr] = .ok (.crRead, { ldn, cr, val }) :=
  parse_rd (setMode_read _ _) (operands_read _ _) rfl rfl

theorem parse_write (stack ldn cr val : BitVec 8) :
    parse stack ["-w", byteWord ldn, byteWord cr, byteWord val] =
      .ok (.crWrite, { ldn, cr, val }) :=
  parse_wr (setMode_write _ _) (operands_write _ _) rfl rfl rfl

theorem words_line (reg : BitVec 8 × BitVec 8) (val : BitVec 8) :
    words (line reg val) = ["LDN", byteWord reg.1, "CR", byteWord reg.2, "has", "value",
      byteWord val] := by
  have hline : line reg val = "LDN" ++ (" " ++ (byteWord reg.1 ++ (" " ++ ("CR" ++ (" " ++
      (byteWord reg.2 ++ (" has value " ++ (byteWord val ++ "\n")))))))) := by
    unfold line byteWord
    simp [← String.toList_inj]
  have hname : IsWord "LDN".toList ∧ IsWord "CR".toList := by simp [IsWord, isSpace]
  rw [hline, words_cons hname.1, words_cons (isWord_byteWord _),
    words_hasValue hname.2 (isWord_byteWord _) (isWord_byteWord _)]

section
variable {γ : Type} [DecidableEq γ] (cell : BitVec 8 × BitVec 8 → γ) (stack : BitVec 8)

theorem run_read (reg : BitVec 8 × BitVec 8) (regs : γ → BitVec 8) :
    Query.run (driver cell) Req.stdout (readRun stack reg) regs =
      (([line reg (regs (cell reg))], 0), regs) := by
  rw [readRun, main, parse_read]
  unfold line
  simp [driver, ready, Req.stdout]

theorem exec_write (reg : BitVec 8 × BitVec 8) (val : BitVec 8) (regs : γ → BitVec 8) :
    (writeRun stack (line reg val)).exec (driver cell) regs =
      (0, Function.update regs (cell reg) val) := by
  rw [writeRun, words_line]
  show (main stack ["-w", byteWord reg.1, byteWord reg.2, byteWord val]).exec (driver cell) regs = _
  rw [main, parse_write]
  simp [driver, ready]

/-- **The registers of a Super I/O chip are restored** by the lines that were printed about them. -/
theorem crs_restored (saved : List (BitVec 8 × BitVec 8)) (regs regs' : γ → BitVec 8) :
    ((Query.restore (writeRun stack) ((Query.save Req.stdout (readRun stack) saved).exec
        (driver cell) regs).1).exec (driver cell) regs').1 = List.replicate saved.length 0 ∧
      ∀ c, ((Query.restore (writeRun stack) ((Query.save Req.stdout (readRun stack) saved).exec
        (driver cell) regs).1).exec (driver cell) regs').2 c =
          if c ∈ saved.map cell then regs c else regs' c := by
  have hrestorable : Query.Restorable (driver cell) Req.stdout (readRun stack) (writeRun stack)
      id cell line :=
    { read := fun reg regs => by
        rw [run_read]
        exact ⟨rfl, rfl⟩
      write := fun reg val regs => by
        rw [exec_write]
        exact ⟨rfl, rfl⟩ }
  exact hrestorable.restore_save saved regs regs'

end

end Sio

/-! ## The interrupt map -/

namespace IntrMap

open Indexed (Chip)

/-- A run that prints a register of the map. -/
def readRun (idx : BitVec 8) : Io Nat := main [byteWord idx]

def line (idx val : BitVec 8) : String :=
  "idx 0x" ++ hex 2 idx.toNat ++ " has value 0x" ++ hex 2 val.toNat ++ "\n"

/-- A run that writes what stands in a line. -/
def writeRun (text : String) : Io Nat :=
  match words text with
  | [_, idx, _, _, word] => main ["-w", idx, word]
  | _ => main []

section
variable {args argv : List String} {idx val : BitVec 8}

theorem parse_rd (hmode : setMode .rd (optLetters args) = .ok .rd)
    (hargv : (getopt ['r', 'w'] args).2 = argv) (hidx : argv[0]? = some (byteWord idx)) :
    parse args = .ok (.read idx) := by
  unfold parse
  simp only [hmode, hargv, byteArg_byteWord hidx]
  rfl

theorem parse_wr (hmode : setMode .rd (optLetters args) = .ok .wr)
    (hargv : (getopt ['r', 'w'] args).2 = argv) (hidx : argv[0]? = some (byteWord idx))
    (hval : argv[1]? = some (byteWord val)) : parse args = .ok (.write idx val) := by
  unfold parse
  simp only [hmode, hargv, byteArg_byteWord hidx]
  show (byteArg "value" argv 1 >>= _) = _
  rw [byteArg_byteWord hval]
  rfl

end

theorem parse_read (idx : BitVec 8) : parse [byteWord idx] = .ok (.read idx) :=
  parse_rd (setMode_read _ _) (operands_read _ _) rfl

theorem parse_write (idx val : BitVec 8) :
    parse ["-w", byteWord idx, byteWord val] = .ok (.write idx val) :=
  parse_wr (setMode_write _ _) (operands_write _ _) rfl rfl

theorem words_line (idx val : BitVec 8) :
    words (line idx val) = ["idx", byteWord idx, "has", "value", byteWord val] := by
  have hline : line idx val = "idx" ++ (" " ++ (byteWord idx ++ (" has value " ++
      (byteWord val ++ "\n")))) := by
    unfold line byteWord
    simp [← String.toList_inj]
  have hname : IsWord "idx".toList := by simp [IsWord, isSpace]
  rw [hline, words_hasValue hname (isWord_byteWord _) (isWord_byteWord _)]

section
variable (cell : Indexed.Pair → BitVec 8 → BitVec 8)

theorem run_read (idx : BitVec 8) (chip : Chip) :
    ∃ index, Query.run (Chip.step cell .intrMap) Req.stdout (readRun idx) chip =
      (([line idx (chip.cells (cell .intrMap idx))], 0), { chip with index }) := by
  obtain ⟨index, hrun⟩ := @Indexed.run_intrMap cell [byteWord idx] fun _ => chip
  rw [parse_read] at hrun
  exact ⟨index, hrun⟩

theorem exec_write (idx val : BitVec 8) (chip : Chip) :
    ∃ index, (writeRun (line idx val)).exec (Chip.step cell .intrMap) chip =
      (0, { index, cells := Function.update chip.cells (cell .intrMap idx) val }) := by
  obtain ⟨index, hrun⟩ :=
    @Indexed.run_intrMap cell ["-w", byteWord idx, byteWord val] fun _ => chip
  obtain ⟨hvalue, hstate⟩ := Query.run_exec (Chip.step cell .intrMap) Req.stdout
    (main ["-w", byteWord idx, byteWord val]) chip
  rw [parse_write] at hrun
  rw [hrun] at hvalue hstate
  refine ⟨index, ?_⟩
  rw [writeRun, words_line]
  refine Prod.ext hvalue.symm (hstate.symm.trans ?_)
  simp [Indexed.intrMapCall, Indexed.shows, Indexed.Registers.set, Indexed.registers]

/-- **The interrupt map is restored** by the lines that were printed about its registers. -/
theorem map_restored (saved : List (BitVec 8)) (chip chip' : Chip) :
    ((Query.restore writeRun ((Query.save Req.stdout readRun saved).exec
        (Chip.step cell .intrMap) chip).1).exec (Chip.step cell .intrMap) chip').1 =
          List.replicate saved.length 0 ∧
      ∀ c, ((Query.restore writeRun ((Query.save Req.stdout readRun saved).exec
        (Chip.step cell .intrMap) chip).1).exec (Chip.step cell .intrMap) chip').2.cells c =
          if c ∈ saved.map (cell .intrMap) then chip.cells c else chip'.cells c := by
  have hrestorable : Query.Restorable (Chip.step cell .intrMap) Req.stdout readRun writeRun
      Chip.cells (cell .intrMap) line :=
    { read := fun idx chip => by
        obtain ⟨index, hrun⟩ := run_read cell idx chip
        rw [hrun]
        exact ⟨rfl, rfl⟩
      write := fun idx val chip => by
        obtain ⟨index, hexec⟩ := exec_write cell idx val chip
        rw [hexec]
        exact ⟨rfl, rfl⟩ }
  exact hrestorable.restore_save saved chip chip'

end

end IntrMap

end Port
