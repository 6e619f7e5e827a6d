import IoHacks.Port.Tool

/-!
# Super I/O configuration

The configuration registers (CR) of a Super I/O chip are behind an index port, and the port after
it. They are there in the configuration mode only, which the chip enters after some bytes on the
index port; CR 7 selects the logical device (LDN) whose registers the others are. The programs for
ITE chips, for Nuvoton chips and for the one at port 0x3f0 have the same `setreg`, `getreg` and
`devsel`, and bytes of their own to enter and leave the mode.
-/

namespace Port.SuperIo

open Lib
open Mem (hex)

/-- Where a chip is, and the bytes of `cfg_entr` for it. -/
structure Entry where
  superPort : Nat
  cfgEntr : List (BitVec 8)

def ite : Entry := { superPort := 0x2e, cfgEntr := [0x87, 0x01, 0x55, 0x55] }

def nvt : Entry := { superPort := 0x2e, cfgEntr := [0x87, 0x87] }

/-- The chip of `superio.c` and `superio2.c`. -/
def sio3f0 : Entry := { superPort := 0x3f0, cfgEntr := [0x87, 0x87] }

def setreg (chip : Entry) (reg val : BitVec 8) : Io Unit := do
  outb chip.superPort reg
  outb (chip.superPort + 1) val

def getreg (chip : Entry) (reg : BitVec 8) : Io (BitVec 8) := do
  outb chip.superPort reg
  inb (chip.superPort + 1)

def devSel : BitVec 8 := 0x07

def devEn : BitVec 8 := 0x30

def devsel (chip : Entry) (ldn : BitVec 8) : Io Unit := setreg chip devSel ldn

/-- Bytes on the index port. -/
def cfgBytes (chip : Entry) : List (BitVec 8) → Io Unit
  | [] => pure ()
  | byte :: bytes => do
    outb chip.superPort byte
    cfgBytes chip bytes

/-- A program: `body` between `cfg_entr` and `cfg_exit`. -/
def configure (chip : Entry) (cfgExit : List (BitVec 8)) (body : Io Unit) : Io Nat :=
  withIo do
    cfgBytes chip chip.cfgEntr
    body
    cfgBytes chip cfgExit

/-- `%#04x` of a byte: zero has no `0x`. -/
def hex04 (n : Nat) : String := if n = 0 then hex 4 n else "0x" ++ hex 2 n

def regText (dev reg val : BitVec 8) : String :=
  "LDN_" ++ hex 1 dev.toNat ++ "[" ++ hex 2 reg.toNat ++ "] = " ++ hex04 val.toNat ++ "\n"

def sioGetreg (chip : Entry) (cfgExit : List (BitVec 8)) (devWord regWord : String) : Io Nat :=
  let dev := uChar devWord
  let reg := uChar regWord
  configure chip cfgExit do
    devsel chip dev
    let oldval ← getreg chip reg
    printf (regText dev reg oldval)

/-- `ite_sio_getreg.c`. -/
def iteSioGetreg : String → String → Io Nat := sioGetreg ite [0x02, 0x02]

/-- `nvt_sio_getreg.c`. -/
def nvtSioGetreg : String → String → Io Nat := sioGetreg nvt [0xaa, 0xaa]

def sioSetreg (chip : Entry) (cfgExit : List (BitVec 8)) (devWord regWord valWord : String) :
    Io Nat :=
  let dev := uChar devWord
  let reg := uChar regWord
  configure chip cfgExit do
    devsel chip dev
    let oldval ← getreg chip reg
    printf ("Was: " ++ regText dev reg oldval)
    setreg chip reg (uChar valWord)
    let val ← getreg chip reg
    printf ("Now: " ++ regText dev reg val)

/-- `ite_sio_setreg.c`. -/
def iteSioSetreg : String → String → String → Io Nat := sioSetreg ite [0x02, 0x02]

/-- `nvt_sio_setreg.c`. -/
def nvtSioSetreg : String → String → String → Io Nat := sioSetreg nvt [0xaa]

/-- `ite_sio.c`. -/
def iteSio : Io Nat :=
  configure ite [0x02, 0x02] do
    devsel ite 0x07
    let val ← getreg ite 0xef
    let val := val &&& ~~~1
    setreg ite 0xef val
    let val ← getreg ite 0xef
    printf ("LDN7[EF] = " ++ hex04 val.toNat ++ "\n")

/-- `superio.c`. -/
def superio : Io Nat :=
  configure sio3f0 [0xaa] do
    setreg sio3f0 0x2c 0x01
    setreg sio3f0 devSel 7
    setreg sio3f0 0xe4 0x02
    setreg sio3f0 0xe3 0x01
    setreg sio3f0 0xe7 0x01
    setreg sio3f0 devSel 8
    setreg sio3f0 0xf2 0x00
    setreg sio3f0 0xf3 0xf9
    setreg sio3f0 0xf4 0xc0

/-- `superio2.c`. -/
def superio2 : Io Nat :=
  configure sio3f0 [0xaa] do
    setreg sio3f0 devSel 7
    setreg sio3f0 devEn 0
    setreg sio3f0 0x60 0x2
    setreg sio3f0 0x61 0x50
    setreg sio3f0 devEn 1
    setreg sio3f0 devSel 8
    setreg sio3f0 devEn 0
    setreg sio3f0 0x60 0x2
    setreg sio3f0 0x61 0x54
    setreg sio3f0 devEn 1

end Port.SuperIo
