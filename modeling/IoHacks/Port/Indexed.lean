import IoHacks.Port.IntrMap

/-!
# Registers behind an index port

The CMOS, power management and hardware monitor tools access a register in two steps: they write
its index to one I/O port and access it through another one. The programs are alike but for their
ports, their texts and the widths of their variables: `indexGet` and `indexSet` are what the
reading and the writing ones do on an open `/dev/io`.

None of them looks at how many arguments it has; they are taken with the words they read.
-/

namespace Port.Indexed

open Lib

/-! ## The ports -/

/-- The pairs of an index port and a data port. -/
inductive Pair where
  | cmos
  | extCmos
  | amdpm2
  | amdpmio
  | ithwm
  | ithwm2
  | intrMap
  deriving DecidableEq

def Pair.all : List Pair := [.cmos, .extCmos, .amdpm2, .amdpmio, .ithwm, .ithwm2, .intrMap]

def Pair.addrPort : Pair → Nat
  | .cmos => 0x70
  | .extCmos => 0x72
  | .amdpm2 => 0xcd0
  | .amdpmio => 0xcd6
  | .ithwm => 0x228 + 5
  | .ithwm2 => 0x290 + 5
  | .intrMap => IntrMap.addrPort

def Pair.dataPort : Pair → Nat
  | .cmos => 0x71
  | .extCmos => 0x73
  | .amdpm2 => 0xcd1
  | .amdpmio => 0xcd7
  | .ithwm => 0x228 + 6
  | .ithwm2 => 0x290 + 6
  | .intrMap => IntrMap.dataPort

/-! ## Texts -/

/-- `%#0.<digits>X`. -/
def altHex (digits n : Nat) : String :=
  let text := (Nat.toDigits 16 n).map Char.toUpper
  (if n = 0 then "" else "0X") ++
    String.ofList (List.replicate (digits - text.length) '0' ++ text)

/-- `%c` of a byte. -/
def c (byte : BitVec 8) : String := String.singleton (Char.ofNat byte.toNat)

/-! ## The programs -/

/-- Read a register. -/
def indexGet (pair : Pair) (reg : BitVec 8) : Io (BitVec 8) := do
  outb pair.addrPort reg
  inb pair.dataPort

/-- Write a register. -/
def indexSet (pair : Pair) (reg val : BitVec 8) : Io Unit := do
  outb pair.addrPort reg
  outb pair.dataPort val

def cmosText (reg : BitVec 32) (val : BitVec 8) : String :=
  "reg " ++ altHex 4 reg.toNat ++ " of cmos has value " ++ altHex 2 val.toNat ++ "\n"

def cmosGet (pair : Pair) (regWord : String) : Io Nat :=
  withIo do
    let reg := uInt regWord
    let val ← indexGet pair (reg.setWidth 8)
    printf (cmosText reg val)

/-- `getcmos.c`. -/
def getcmos : String → Io Nat := cmosGet .cmos

/-- `getextcmos.c`. -/
def getextcmos : String → Io Nat := cmosGet .extCmos

def pmText (reg val : BitVec 8) : String :=
  "reg " ++ altHex 2 reg.toNat ++ " has value " ++ altHex 2 val.toNat ++ "\n"

def pmGet (pair : Pair) (regWord : String) : Io Nat :=
  withIo do
    let reg := uChar regWord
    let val ← indexGet pair reg
    printf (pmText reg val)

/-- `amdpm2_get.c`. -/
def amdpm2Get : String → Io Nat := pmGet .amdpm2

/-- `amdpmio_get.c`. -/
def amdpmioGet : String → Io Nat := pmGet .amdpmio

def pmSet (pair : Pair) (regWord valWord : String) : Io Nat :=
  withIo do
    let reg := uChar regWord
    let val := uChar valWord
    indexSet pair reg val
    printf (pmText reg val)

/-- `amdpm2_set.c`. -/
def amdpm2Set : String → String → Io Nat := pmSet .amdpm2

/-- `amdpmio_set.c`. -/
def amdpmioSet : String → String → Io Nat := pmSet .amdpmio

/-- The text for a register, which the monitor tools call a port; `verb` is what it does. -/
def hwmText (verb : String) (port : BitVec 32) (val : BitVec 8) : String :=
  "port " ++ altHex 4 port.toNat ++ " " ++ verb ++ " value " ++ altHex 2 val.toNat ++ "\n"

def hwmGet (pair : Pair) (portWord : String) : Io Nat :=
  withIo do
    let port := uInt portWord
    let val ← indexGet pair (port.setWidth 8)
    printf (hwmText "has" port val)

/-- `ithwm_getio.c`. -/
def ithwmGetio : String → Io Nat := hwmGet .ithwm

/-- `ithwm2_getio.c`. -/
def ithwm2Getio : String → Io Nat := hwmGet .ithwm2

def hwmSet (pair : Pair) (portWord valWord : String) : Io Nat :=
  withIo do
    let port := uInt portWord
    indexSet pair (port.setWidth 8) (uChar valWord)
    let val ← indexGet pair (port.setWidth 8)
    printf (hwmText "now has" port val)

/-- `ithwm_setio.c`. -/
def ithwmSetio : String → String → Io Nat := hwmSet .ithwm

/-- `ithwm2_setio.c`. -/
def ithwm2Setio : String → String → Io Nat := hwmSet .ithwm2

/-- The loop of `getcmos_all.c` over the remaining registers. -/
def cmosLoop : List Nat → Io Unit
  | [] => pure ()
  | reg :: regs => do
    let val ← indexGet .cmos (BitVec.ofNat 8 reg)
    printf (c val)
    let _ ← Query.request (.eprintf ("index 0x" ++ Mem.hex 2 reg ++ "\n"))
    cmosLoop regs

/-- `getcmos_all.c`. -/
def getcmosAll : Io Nat :=
  withIo do
    let _ ← Query.request (.eprintf "going to read\n")
    cmosLoop (List.range' 14 (0x80 - 14))

/-- The loop of `getextcmos_all.c` over the remaining registers. -/
def extCmosLoop : List Nat → Io Unit
  | [] => pure ()
  | reg :: regs => do
    let val ← indexGet .extCmos (BitVec.ofNat 8 (reg ||| 0x80))
    printf (c val)
    extCmosLoop regs

/-- `getextcmos_all.c`. -/
def getextcmosAll : Io Nat := withIo (extCmosLoop (List.range 0x80))

/-- A run of one of the programs. -/
inductive Tool where
  | getcmos (reg : String)
  | getextcmos (reg : String)
  | amdpm2Get (reg : String)
  | amdpmioGet (reg : String)
  | amdpm2Set (reg val : String)
  | amdpmioSet (reg val : String)
  | ithwmGetio (port : String)
  | ithwm2Getio (port : String)
  | ithwmSetio (port val : String)
  | ithwm2Setio (port val : String)
  | getcmosAll
  | getextcmosAll
  | amdIntrMap (args : List String)

def Tool.main : Tool → Io Nat
  | .getcmos reg => Indexed.getcmos reg
  | .getextcmos reg => Indexed.getextcmos reg
  | .amdpm2Get reg => Indexed.amdpm2Get reg
  | .amdpmioGet reg => Indexed.amdpmioGet reg
  | .amdpm2Set reg val => Indexed.amdpm2Set reg val
  | .amdpmioSet reg val => Indexed.amdpmioSet reg val
  | .ithwmGetio port => Indexed.ithwmGetio port
  | .ithwm2Getio port => Indexed.ithwm2Getio port
  | .ithwmSetio port val => Indexed.ithwmSetio port val
  | .ithwm2Setio port val => Indexed.ithwm2Setio port val
  | .getcmosAll => Indexed.getcmosAll
  | .getextcmosAll => Indexed.getextcmosAll
  | .amdIntrMap args => IntrMap.main args

end Port.Indexed
