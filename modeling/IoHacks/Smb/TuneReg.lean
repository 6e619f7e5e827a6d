import IoHacks.Lib.Strtoul
import IoHacks.Smb.Bus

/-!
# `smb_tune_reg.c`

The program moves a register of the hardware monitor to a target value in steps of one. The
variables are exact integers: an addition leaves the range of `int` only at a target that is the
largest or the smallest `int`, where the C program has no defined behaviour.
-/

namespace Smb.TuneReg

open Lib

def smbDevName : String := "/dev/smb0"

def slave : BitVec 8 := 0x2d#8 <<< 1

/-- The variable that the loop changes. -/
structure Vars where
  oldval : Int
  deriving DecidableEq

def smbioctlReadB (slave : BitVec 8) (addr : Int) : Io Vars Int := do
  match ← call (.readB slave (BitVec.ofInt 8 addr)) with
  | none => pure (-1)
  | some ret => pure (ret.setWidth 8).toNat

def smbioctlWriteB (slave : BitVec 8) (addr value : Int) : Io Vars Unit := do
  match ← call (.writeB slave (BitVec.ofInt 8 addr) (BitVec.ofInt 8 value)) with
  | none => do
    perror "ioctl_write"
    Prog.exit failure
  | some _ => pure ()

/-- An `int` variable that is assigned the result of `strtoul`. -/
def int (word : String) : Int := ((BitVec.ofNat 64 (strtoul word).value).setWidth 32).toInt

/-- One iteration of the loop: `none` to go on. -/
def tuneBody (reg val inc : Int) : Io Vars (Option Unit) := do
  let s ← Prog.get
  if s.vars.oldval ≠ val + inc then do
    smbioctlWriteB slave reg s.vars.oldval
    Prog.modify fun s => { s with vars := { oldval := s.vars.oldval + inc } }
    usleep 100000
    pure none
  else pure (some ())

/-- `main` with the two words after the program's name. -/
def main (regWord valWord : String) : Io Vars Nat := do
  match ← call (.openDev smbDevName) with
  | none => do
    perror "open smb dev"
    pure 1
  | some _ => do
    let reg := int regWord
    let val := int valWord
    let oldval ← smbioctlReadB slave reg
    printf ("tuning reg " ++ u reg ++ "(" ++ hash02x reg ++ ") from " ++ u oldval ++ "(" ++
      hash02x oldval ++ ") to " ++ u val ++ "(" ++ hash02x val ++ ")\n")
    let inc : Int := if val > oldval then 1 else -1
    Prog.modify fun s => { s with vars := { oldval := oldval + inc } }
    Prog.loop (tuneBody reg val inc)
    let val ← smbioctlReadB slave reg
    printf ("reg " ++ u reg ++ "(" ++ hash02x reg ++ ") = " ++ u val ++ "(" ++ hash02x val ++
      ")\n")
    pure 0

end Smb.TuneReg
