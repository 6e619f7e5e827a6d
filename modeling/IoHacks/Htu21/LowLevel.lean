import IoHacks.Htu21.Common
import IoHacks.Lib.Getopt

/-!
# `htu21-query.low-level.c`

The program without the transfer ioctl: it has the option `-H` only, and takes its device from the
second operand.
-/

namespace Htu21.LowLevel

open Lib

def requestRaw (holdMode : Bool) (cmd : BitVec 8) (count : Nat) : Io Int := do
  let error ← ioctl (.start startReq)
  explicitRequest holdMode cmd count error

/-- The `switch` over an option. -/
def setOption (holdMode : Bool) (ch : Char) : Io Bool :=
  if ch = 'H' then pure true
  else do
    eprintf "unknow option\n"
    pure holdMode

/-- The option loop. -/
def setOptions (holdMode : Bool) : List Char → Io Bool
  | [] => pure holdMode
  | ch :: chs => do
    let holdMode ← setOption holdMode ch
    setOptions holdMode chs

/-- `main` on the words after the program's name. -/
def main (args : List String) : Io Nat := do
  let (chs, operands) := getopt ['H'] args
  let holdMode ← setOptions false chs
  let dev := operands[1]?.getD i2cDev
  let fd ← openDev dev
  if fd = -1 then err 1 "open failed"
  else readings holdMode (requestRaw holdMode)

end Htu21.LowLevel
