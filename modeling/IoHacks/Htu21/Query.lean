import IoHacks.Htu21.Common
import IoHacks.Lib.Getopt

/-!
# `htu21-query.c`

The program with its three options: `-H` for the hold-master mode, `-x` for the transfer ioctl
`I2CRDWR` instead of explicit start and stop conditions, `-v` for more output. Without `-x` it
falls back to `I2CRDWR` when the driver has no explicit start condition.
-/

namespace Htu21.Query

open Lib

/-- `hold_mode`, `xfer_mode` and `verbosity`. -/
structure Options where
  holdMode : Bool
  xferMode : Bool
  verbosity : Nat
  deriving DecidableEq

/-! ## Requests -/

/-- `msgs[0]`. -/
def cmdMsg (holdMode : Bool) (cmd : BitVec 8) : IicMsg :=
  { slave := htu21SlaveAddr <<< 1, flags := iicMWr ||| (if holdMode then iicMNoStop else 0)
    len := 1, buf := .cmd cmd }

/-- `msgs[1]`. -/
def dataMsg (count : Nat) : IicMsg :=
  { slave := htu21SlaveAddr <<< 1, flags := iicMRd, len := count, buf := .data }

/-- One iteration of the poll loop of `transfer_raw`: `none` is `continue`. -/
def transferBody (count : Nat) : Io (Option Int) := do
  let error ← ioctl (.rdwr [dataMsg count])
  let s ← Prog.get
  if error ≠ 0 ∧ s.errno = 2 then do
    usleep 40000
    pure none
  else if error ≠ 0 then do
    eprintfErrno "error executing data transfer: "
    pure (some error)
  else pure (some 0)

def transferRaw (holdMode : Bool) (cmd : BitVec 8) (count : Nat) : Io Int := do
  if holdMode then do
    let error ← ioctl (.rdwr [cmdMsg holdMode cmd, dataMsg count])
    (if error ≠ 0 then eprintfErrno "error executing transfer: " else pure ())
    pure error
  else do
    let error ← ioctl (.rdwr [cmdMsg holdMode cmd])
    if error ≠ 0 then do
      eprintfErrno "error executing command transfer: "
      pure error
    else Prog.loop (transferBody count)

def requestRaw (o : Options) (cmd : BitVec 8) (count : Nat) : Io Int := do
  if o.xferMode then transferRaw o.holdMode cmd count
  else do
    let error ← ioctl (.start startReq)
    let s ← Prog.get
    if error ≠ 0 ∧ s.errno = enodev then do
      (if o.verbosity > 0 then do
        eprintf "explicit start not supported\n"
        eprintf "fallback to transfer mode\n"
      else pure ())
      transferRaw o.holdMode cmd count
    else explicitRequest o.holdMode cmd count error

/-! ## The program -/

/-- The `switch` over an option. -/
def setOption (o : Options) (ch : Char) : Io Options :=
  if ch = 'H' then pure { o with holdMode := true }
  else if ch = 'v' then pure { o with verbosity := o.verbosity + 1 }
  else if ch = 'x' then pure { o with xferMode := true }
  else do
    eprintf "unknow option\n"
    pure o

/-- The option loop. -/
def setOptions (o : Options) : List Char → Io Options
  | [] => pure o
  | ch :: chs => do
    let o ← setOption o ch
    setOptions o chs

/-- `main` on the words after the program's name. -/
def main (args : List String) : Io Nat := do
  let (chs, operands) := getopt ['H', 'v', 'x'] args
  let o ← setOptions { holdMode := false, xferMode := false, verbosity := 0 } chs
  let dev := operands[0]?.getD i2cDev
  (if o.verbosity > 0 then eprintf ("using " ++ dev ++ "\n") else pure ())
  let fd ← openDev dev
  if fd = -1 then err 1 "open failed"
  else readings o.holdMode (requestRaw o)

end Htu21.Query
