import IoHacks.Port.Tool

/-!
# `sio_tool.c`

The program reads or writes a configuration register (CR) of a logical device (LDN) of a Super I/O
chip. `parse` is `main` up to the opening of the device.
-/

namespace Port.Sio

open Lib
open Mem (hex)
open Mem.Gpio (setMode)

def dev : String := "/dev/superio0"

/-- The request and its structure, or the message with which the program returns 1. `val` is what
is on the stack in the member that a read leaves alone. -/
def parse (val : BitVec 8) (args : List String) : Except String (CrReq × SuperioCmd) := do
  let mode ← setMode .rd (optLetters args)
  let argv := (getopt ['r', 'w'] args).2
  let ldn ← byteArg "LDN" argv 0
  let cr ← byteArg "CR" argv 1
  match mode with
  | .rd => pure (.crRead, { ldn, cr, val })
  | .wr => do
    let val ← byteArg "value" argv 2
    pure (.crWrite, { ldn, cr, val })

/-- `main` on the words after the program's name. -/
def main (val : BitVec 8) (args : List String) : Io Nat :=
  match parse val args with
  | .error text => do
    let _ ← Query.request (.eprintf text)
    pure 1
  | .ok (req, cmd) => do
    if (← Query.request (.openDev dev true)).failed then
      let _ ← Query.request (.perror dev)
      pure 1
    else
      let reply ← Query.request (.ioctl req cmd)
      if reply.failed then
        let _ ← Query.request (.perror "ioctl")
        pure 1
      else
        if req = .crRead then
          let _ ← Query.request (.printf ("LDN 0x" ++ hex 2 reply.cmd.ldn.toNat ++ " CR 0x" ++
            hex 2 reply.cmd.cr.toNat ++ " has value 0x" ++ hex 2 reply.cmd.val.toNat ++ "\n"))
        let _ ← Query.request .close
        pure 0

end Port.Sio
