import IoHacks.Port.Tool

/-!
# `amd_intr_map_tool.c`

The program reads or writes a register of the interrupt map: it selects the register by its index
through one I/O port and accesses it through the other one. `parse` is `main` up to the opening of
`/dev/io`, which gives access to the ports.
-/

namespace Port.IntrMap

open Lib
open Mem (hex)
open Mem.Gpio (setMode)

def addrPort : Nat := 0xc00
def dataPort : Nat := 0xc01

/-- What the program does to the map: `idx`, and `val` of a write. -/
inductive Access where
  | read (idx : BitVec 8)
  | write (idx val : BitVec 8)
  deriving DecidableEq

def parse (args : List String) : Except String Access := do
  let mode ← setMode .rd (optLetters args)
  let argv := (getopt ['r', 'w'] args).2
  let idx ← byteArg "index" argv 0
  match mode with
  | .rd => pure (.read idx)
  | .wr => do
    let val ← byteArg "value" argv 1
    pure (.write idx val)

/-- The register access. -/
def access : Access → Io Unit
  | .read idx => do
    let _ ← Query.request (.outb addrPort idx)
    let val := (← Query.request (.inb dataPort)).byte
    let _ ← Query.request
      (.printf ("idx 0x" ++ hex 2 idx.toNat ++ " has value 0x" ++ hex 2 val.toNat ++ "\n"))
    pure ()
  | .write idx val => do
    let _ ← Query.request (.outb addrPort idx)
    let _ ← Query.request (.outb dataPort val)
    pure ()

/-- `main` on the words after the program's name. -/
def main (args : List String) : Io Nat :=
  match parse args with
  | .error text => do
    let _ ← Query.request (.eprintf text)
    pure 1
  | .ok a => do
    if (← Query.request (.openDev "/dev/io" false)).failed then
      let _ ← Query.request (.perror "open /dev/io")
      pure 1
    else
      access a
      let _ ← Query.request .close
      pure 0

end Port.IntrMap
