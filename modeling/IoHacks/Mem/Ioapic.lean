import IoHacks.Mem.DevMem
import Mathlib.Logic.Function.Basic

/-!
# `ioapic.c` and `ioapic_wr.c`

One program prints the redirection table of the IOAPIC, the other one writes an entry of it. Both
map the same window, in which a register is selected by its number in the index word and accessed
through the data word. `IoApic` is the device behind the window.
-/

namespace Mem.Ioapic

open Lib

def addr : Nat := 0xfec00000
def length : Nat := 0x50
def rdtOffset : BitVec 32 := 0x10#32
def rdtCount : Nat := 24

/-- The index word is at the start of the window. -/
def idx : Nat := 0

/-- The data word is at the byte offset 0x10. -/
def dat : Nat := 4

/-! ## The device -/

/-- The index register, and the registers that are selected by it. -/
structure IoApic where
  index : BitVec 32
  regs : Nat → BitVec 32

/-- What an access to the window does; the other requests are none of the device's. -/
def IoApic.step (r : Req) (a : IoApic) : Reply × IoApic :=
  match r with
  | .load i =>
    if i = idx then ({ failed := false, word := a.index }, a)
    else if i = dat then ({ failed := false, word := a.regs a.index.toNat }, a)
    else (ready r, a)
  | .store i v =>
    if i = idx then (ready r, { a with index := v })
    else if i = dat then (ready r, { a with regs := Function.update a.regs a.index.toNat v })
    else (ready r, a)
  | _ => (ready r, a)

/-! ## `ioapic.c` -/

/-- `rdt_entry`; the argument is an `int`. -/
def rdtEntry (idx dat : Nat) (i : BitVec 32) : Io (BitVec 64) := do
  store idx (rdtOffset + 2#32 * i + 1#32)
  let val := (← load dat).setWidth 64
  let val := val <<< 32
  store idx (rdtOffset + 2#32 * i)
  let low ← load dat
  pure (val ||| low.setWidth 64)

/-- `%02d` of a number that is not negative. -/
def d02 (n : Nat) : String := if n < 10 then "0" ++ toString n else toString n

/-- The loop of `main` over the remaining pins. -/
def printEntries : List Nat → Io Unit
  | [] => pure ()
  | i :: is => do
    let rdte ← rdtEntry idx dat (BitVec.ofNat 32 i)
    call (.printf (d02 i ++ " 0x" ++ hex 16 rdte.toNat ++ "\n"))
    printEntries is

def main : Io Nat :=
  withWindow length true addr do
    printEntries (List.range rdtCount)
    pure 0

/-! ## `ioapic_wr.c` -/

/-- `set_rdt_entry`; the pin is an `int`. -/
def setRdtEntry (idx dat : Nat) (i : BitVec 32) (val : BitVec 64) : Io Unit := do
  store idx (rdtOffset + 2#32 * i + 1#32)
  store dat ((val >>> 32).setWidth 32)
  store idx (rdtOffset + 2#32 * i)
  store dat (val.setWidth 32)

/-- The arguments of `set_rdt_entry`. -/
structure Write where
  which : BitVec 32
  val : BitVec 64
  deriving DecidableEq

/-- `main` of `ioapic_wr.c` up to the opening of `/dev/mem`: what to write, or the message with
which the program returns 1. `errno` is 0 before each conversion. -/
def parse : List String → Except Message Write
  | [pin, value] =>
    let which := (BitVec.ofNat 64 (strtoul pin).value).setWidth 32
    if (strtoul pin).error ≠ 0 then throw (.errno "couldn't parse pin number")
    else if (rdtCount : Int) ≤ which.toInt then
      throw (.plain ("wrong pin number " ++ toString which.toInt ++ "\n"))
    else if (strtoumax value).error ≠ 0 then throw (.errno "couldn't parse value")
    else pure { which, val := BitVec.ofNat 64 (strtoumax value).value }
  | _ => throw (.plain "two arguments expected\n")

/-- `main` of `ioapic_wr.c` on the words after the program's name. -/
def mainWr (args : List String) : Io Nat :=
  match parse args with
  | .error message => do
    call message.req
    pure 1
  | .ok w =>
    withWindow length true addr do
      setRdtEntry idx dat w.which w.val
      pure 0

end Mem.Ioapic
