import IoHacks.Lib.Getopt
import IoHacks.Mem.DevMem

/-!
# `amd_gpio_tool.c`

The program reads or writes one 32-bit register of the GPIO window. `parse` is `main` up to the
opening of `/dev/mem`: an access, or the message with which the program returns 1.
-/

namespace Mem.Gpio

open Lib

def gpioBase : Nat := 0xfed81500
def gpioSize : BitVec 64 := 0x300#64

def uint32Max : BitVec 64 := 0xFFFFFFFF#64

inductive Mode where
  | rd
  | wr
  deriving DecidableEq

/-- The option loop, on the option letters of the arguments. -/
def setMode (mode : Mode) : List Char → Except String Mode
  | [] => pure mode
  | c :: cs =>
    match optChar ['r', 'w'] c with
    | 'r' => setMode .rd cs
    | 'w' => setMode .wr cs
    | _ => throw ("unexpected option <" ++ String.singleton c ++ ">\n")

/-- An argument that `strtoul` does not consume as a whole. -/
def notParsed (word : String) : Bool :=
  (strtoul word).rest = word.toList ∨ (strtoul word).rest ≠ []

def ulong (word : String) : BitVec 64 := BitVec.ofNat 64 (strtoul word).value

/-- What the program does to the window: `off`, and `val` of a write. -/
inductive Access where
  | read (off : BitVec 32)
  | write (off val : BitVec 32)
  deriving DecidableEq

def Access.isWrite : Access → Bool
  | .read _ => false
  | .write _ _ => true

/-- The value argument of a write; the message about it names the offset's argument. -/
def parseValue (offsetWord : String) : List String → Except String (BitVec 32)
  | [] => throw "missing value argument\n"
  | word :: _ =>
    let x := ulong word
    if notParsed word then throw ("failed to parse value " ++ offsetWord ++ "\n")
    else if uint32Max < x then throw ("value " ++ lu x.toNat ++ " is out of range\n")
    else pure (x.setWidth 32)

def parseOperands (mode : Mode) : List String → Except String Access
  | [] => throw "missing index argument\n"
  | word :: rest =>
    let x := ulong word
    let off := x.setWidth 32
    if notParsed word then throw ("failed to parse offset " ++ word ++ "\n")
    else if gpioSize < x + 4#64 then throw ("offset " ++ lu x.toNat ++ " is out of range\n")
    else if off % 4#32 ≠ 0#32 then
      throw ("offset " ++ lu x.toNat ++ " is not on 4-byte boundary\n")
    else
      match mode with
      | .rd => pure (.read off)
      | .wr => do
        let val ← parseValue word rest
        pure (.write off val)

def parse (args : List String) : Except String Access := do
  let mode ← setMode .rd (optLetters args)
  parseOperands mode (getopt ['r', 'w'] args).2

/-- The register access; `mem` is an array of 32-bit words. -/
def access : Access → Io Unit
  | .read off => do
    let val ← load (off / 4#32).toNat
    call (.printf ("offset 0x" ++ hex 2 off.toNat ++ " has value 0x" ++ hex 8 val.toNat ++ "\n"))
  | .write off val => store (off / 4#32).toNat val

/-- `main` on the words after the program's name. -/
def main (args : List String) : Io Nat :=
  match parse args with
  | .error text => do
    call (.eprintf text)
    pure 1
  | .ok a =>
    withWindow gpioSize.toNat a.isWrite gpioBase do
      access a
      call (.munmap gpioSize.toNat)
      call .close
      pure 0

end Mem.Gpio
