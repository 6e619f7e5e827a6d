import IoHacks.Amd.Decode
import IoHacks.Lib.Strtoul

/-!
# The address decoder's `main`

The program takes an address as its argument and prints the node, the channel and the chip select
that it maps to.
-/

namespace Amd

open Lib

/-- `%d`. -/
def d (n : Int) : String := toString n

/-- `%lx`. -/
def lx (n : BitVec 64) : String := String.ofList (Nat.toDigits 16 n.toNat)

/-- The exit status of the program and what it printed. The `perror` of a `Get_PCI` call that
fails is not recorded. -/
structure Exit where
  status : Nat
  stdout : String
  stderr : String
  deriving DecidableEq

/-- `main` with the program's name and the words after it. -/
def main (u : Locals) (prog : String) : List String → Pci Exit
  | [] => pure { status := 1, stdout := "", stderr := "Usage " ++ prog ++ " <address>\n" }
  | arg :: _ => do
    let addr := BitVec.ofNat 64 (strtoull arg).value
    let result ← translateSysAddrToCS u addr
    if !result.found then
      pure
        { status := 1, stdout := "could not map address 0x" ++ lx addr ++ "\n", stderr := "" }
    else
      pure
        { status := 0
          stdout := "node: " ++ d result.node ++ "\n" ++ "chan: " ++ d result.channel ++ "\n" ++
            "cs: " ++ d result.cs ++ "\n"
          stderr := "" }

end Amd
