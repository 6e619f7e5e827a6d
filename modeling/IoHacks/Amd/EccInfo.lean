import IoHacks.Amd.Decode

/-!
# The ECC report (`amd-ecc-info.c`)

The program prints what the northbridge of node 0 says about its memory: whether ECC is on, how the
memory is scrubbed, and for each of the two DRAM controllers (DCT) its settings and the chip selects
that are present. `get_pci` is the `Get_PCI` of the address decoder. `humanize_number` of the
system's utility library is a parameter: the text that it makes of a number of bytes per second.
-/

namespace Amd.EccInfo

open Lib

/-- A read of a configuration register, or a text on standard output. -/
inductive Req where
  | getPci (r : PciReg)
  | printf (text : String)
  deriving DecidableEq

def Req.stdout : Req → Option String
  | .printf text => some text
  | _ => none

abbrev Report := Query Req (BitVec 64)

/-- The answers where `/dev/pci` gives `dev`. -/
def answer (dev : DevPci) : Req → BitVec 64
  | .getPci r => dev.answer r
  | .printf _ => 0

def getPci (bus dev func reg : Nat) : Report (BitVec 32) := do
  let value ← Query.request (.getPci ⟨bus, dev, func, reg⟩)
  pure (value.setWidth 32)

def printf (text : String) : Report Unit := do
  let _ ← Query.request (.printf text)
  pure ()

/-- `cfg & (1 << i)`. -/
def bit (cfg : BitVec 32) (i : Nat) : Bool := cfg &&& (1#32 <<< i) ≠ 0#32

/-- `%d`. -/
def d (n : Nat) : String := toString n

/-- `%x`. -/
def x (n : BitVec 32) : String := String.ofList (Nat.toDigits 16 n.toNat)

/-! ## The northbridge -/

def getNbCap : Report (BitVec 32) := getPci 0 24 3 0xe8

def printNbCap : Report Unit := do
  let cfg ← getNbCap
  printf ("NB ECC: " ++ (if bit cfg 3 then "" else "not ") ++ "capable\n")
  printf ("NB Chipkill: " ++ (if bit cfg 4 then "" else "not ") ++ "capable\n")

def getDramScrubRate : Report (BitVec 32) := do
  let cfg ← getPci 0 24 3 0x58
  pure (cfg &&& 0xff#32)

/-- `period_ns` and `speed` of a scrub rate; the rate is not zero. -/
def periodNs (rate : BitVec 32) : BitVec 32 := 40#32 <<< (rate - 1#32)

def speed (rate : BitVec 32) : BitVec 32 := 1000000000#32 / periodNs rate * 64#32

section
variable (humanizeNumber : Nat → String)

def printDramScrubRate : Report Unit := do
  let rate ← getDramScrubRate
  printf "DRAM scrub: "
  (if rate = 0#32 then printf "disabled"
  else if 0x16#32 < rate then printf "<invalid value>"
  else do
    printf (humanizeNumber (speed rate).toNat)
    printf (" (" ++ d (1073741824#32 / speed rate).toNat ++ " seconds to scrub 1 GB)")
    if rate ≤ 4#32 then printf " [scrub runs when there are no other memory accesses]"
    else pure ())
  printf "\n"

def getNbMcaCfg : Report (BitVec 32) := getPci 0 24 3 0x44

def getExtNbMcaCfg : Report (BitVec 32) := getPci 0 24 3 0x180

def printNbMcaCfg : Report Unit := do
  let cfg ← getNbMcaCfg
  let enabled := bit cfg 22
  printf ("DRAM ECC: " ++ (if enabled then "enabled" else "disabled") ++ "\n")
  if !enabled then pure ()
  else
    printf ("Chipkill: " ++ (if bit cfg 23 then "" else "not ") ++ "capable\n")
    printf ("Sync-flood on UC error: " ++ (if bit cfg 2 then "yes" else "no") ++ "\n")
    let cfg ← getExtNbMcaCfg
    printf ("ECC symbol size: " ++ (if bit cfg 25 then "x8" else "x4") ++ "\n")
    printDramScrubRate humanizeNumber

end

/-! ## The DRAM controllers -/

def getDctCfg : Report (BitVec 32) := getPci 0 24 2 0x110

def getDctXCfg (index lowHi : Nat) : Report (BitVec 32) :=
  getPci 0 24 2 (0x90 + (if index ≠ 0 then 0x100 else 0) + (if lowHi ≠ 0 then 4 else 0))

def getCsCfg (dct cs : Nat) : Report (BitVec 32) :=
  getPci 0 24 2 (0x40 + (if dct ≠ 0 then 0x100 else 0) + cs * 4)

/-- `freq`, from the last three bits of the register. -/
def freq (ddr3 : Bool) : Nat → Nat
  | 0 => if ddr3 then 0 else 200
  | 1 => if ddr3 then 0 else 266
  | 2 => 333
  | 3 => 400
  | 4 => 533
  | 5 => if ddr3 then 667 else 0
  | 6 => if ddr3 then 800 else 0
  | _ => 0

/-- `enabled` or `disabled`. -/
def abled (enabled : Bool) : String := (if enabled then "en" else "dis") ++ "abled\n"

def yesNo (yes : Bool) : String := (if yes then "yes" else "no") ++ "\n"

/-- The loop over the chip selects. -/
def csLoop (i : Nat) : List Nat → Report Unit
  | [] => pure ()
  | c :: cs => do
    let cfg ← getCsCfg i c
    if cfg &&& 1#32 ≠ 0#32 then
      printf (" " ++ d c)
      csLoop i cs
    else csLoop i cs

/-- What is printed for a controller that is not disabled, up to its chip selects. -/
def printSettings (i : Nat) : Report Unit := do
  let dct := "DCT" ++ d i ++ " "
  let cfg ← getDctXCfg i 0
  printf (dct ++ "DIMM(s) ECC capable: " ++ yesNo (bit cfg 19))
  printf (dct ++ "UDIMM(s): " ++ yesNo (bit cfg 16))
  printf (dct ++ "x4 DIMM mask: 0x" ++ x ((cfg &&& (0xf#32 <<< 12)) >>> 12) ++ "\n")
  printf (dct ++ "width: " ++ d (if bit cfg 11 then 128 else 64) ++ " bit\n")
  let cfg ← getDctXCfg i 1
  printf (dct ++ "ODT: " ++ abled (!bit cfg 23))
  printf (dct ++ "bank swizzle: " ++ abled (bit cfg 22))
  printf (dct ++ "2T mode: " ++ abled (bit cfg 20))
  printf (dct ++ "power-down: " ++ abled (bit cfg 15))
  printf (dct ++ "power-down mode: " ++ (if bit cfg 16 then "CS" else "channel") ++ "\n")
  let ddr3 := bit cfg 8
  printf (dct ++ "memory type: DDR" ++ d (if ddr3 then 3 else 2) ++ "\n")
  let freq := freq ddr3 (cfg &&& 0x7#32).toNat
  if freq ≠ 0 then printf (dct ++ "frequency: " ++ d freq ++ " MHZ\n")
  else pure ()

/-- An iteration of the loop over the controllers. -/
def printDct (i : Nat) : Report Unit := do
  let cfg ← getDctXCfg i 1
  let disabled := bit cfg 14
  printf ("DCT" ++ d i ++ ": " ++ abled (!disabled))
  if disabled then pure ()
  else
    printSettings i
    printf "CS present:"
    csLoop i (List.range 8)
    printf "\n"

def printDctCfg : Report Unit := do
  let cfg ← getDctCfg
  (if bit cfg 10 then printf "Memory cleared since reboot\n" else pure ())
  printf ("Ganged mode enabled: " ++ yesNo (bit cfg 4))
  printf ("Data interleave (128-bit ECC word is formed from two " ++
    "consecutive 64-bit lines): " ++ yesNo (bit cfg 5))
  printf ("Controller interleave enabled: " ++ yesNo (bit cfg 2))
  printDct 0
  printDct 1

def main (humanizeNumber : Nat → String) : Report Nat := do
  printNbCap
  printNbMcaCfg humanizeNumber
  printDctCfg
  pure 0

end Amd.EccInfo
