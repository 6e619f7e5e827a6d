import IoHacks.Smb.Bus
import Mathlib.Algebra.Group.Nat.Defs

/-!
# `fan_calibrate.c`

The program takes each fan through its duty cycles, from full speed down to 0 and up again, and
prints the speed and two temperatures for each of them. A device access that fails ends the
program.
-/

namespace Smb.FanCalibrate

open Lib

def smbDevName : String := "/dev/smb0"

def slave : BitVec 8 := 0x2d#8 <<< 1
def auxSlave2 : BitVec 8 := 0x49#8 <<< 1

def smbioctlReadB (slave addr : BitVec 8) : Io Unit (BitVec 8) := do
  match ← call (.readB slave addr) with
  | none => do
    eprintf ("ioctl_read " ++ hashX slave.toNat ++ " " ++ hashX addr.toNat ++ " failure\n")
    perror "ioctl_read"
    Prog.exit failure
  | some ret => pure (ret.setWidth 8)

def smbioctlReadW (slave addr : BitVec 8) : Io Unit (BitVec 16) := do
  match ← call (.readW slave addr) with
  | none => do
    perror "ioctl_readW"
    eprintf ("ioctl_readW " ++ hashX slave.toNat ++ " " ++ hashX addr.toNat ++ " failure\n")
    Prog.exit failure
  | some ret => pure (ret &&& 0xFFFF#16)

def smbioctlWriteB (slave addr value : BitVec 8) : Io Unit Unit := do
  match ← call (.writeB slave addr value) with
  | none => do
    eprintf ("ioctl_write " ++ hashX slave.toNat ++ " " ++ hashX addr.toNat ++ " " ++
      hashX value.toNat ++ " failure\n")
    perror "ioctl_write"
    Prog.exit failure
  | some _ => pure ()

def getT1 : Io Unit (BitVec 8) := smbioctlReadB slave 0x27#8

def getT2 : Io Unit (BitVec 8) := do
  let word ← smbioctlReadW auxSlave2 0x00#8
  pure ((word &&& 0xFF#16).setWidth 8)

/-- The quotient in `double` is the exact one rounded, which truncates to the same number: the
division by a power of two is exact, and a proper fraction is far from the next integer. -/
def toRpm (val div : BitVec 8) : Nat :=
  if val = 0#8 ∨ val = 0xff#8 then 0
  else
    let res := 1350000 / (2 ^ div.toNat * val.toNat)
    if res > 20000 then 0 else res

def shortSleep : Nat := 2
def longSleep : Nat := 10

/-- `struct fan`. -/
structure Fan where
  pwm : BitVec 8
  rpm : BitVec 8
  div : BitVec 8
  divno : Int
  name : String
  deriving DecidableEq

def fans : List Fan :=
  [{ pwm := 0x5b#8, rpm := 0x28#8, div := 0#8, divno := 1, name := "chassis (pwm1)" },
    { pwm := 0x5f#8, rpm := 0x2a#8, div := 0#8, divno := 3, name := "cpu (pwm4)" }]

/-- The `switch` over `divno`. -/
def divisor (cr5d cr47 cr4b : BitVec 8) (divno : Int) : Option (BitVec 8) :=
  if divno = 1 then some (((cr5d >>> 3) &&& 0x4#8) ||| ((cr47 >>> 4) &&& 0x3#8))
  else if divno = 2 then some (((cr5d >>> 4) &&& 0x4#8) ||| ((cr47 >>> 6) &&& 0x3#8))
  else if divno = 3 then some (((cr5d >>> 5) &&& 0x4#8) ||| ((cr4b >>> 6) &&& 0x3#8))
  else none

/-- The loop over the divisors: the fans with their divisors, or `none` for `return 1`. -/
def setDivisors (cr5d cr47 cr4b : BitVec 8) : List Fan → Io Unit (Option (List Fan))
  | [] => pure (some [])
  | fan :: rest => do
    match divisor cr5d cr47 cr4b fan.divno with
    | none => do
      eprintf ("unknown fan/divisor number " ++ fan.name ++ " (" ++ u fan.divno ++ ")\n")
      pure none
    | some div => do
      printf ("div = " ++ u div.toNat ++ " (" ++ u (2 ^ div.toNat) ++ ") for fan " ++ fan.name ++
        "\n")
      let rest ← setDivisors cr5d cr47 cr4b rest
      pure (rest.map fun rest => { fan with div } :: rest)

/-- The body of the two loops over the duty cycles `j` of a fan. -/
def sample (fan : Fan) (j : Nat) : Io Unit Unit := do
  smbioctlWriteB slave fan.pwm (BitVec.ofNat 8 j)
  sleep shortSleep
  let rawRpm ← smbioctlReadB slave fan.rpm
  let rpm := toRpm rawRpm fan.div
  let t2 ← getT2
  let t1 ← getT1
  printf (u j ++ "\t" ++ u rawRpm.toNat ++ "\t" ++ u rpm ++ "\t" ++ u t1.toNat ++ "\t" ++
    u t2.toNat ++ "\n")

def sweep (fan : Fan) : List Nat → Io Unit Unit
  | [] => pure ()
  | j :: js => do
    sample fan j
    sweep fan js

def down : List Nat := (List.range 256).reverse
def up : List Nat := List.range 256

/-- One iteration of the calibration loop. -/
def calibrate (fan : Fan) : Io Unit Unit := do
  -- full speed
  smbioctlWriteB slave fan.pwm 0xff#8
  sleep longSleep
  sweep fan down
  sleep longSleep
  sweep fan up

/-- The calibration loop. -/
def calibrateAll : List Fan → Io Unit Unit
  | [] => pure ()
  | fan :: rest => do
    calibrate fan
    calibrateAll rest

def main : Io Unit Nat := do
  match ← call (.openDev smbDevName) with
  | none => do
    perror "open smb dev"
    pure 1
  | some _ => do
    let cr5d ← smbioctlReadB slave 0x5d#8
    let cr47 ← smbioctlReadB slave 0x47#8
    let cr4b ← smbioctlReadB slave 0x4b#8
    match ← setDivisors cr5d cr47 cr4b fans with
    | none => pure 1
    | some fans => do
      calibrateAll fans
      pure 0

end Smb.FanCalibrate
