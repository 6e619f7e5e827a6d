import IoHacks.Smb.TuneReg

/-!
# The SMBus tools

The small programs on `/dev/smb0`: `setreg` and `getreg` with their variants access a register of
one slave, the others dump many registers. All of them have the same `smbioctl_writeB`, and an
`smbioctl_readB` that is quiet about a failure, prints a message, or ends the program.
-/

namespace Smb

open Lib
open TuneReg (smbDevName int)

variable {ν : Type}

/-- `main` around what it does on the open device. -/
def withDev (body : Io ν Nat) : Io ν Nat := do
  match ← call (.openDev smbDevName) with
  | none => do
    perror "open smb dev"
    pure 1
  | some _ => body

/-- `smbioctl_readB`, with what it does about a failure. -/
def smbioctlReadB (failed : Io ν Int) (slave : BitVec 8) (addr : Int) : Io ν Int := do
  match ← call (.readB slave (BitVec.ofInt 8 addr)) with
  | none => failed
  | some ret => pure (ret.setWidth 8).toNat

def quiet : Io ν Int := pure (-1)

def complain : Io ν Int := do
  perror "ioctl_read"
  pure (-1)

def abort : Io ν Int := do
  perror "ioctl_read"
  Prog.exit failure

def smbioctlWriteB (slave : BitVec 8) (addr value : Int) : Io ν Unit := do
  match ← call (.writeB slave (BitVec.ofInt 8 addr) (BitVec.ofInt 8 value)) with
  | none => do
    perror "ioctl_write"
    Prog.exit failure
  | some _ => pure ()

/-- Waits for a key; what it is does not matter. -/
def getchar : Io ν Unit := pure ()

/-- A `for` loop. -/
def forEach {ι : Type} (body : ι → Io ν Unit) : List ι → Io ν Unit
  | [] => pure ()
  | i :: is => do
    body i
    forEach body is

/-- `%u(%#02x)` of an `int`. -/
def uHash (n : Int) : String := u n ++ "(" ++ hash02x n ++ ")"

/-! ## Single registers -/

def settingText (reg oldval val : Int) : String :=
  "setting reg " ++ uHash reg ++ " from " ++ uHash oldval ++ " to " ++ uHash val ++ "\n"

def setregAt (slave : BitVec 8) (regWord valWord : String) : Io ν Nat :=
  withDev do
    let reg := int regWord
    let val := int valWord
    let oldval ← smbioctlReadB quiet slave reg
    printf (settingText reg oldval val)
    getchar
    smbioctlWriteB slave reg val
    pure 0

/-- `setreg.c`. -/
def setreg : String → String → Io ν Nat := setregAt (0x2d#8 <<< 1)

/-- `setreg_b1.c`. -/
def setregB1 : String → String → Io ν Nat := setregAt (0x49#8 <<< 1)

def valueText (reg val : Int) : String :=
  "value in reg " ++ uHash reg ++ " is " ++ uHash val ++ "\n"

def getregAt (failed : Io ν Int) (slave : BitVec 8) (regWord : String) : Io ν Nat :=
  withDev do
    let reg := int regWord
    let val ← smbioctlReadB failed slave reg
    printf (valueText reg val)
    pure 0

/-- `getreg.c`. -/
def getreg : String → Io ν Nat := getregAt abort (0x2d#8 <<< 1)

/-- `getreg_b1.c`. -/
def getregB1 : String → Io ν Nat := getregAt quiet (0x49#8 <<< 1)

/-! ## Dumps -/

/-- `getreg_spd.c`. -/
def getregSpd : Io ν Nat :=
  withDev do
    forEach (fun slave =>
      forEach (fun reg : Nat => do
        let val ← smbioctlReadB abort slave reg
        printf (valueText reg val)) (List.range 32))
      [0x50#8 <<< 1, 0x51#8 <<< 1, 0x52#8 <<< 1]
    pure 0

/-- An `unsigned int` that is assigned the result of `strtoul`. -/
def unsigned (word : String) : BitVec 32 := (BitVec.ofNat 64 (strtoul word).value).setWidth 32

/-- The check of `slave`, which only prints a message. -/
def checkSlave (slave : BitVec 32) : Io ν Unit :=
  if slave = 0#32 ∨ slave &&& 1#32 ≠ 0#32 then
    eprintf ("incorrect slave " ++ toString slave.toNat ++ "\n")
  else pure ()

/-- `%c`. -/
def c (n : Int) : String := String.singleton (Char.ofNat (n % 2 ^ 8).toNat)

/-- `spd_dump.c`. -/
def spdDump (slaveWord : String) : Io ν Nat := do
  let slave := unsigned slaveWord
  checkSlave slave
  withDev do
    forEach (fun i : Nat => do
      let val ← smbioctlReadB quiet (slave.setWidth 8) i
      printf (c val)) (List.range 0x80)
    pure 0

/-- `%02X`. -/
def upper02x (n : Nat) : String :=
  let digits := (Nat.toDigits 16 n).map Char.toUpper
  String.ofList (List.replicate (2 - digits.length) '0' ++ digits)

def readText (slave : BitVec 32) (addr : Nat) (val : Int) : String :=
  "read 0x" ++ upper02x slave.toNat ++ ":0x" ++ upper02x addr ++ ": 0x" ++
    upper02x (val % 2 ^ 32).toNat ++ " (" ++ toString val ++ ")\n"

/-- `READ_N_PRINT` of the values that `shown` is true of. -/
def readNPrint (failed : Io ν Int) (shown : Int → Bool) (slave : BitVec 32) (addr : Nat) :
    Io ν Unit := do
  let val ← smbioctlReadB failed (slave.setWidth 8) addr
  if shown val then printf (readText slave addr val) else pure ()

/-- Neither a failure nor one of the values of a register that is not there. -/
def isPlain (val : Int) : Bool := decide (val > 0) && decide (val < 0xff)

/-- `smb_dump_slave.c`. -/
def smbDumpSlave (slaveWord : String) : Io ν Nat := do
  let slave := unsigned slaveWord
  checkSlave slave
  withDev do
    forEach (readNPrint complain isPlain slave) (List.range 0x100)
    pure 0

/-- `smb_test.c`; the slave 0x69 is the PLL. -/
def smbTest : Io ν Nat :=
  withDev do
    forEach (fun i : Nat =>
      if i = 0x69 then pure ()
      else readNPrint quiet (fun val => decide (val ≥ 0)) (BitVec.ofNat 32 (i <<< 1)) 0x0)
      (List.range 0x7f)
    pure 0

/-- `smb_test2.c`. -/
def smbTest2 : Io ν Nat :=
  withDev do
    forEach (readNPrint quiet isPlain 0x62#32) (List.range 0x100)
    pure 0

end Smb
