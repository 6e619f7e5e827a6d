import IoHacks.Htu21.Bus
import Mathlib.Algebra.Group.Int.Defs
import Mathlib.Algebra.Group.Nat.Defs

/-!
# What the two HTU21 programs share

`htu21-query.c` and `htu21-query.low-level.c` have the same text for the constants, `calc_crc` and
`valid_crc`, for `request_raw` after its first start condition (`explicitRequest`), and for what
`main` does with a reading. `main` does it twice, once for each quantity: `report` is that block,
with the commands, texts and numbers of the quantity as its parameters.
-/

namespace Htu21

open Lib

def i2cDev : String := "/dev/iic0"

def htu21GetTemp : BitVec 8 := 0xe3#8
def htu21GetHum : BitVec 8 := 0xe5#8
def htu21GetTempNH : BitVec 8 := 0xf3#8
def htu21GetHumNH : BitVec 8 := 0xf5#8

def htu21SlaveAddr : Nat := 0x40

/-- `sizeof(data)`. -/
def sizeofData : Nat := 3

/-! ## The checksum -/

/-- One iteration of the loop of `calc_crc`. -/
def crcStep (data : BitVec 16) : BitVec 16 :=
  if data &&& 0x8000#16 ≠ 0#16 then (data <<< 1) ^^^ 0x3100#16 else data <<< 1

def calcCrc (data : BitVec 16) : BitVec 8 := (Nat.repeat crcStep 16 data >>> 8).setWidth 8

def validCrc (data : Frame) (expected : BitVec 8) : Bool :=
  calcCrc ((data.d0.setWidth 16 <<< 8) ||| data.d1.setWidth 16) == expected

/-! ## The request after its first start condition -/

/-- `req` at a start condition. -/
def startReq : IicCmd := { slave := htu21SlaveAddr <<< 1, count := 0, last := 0, buf := .null }

/-- `req` at the start condition of a poll. -/
def pollReq : IicCmd :=
  { slave := (htu21SlaveAddr <<< 1) ||| 1, count := 0, last := 0, buf := .null }

/-- The data phase of a poll, after its start condition. -/
def readResponse (count : Nat) : Io Int := do
  let error ← ioctl (.read { pollReq with count, last := 1, buf := .data })
  (if error ≠ 0 then eprintfErrno "error reading response: " else pure ())
  let _ ← ioctl .stop
  pure error

/-- One iteration of the poll loop: `none` is `continue`. -/
def pollBody (holdMode : Bool) (count : Nat) : Io (Option Int) := do
  let error ← (if holdMode then ioctl (.rptstart pollReq) else ioctl (.start pollReq))
  if error ≠ 0 then
    if !holdMode then do
      usleep 40000
      pure none
    else do
      eprintfErrno "error sending r-start condition: "
      let _ ← ioctl .stop
      pure (some error)
  else do
    let error ← readResponse count
    pure (some error)

def poll (holdMode : Bool) (count : Nat) : Io Int := Prog.loop (pollBody holdMode count)

/-- `request_raw` on a bus whose start condition succeeded. -/
def sendCommand (holdMode : Bool) (cmd : BitVec 8) (count : Nat) : Io Int := do
  let error ← ioctl (.write { startReq with buf := .cmd cmd, count := 1, last := 0 })
  if error ≠ 0 then do
    eprintfErrno "error sending command: "
    let _ ← ioctl .stop
    pure error
  else if !holdMode then do
    let error ← ioctl .stop
    if error ≠ 0 then do
      eprintf "error sending stop condition\n"
      pure error
    else poll holdMode count
  else poll holdMode count

/-- `request_raw` after its first start condition returned `error`. -/
def explicitRequest (holdMode : Bool) (cmd : BitVec 8) (count : Nat) (error : Int) : Io Int := do
  -- allow one retry
  let error ← (if error ≠ 0 then ioctl (.start startReq) else pure error)
  if error ≠ 0 then do
    eprintfErrno "error sending start condition: "
    let _ ← ioctl .stop
    pure error
  else sendCommand holdMode cmd count

/-! ## A reading -/

/-- What `main` has for each of its two readings. -/
structure Quantity where
  name : String
  get : BitVec 8
  getNH : BitVec 8
  label : String
  unit : String
  scale : Nat
  offset : Int
  statusWrong : BitVec 8 → Bool
  statusText : String

def temperature : Quantity where
  name := "temperature"
  get := htu21GetTemp
  getNH := htu21GetTempNH
  label := "Temperature: "
  unit := " degC\n"
  scale := 17572
  offset := 4685
  statusWrong status := status &&& 2#8 ≠ 0#8
  statusText := "inconsistency: humidity status bit is set\n"

def humidity : Quantity where
  name := "humidity"
  get := htu21GetHum
  getNH := htu21GetHumNH
  label := "Humidity: "
  unit := " %\n"
  scale := 12500
  offset := 600
  statusWrong status := status &&& 2#8 = 0#8
  statusText := "inconsistency: humidity status bit is not set\n"

/-- The command for a reading. -/
def Quantity.command (q : Quantity) (holdMode : Bool) : BitVec 8 :=
  if holdMode then q.get else q.getNH

/-- The reading without its two status bits. -/
def Frame.raw (data : Frame) : BitVec 16 :=
  (data.d0.setWidth 16 <<< 8) ||| (data.d1 &&& 0xfc#8).setWidth 16

/-- The two status bits. -/
def Frame.status (data : Frame) : BitVec 8 := data.d1 &&& 0x3#8

def Quantity.value (q : Quantity) (raw : BitVec 16) : Int :=
  (raw.toNat * q.scale / 2 ^ 16 : Nat) - q.offset

/-- `%ld`. -/
def ld (n : Int) : String := toString n

/-- `%02lu` of a `long`. -/
def lu02 (n : Int) : String :=
  let digits := toString (n % 2 ^ 64).toNat
  if digits.length < 2 then "0" ++ digits else digits

/-- The line that `main` prints for a value. -/
def Quantity.line (q : Quantity) (value : Int) : String :=
  q.label ++ ld (value.tdiv 100) ++ "." ++ lu02 (value.tmod 100) ++ q.unit

/-- `%02x`. -/
def x02 (b : BitVec 8) : String :=
  String.ofList [Nat.digitChar (b.toNat / 16), Nat.digitChar (b.toNat % 16)]

/-- The three bytes as `main` prints them. -/
def Frame.text (data : Frame) : String :=
  x02 data.d0 ++ ":" ++ x02 data.d1 ++ ":" ++ x02 data.d2 ++ "\n"

/-- What `main` does after `request_raw` returned `error` for a quantity; returns `retval`. -/
def report (q : Quantity) (error : Int) (retval : Nat) : Io Nat := do
  let s ← Prog.get
  if error ≠ 0 then do
    eprintf ("failed to read " ++ q.name ++ " data\n")
    pure 1
  else if !validCrc s.data s.data.d2 then do
    eprintf ("CRC check failed for " ++ q.name ++ " data\n")
    eprintf s.data.text
    pure 1
  else do
    (if s.data.status &&& 1#8 ≠ 0#8 then eprintf "inconsistency: status bit zero is set\n"
      else pure ())
    (if q.statusWrong s.data.status then eprintf q.statusText else pure ())
    if s.data.raw = 0#16 then do
      eprintf ("read all zeroes: " ++ s.data.text)
      pure 1
    else do
      printf (q.line (q.value s.data.raw))
      pure retval

/-- `main` on an open device, with the program's own `request_raw`; returns `retval`. -/
def readings (holdMode : Bool) (requestRaw : BitVec 8 → Nat → Io Int) : Io Nat := do
  let error ← requestRaw (temperature.command holdMode) sizeofData
  let retval ← report temperature error 0
  let error ← requestRaw (humidity.command holdMode) sizeofData
  report humidity error retval

end Htu21
