import IoHacks.Lib.Run

/-!
# The I2C device of the HTU21 programs

The environment of `htu21-query.c` and `htu21-query.low-level.c`: the device file with its ioctls.
A request has all that the kernel reads from the caller's structures, an answer says that the call
succeeded or failed with some `errno`, and what is in the receiving buffer afterwards. `usleep`
does nothing here.
-/

namespace Htu21

open Lib

/-- `uint8_t data[3]`. -/
structure Frame where
  d0 : BitVec 8
  d1 : BitVec 8
  d2 : BitVec 8
  deriving DecidableEq, Inhabited

/-- The frame after `count` bytes are stored in it. -/
def Frame.fill (count : Nat) (bytes data : Frame) : Frame where
  d0 := if 0 < count then bytes.d0 else data.d0
  d1 := if 1 < count then bytes.d1 else data.d1
  d2 := if 2 < count then bytes.d2 else data.d2

/-! ## Requests -/

/-- What a `buf` member points to. -/
inductive Buf where
  | null
  | cmd (byte : BitVec 8)
  | data
  deriving DecidableEq

/-- `struct iiccmd`. -/
structure IicCmd where
  slave : Nat
  count : Nat
  last : Nat
  buf : Buf
  deriving DecidableEq

/-- `struct iic_msg`. -/
structure IicMsg where
  slave : Nat
  flags : Nat
  len : Nat
  buf : Buf
  deriving DecidableEq

def iicMWr : Nat := 0
def iicMRd : Nat := 1
def iicMNoStop : Nat := 2

inductive Ioctl where
  | start (req : IicCmd)
  | rptstart (req : IicCmd)
  | write (req : IicCmd)
  | read (req : IicCmd)
  | stop
  | rdwr (msgs : List IicMsg)
  deriving DecidableEq

/-- How many bytes an ioctl stores in `data`. -/
def Ioctl.received : Ioctl → Option Nat
  | .read req => if req.buf = .data then some req.count else none
  | .rdwr msgs =>
    (msgs.find? fun msg => decide (msg.flags &&& iicMRd ≠ 0 ∧ msg.buf = .data)).map (·.len)
  | _ => none

/-- A system call with its arguments. -/
inductive Req where
  | openDev (path : String)
  | ioctl (i : Ioctl)
  deriving DecidableEq

/-- A system call succeeds, or fails with an `errno`; a receiving buffer holds `bytes` then. -/
inductive Reply where
  | ok (bytes : Frame)
  | fail (errno : Nat) (bytes : Frame)
  deriving DecidableEq

abbrev Event := Req × Reply

/-! ## Programs -/

/-- The program's memory and output. -/
structure State where
  errno : Nat
  data : Frame
  stdout : List String
  stderr : List String
  deriving DecidableEq

/-- The start of a program; `data` is what is on the stack. -/
def State.start (data : Frame) : State := { errno := 0, data, stdout := [], stderr := [] }

abbrev Io := Prog Req Reply State

def enodev : Nat := 19

/-- Store what an ioctl received. -/
def State.receive (s : State) (i : Ioctl) (bytes : Frame) : State :=
  match i.received with
  | some count => { s with data := bytes.fill count s.data }
  | none => s

def ioctl (i : Ioctl) : Io Int := do
  match ← Prog.ask (.ioctl i) with
  | .ok bytes =>
    Prog.modify fun s => s.receive i bytes
    pure 0
  | .fail errno bytes =>
    Prog.modify fun s => { s.receive i bytes with errno }
    pure (-1)

/-- `open`; of the descriptor only the -1 of a failure matters. -/
def openDev (path : String) : Io Int := do
  match ← Prog.ask (.openDev path) with
  | .ok _ => pure 0
  | .fail errno _ =>
    Prog.modify fun s => { s with errno }
    pure (-1)

def printf (text : String) : Io Unit := Prog.modify fun s => { s with stdout := s.stdout ++ [text] }

def eprintf (text : String) : Io Unit :=
  Prog.modify fun s => { s with stderr := s.stderr ++ [text] }

/-- A message with `errno` at its end. -/
def eprintfErrno (text : String) : Io Unit := do
  let s ← Prog.get
  eprintf (text ++ toString s.errno ++ "\n")

def err {α : Type} (status : Nat) (text : String) : Io α := do
  eprintf text
  Prog.exit status

def usleep (_microseconds : Nat) : Io Unit := pure ()

end Htu21
