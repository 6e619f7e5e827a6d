import IoHacks.Lib.Run
import Mathlib.Algebra.Group.Int.Defs

/-!
# The SMBus device of the fan programs

The environment of `smb_tune_reg.c` and `fan_calibrate.c`: the device `/dev/smb0` with its ioctls.
An answer says that the call succeeded, with the data that was read, or failed with some `errno`.
The sleeps do nothing here, `close` at the end of the programs is left out, and a message of
`perror` ends with the number of the error.
-/

namespace Smb

open Lib

/-- A system call with its arguments; `slave` and `cmd` are as `struct smbcmd` has them. -/
inductive Req where
  | openDev (path : String)
  | readB (slave cmd : BitVec 8)
  | readW (slave cmd : BitVec 8)
  | writeB (slave cmd byte : BitVec 8)
  deriving DecidableEq

/-- A system call succeeds, or fails with an `errno`; a byte that is read is the low one of
`word`. -/
inductive Reply where
  | ok (word : BitVec 16)
  | fail (errno : Nat)
  deriving DecidableEq

abbrev Event := Req × Reply

/-- The program's output, and the variables `ν` that its loops change. -/
structure State (ν : Type) where
  errno : Nat
  stdout : List String
  stderr : List String
  vars : ν

def State.start {ν : Type} (vars : ν) : State ν := { errno := 0, stdout := [], stderr := [], vars }

abbrev Io (ν : Type) := Prog Req Reply (State ν)

variable {ν : Type}

/-- Issue a system call: what it read, or `none` for the -1 of a failure. -/
def call (r : Req) : Io ν (Option (BitVec 16)) := do
  match ← Prog.ask r with
  | .ok word => pure (some word)
  | .fail errno =>
    Prog.modify fun s => { s with errno }
    pure none

def printf (text : String) : Io ν Unit :=
  Prog.modify fun s => { s with stdout := s.stdout ++ [text] }

def eprintf (text : String) : Io ν Unit :=
  Prog.modify fun s => { s with stderr := s.stderr ++ [text] }

def perror (text : String) : Io ν Unit := do
  let s ← Prog.get
  eprintf (text ++ ": " ++ toString s.errno ++ "\n")

/-- The status of `exit(-1)`. -/
def failure : Nat := 255

def sleep (_seconds : Nat) : Io ν Unit := pure ()

def usleep (_microseconds : Nat) : Io ν Unit := pure ()

/-! ## Texts -/

/-- `%u` of an `int`. -/
def u (n : Int) : String := toString (n % 2 ^ 32).toNat

/-- `%#x`. -/
def hashX (n : Nat) : String :=
  if n = 0 then "0" else "0x" ++ String.ofList (Nat.toDigits 16 n)

/-- `%#02x` of an `int`. -/
def hash02x (n : Int) : String :=
  if n % 2 ^ 32 = 0 then "00" else hashX (n % 2 ^ 32).toNat

/-! ## Runs -/

theorem call_ok (r : Req) (word : BitVec 16) (answers : List Reply) (s : State ν) :
    call r (.ok word :: answers) s =
      { outcome := .ret (some word), events := [(r, .ok word)], answers, state := s } := rfl

/-! ## Preconditions -/

section
variable {α : Type} {Q : Prog.Post Req Reply (State ν) α} {evs : List Event} {s : State ν}

open Prog

/-- A call may succeed or fail, and the program goes on accordingly. -/
theorem wp_call_bind {r : Req} {f : Option (BitVec 16) → Io ν α} (hw : Q.wait evs s)
    (hok : ∀ word, wp (f (some word)) Q (evs ++ [(r, .ok word)]) s)
    (hfail : ∀ errno, wp (f none) Q (evs ++ [(r, .fail errno)]) { s with errno }) :
    wp (call r >>= f) Q evs s := by
  refine wp_bind (wp_bind (wp_ask hw fun reply => ?_))
  cases reply with
  | ok word => exact wp_pure (hok word)
  | fail errno => exact wp_bind (wp_modify (wp_pure (hfail errno)))

/-- Messages, a sleep or the end of the program after them change no events. -/
theorem wp_printf_bind {text : String} {f : Unit → Io ν α} (h : ∀ s, wp (f ()) Q evs s) :
    wp (printf text >>= f) Q evs s := wp_bind (wp_modify (h _))

theorem wp_eprintf_bind {text : String} {f : Unit → Io ν α} (h : ∀ s, wp (f ()) Q evs s) :
    wp (eprintf text >>= f) Q evs s := wp_bind (wp_modify (h _))

theorem wp_perror_bind {text : String} {f : Unit → Io ν α} (h : ∀ s, wp (f ()) Q evs s) :
    wp (perror text >>= f) Q evs s := wp_bind (wp_bind (wp_get (wp_modify (h _))))

end

end Smb
