import IoHacks.Lib.Query
import IoHacks.Mem.Gpio

/-!
# Register tools

`sio_tool.c` and `amd_intr_map_tool.c` read or write one byte-wide register: of a Super I/O chip
behind its driver, or of the interrupt map behind two I/O ports. They have the options and the
option loop of `amd_gpio_tool.c` (`Mode`, `setMode`, `notParsed`), and each operand goes through the
same three checks (`byteArg`).
-/

namespace Port

open Lib
open Mem (lu)
open Mem.Gpio (notParsed ulong)

/-! ## The environment -/

/-- `SUPERIO_CR_READ` and `SUPERIO_CR_WRITE`. -/
inductive CrReq where
  | crRead
  | crWrite
  deriving DecidableEq

/-- `struct superiocmd`; its members are of the type `uint8_t`. -/
structure SuperioCmd where
  ldn : BitVec 8
  cr : BitVec 8
  val : BitVec 8
  deriving DecidableEq

inductive Req where
  | openDev (path : String) (write : Bool)
  | ioctl (req : CrReq) (cmd : SuperioCmd)
  | outb (port : Nat) (byte : BitVec 8)
  | inb (port : Nat)
  | close
  | printf (text : String)
  | eprintf (text : String)
  | perror (text : String)
  deriving DecidableEq

/-- What a request writes to the standard output. -/
def Req.stdout : Req → Option String
  | .printf text => some text
  | _ => none

/-- An answer: whether the call failed, what the ioctl leaves in the structure, and the byte of an
`inb`. -/
structure Reply where
  failed : Bool
  cmd : SuperioCmd
  byte : BitVec 8
  deriving DecidableEq

/-- A device where no call fails; it leaves zeros. -/
def ready (_ : Req) : Reply := { failed := false, cmd := ⟨0#8, 0#8, 0#8⟩, byte := 0#8 }

abbrev Event := Req × Reply

abbrev Io := Query Req Reply

/-! ## The operands -/

def uint8Max : BitVec 64 := 255#64

/-- The operand with the index `i`, which `main` calls `name`. The second message has the first
operand whichever the index is. -/
def byteArg (name : String) (argv : List String) (i : Nat) : Except String (BitVec 8) :=
  match argv[i]? with
  | none => throw ("missing " ++ name ++ " argument\n")
  | some word =>
    let x := ulong word
    if notParsed word then throw ("failed to parse " ++ name ++ " " ++ argv.headD "" ++ "\n")
    else if uint8Max < x then throw (name ++ " " ++ lu x.toNat ++ " is out of range\n")
    else pure (x.setWidth 8)

/-! ## Programs that use the ports -/

/-- A `u_int` and a `u_char` that is assigned the result of `strtoul`. -/
def uInt (word : String) : BitVec 32 := (ulong word).setWidth 32

def uChar (word : String) : BitVec 8 := (ulong word).setWidth 8

def outb (port : Nat) (byte : BitVec 8) : Io Unit := do
  let _ ← Query.request (.outb port byte)
  pure ()

def inb (port : Nat) : Io (BitVec 8) := do
  let reply ← Query.request (.inb port)
  pure reply.byte

def printf (text : String) : Io Unit := do
  let _ ← Query.request (.printf text)
  pure ()

/-- Open `/dev/io`, access the ports and close it again. -/
def withIo (access : Io Unit) : Io Nat := do
  if (← Query.request (.openDev "/dev/io" false)).failed then
    let _ ← Query.request (.perror "open /dev/io")
    pure 1
  else
    access
    let _ ← Query.request .close
    pure 0

end Port
