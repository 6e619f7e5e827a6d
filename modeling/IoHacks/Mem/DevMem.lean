import IoHacks.Lib.Query
import IoHacks.Lib.Strtoul

/-!
# Programs on `/dev/mem`

`amd_gpio_tool.c`, `ioapic.c` and `ioapic_wr.c` map a window of physical memory and access its
32-bit words. A program is a `Query` program over its system calls, its accesses to the window and
its output; a word is named by its index in the mapping.
-/

namespace Mem

open Lib

/-- The environment of the programs; `off_t` and `size_t` arguments are numbers. -/
inductive Req where
  | openMem
  | mmap (length : Nat) (write : Bool) (addr : Nat)
  | load (index : Nat)
  | store (index : Nat) (value : BitVec 32)
  | munmap (length : Nat)
  | close
  | printf (text : String)
  | eprintf (text : String)
  | perror (text : String)
  deriving DecidableEq

/-- An answer: whether the call failed, and the word that was loaded. -/
structure Reply where
  failed : Bool
  word : BitVec 32
  deriving DecidableEq

/-- Every call succeeds and every word is zero. -/
def ready (_ : Req) : Reply := { failed := false, word := 0#32 }

abbrev Event := Req × Reply

abbrev Io := Query Req Reply

/-- Issue a request whose answer is not looked at. -/
def call (r : Req) : Io Unit := do
  let _ ← Query.request r
  pure ()

def load (index : Nat) : Io (BitVec 32) := do
  let reply ← Query.request (.load index)
  pure reply.word

def store (index : Nat) (value : BitVec 32) : Io Unit := call (.store index value)

/-- A message on standard error, without or with the error that `errno` names. -/
inductive Message where
  | plain (text : String)
  | errno (text : String)
  deriving DecidableEq

def Message.req : Message → Req
  | .plain text => .eprintf text
  | .errno text => .perror text

/-- Open `/dev/mem`, map the window and access it; the two calls are the only ones checked. -/
def withWindow (length : Nat) (write : Bool) (addr : Nat) (access : Io Nat) : Io Nat := do
  if (← Query.request .openMem).failed then
    call (.perror "/dev/mem")
    pure 1
  else if (← Query.request (.mmap length write addr)).failed then
    call (.perror "mmap")
    pure 1
  else access

/-- An access to the window. -/
def Req.IsAccess : Req → Prop
  | .load _ => True
  | .store _ _ => True
  | _ => False

theorem Message.not_isAccess (m : Message) : ¬m.req.IsAccess := by
  cases m <;> exact id

/-! ## Runs -/

section
variable {α : Type} {evs : List Event} {a : α}

@[simp] theorem runs_call_bind {r : Req} {f : Unit → Io α} :
    Query.Runs (call r >>= f) evs a ↔
      ∃ x evs', evs = (r, x) :: evs' ∧ Query.Runs (f ()) evs' a := Query.runs_request_bind

@[simp] theorem runs_load_bind {index : Nat} {f : BitVec 32 → Io α} :
    Query.Runs (load index >>= f) evs a ↔
      ∃ x evs', evs = (.load index, x) :: evs' ∧ Query.Runs (f x.word) evs' a :=
  Query.runs_request_bind

@[simp] theorem runs_store_bind {index : Nat} {value : BitVec 32} {f : Unit → Io α} :
    Query.Runs (store index value >>= f) evs a ↔
      ∃ x evs', evs = (.store index value, x) :: evs' ∧ Query.Runs (f ()) evs' a :=
  runs_call_bind

/-- A message instead of the access. -/
theorem runs_message {r : Req} (hr : ¬r.IsAccess) {status status' : Nat}
    (h : Query.Runs (do call r; pure status' : Io Nat) evs status) :
    ∀ e ∈ evs, ¬e.1.IsAccess := by
  obtain ⟨x, rfl, -⟩ := Query.runs_request_pure.1 h
  intro e he
  rwa [List.mem_singleton.1 he]

/-- **The window is accessed** only after `/dev/mem` was opened and mapped. -/
theorem runs_withWindow {length addr : Nat} {write : Bool} {access : Io Nat} {status : Nat}
    (h : Query.Runs (withWindow length write addr access) evs status) :
    (∀ e ∈ evs, ¬e.1.IsAccess) ∨
      ∃ x y evs', evs = (.openMem, x) :: (.mmap length write addr, y) :: evs' ∧
        Query.Runs access evs' status := by
  unfold withWindow at h
  obtain ⟨x, evs, rfl, hopened⟩ := Query.runs_request_bind.1 h
  split at hopened
  · exact .inl (List.forall_mem_cons.2 ⟨id, runs_message id hopened⟩)
  · obtain ⟨y, evs, rfl, hmapped⟩ := Query.runs_request_bind.1 hopened
    split at hmapped
    · have hmessage := runs_message id hmapped
      exact .inl (List.forall_mem_cons.2 ⟨id, List.forall_mem_cons.2 ⟨id, hmessage⟩⟩)
    · exact .inr ⟨x, y, evs, rfl, hmapped⟩

end

/-- The run of a program where every call succeeds. -/
def readyRun (p : Io Nat) : List Event := (p.trace ready).map fun r => (r, ready r)

/-! ## Texts -/

/-- The text that a request puts on standard output. -/
def Req.stdout : Req → Option String
  | .printf text => some text
  | _ => none

/-- `%lu`. -/
def lu (n : Nat) : String := toString n

/-- `%x` of at least `width` digits, as `%0<width>x`. -/
def hex (width n : Nat) : String :=
  let digits := Nat.toDigits 16 n
  String.ofList (List.replicate (width - digits.length) '0' ++ digits)

end Mem
