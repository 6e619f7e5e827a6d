import IoHacks.Lib.Serve
import IoHacks.Smb.Tools

/-!
# A bus with registers

The slaves on the bus have registers that change by the writes only. What a read gives is a function
of their contents, and may be a failure; so is whether a write of a byte fails, and one that does
changes nothing. `Does` says what a program prints on such a bus, how it ends and what the registers
contain then; `Fails` says that it ends by a call that failed.
-/

namespace Smb

open Lib

/-- What the registers of the slaves contain. -/
abbrev Regs := BitVec 8 → BitVec 8 → BitVec 8

def Regs.set (regs : Regs) (slave cmd byte : BitVec 8) : Regs := fun s c =>
  if s = slave ∧ c = cmd then byte else regs s c

structure Bus where
  readB : Regs → BitVec 8 → BitVec 8 → Reply
  readW : Regs → BitVec 8 → BitVec 8 → Reply
  /-- The errno of a write of a byte to a register that fails. -/
  writeB : Regs → BitVec 8 → BitVec 8 → BitVec 8 → Option Nat

def Bus.step (bus : Bus) : Req → Regs → Reply × Regs
  | .openDev _, regs => (.ok 0, regs)
  | .readB slave cmd, regs => (bus.readB regs slave cmd, regs)
  | .readW slave cmd, regs => (bus.readW regs slave cmd, regs)
  | .writeB slave cmd byte, regs =>
    match bus.writeB regs slave cmd byte with
    | none => (.ok 0, regs.set slave cmd byte)
    | some errno => (.fail errno, regs)

/-- On the bus, the program prints the texts, ends as `o` says and leaves `regs'`. -/
def Does {ν α : Type} (bus : Bus) (p : Io ν α) (regs : Regs) (texts : List String) (o : Outcome α)
    (regs' : Regs) : Prop :=
  ∀ s, Leads bus.step p s regs fun o' s' d' => o' = o ∧ s'.stdout = s.stdout ++ texts ∧ d' = regs'

/-- On the bus, the program prints the texts and exits after a call that failed, with the registers
`regs'`. -/
def Fails {ν α : Type} (bus : Bus) (p : Io ν α) (regs : Regs) (texts : List String)
    (regs' : Regs) : Prop :=
  ∀ s, ∃ r errno s', Stops bus.step p s regs (r, .fail errno) failure s' regs' ∧
    s'.stdout = s.stdout ++ texts

section
variable {ν α β : Type} {bus : Bus} {regs regs' regs'' : Regs} {texts texts' : List String}

@[simp] theorem regs_set (regs : Regs) (slave cmd byte : BitVec 8) :
    regs.set slave cmd byte slave cmd = byte := if_pos ⟨rfl, rfl⟩

/-- Another write replaces the first one. -/
@[simp] theorem set_set (regs : Regs) (slave cmd byte byte' : BitVec 8) :
    (regs.set slave cmd byte).set slave cmd byte' = regs.set slave cmd byte' := by
  funext s c
  unfold Regs.set
  split <;> rfl

theorem set_self (regs : Regs) (slave cmd : BitVec 8) :
    regs.set slave cmd (regs slave cmd) = regs := by
  funext s c
  unfold Regs.set
  split
  · rename_i h
    rw [h.1, h.2]
  · rfl

/-! ## Rules -/

theorem does_pure (a : α) : Does bus (pure a : Io ν α) regs [] (.ret a) regs :=
  fun _ => .pure ⟨rfl, (List.append_nil _).symm, rfl⟩

theorem Does.bind {p : Io ν α} {f : α → Io ν β} {a : α} {o : Outcome β}
    (hp : Does bus p regs texts (.ret a) regs') (hf : Does bus (f a) regs' texts' o regs'') :
    Does bus (p >>= f) regs (texts ++ texts') o regs'' := by
  intro s
  obtain ⟨_, s', _, hserves, rfl, hout, rfl⟩ := hp s
  obtain ⟨_, s'', _, hserves', rfl, hout', rfl⟩ := hf s'
  refine ⟨_, s'', _, hserves.bind hserves', rfl, ?_, rfl⟩
  rw [hout', hout, List.append_assoc]

/-- A first part that prints nothing. -/
theorem Does.after {p : Io ν α} {f : α → Io ν β} {a : α} {o : Outcome β}
    (hp : Does bus p regs [] (.ret a) regs') (hf : Does bus (f a) regs' texts o regs'') :
    Does bus (p >>= f) regs texts o regs'' := hp.bind hf

theorem Does.bind_exit {p : Io ν α} {f : α → Io ν β} {status : Nat}
    (hp : Does bus p regs texts (.exit status) regs') :
    Does bus (p >>= f) regs texts (.exit status) regs' := by
  intro s
  obtain ⟨_, s', _, hserves, rfl, hout, rfl⟩ := hp s
  exact ⟨_, s', _, hserves.bind_exit, rfl, hout, rfl⟩

theorem does_printf (text : String) :
    Does bus (printf text : Io ν Unit) regs [text] (.ret ()) regs :=
  fun s => ⟨_, _, _, Serves.modify _ s regs, rfl, rfl, rfl⟩

theorem does_eprintf (text : String) : Does bus (eprintf text : Io ν Unit) regs [] (.ret ()) regs :=
  fun s => ⟨_, _, _, Serves.modify _ s regs, rfl, (List.append_nil _).symm, rfl⟩

theorem does_perror (text : String) : Does bus (perror text : Io ν Unit) regs [] (.ret ()) regs :=
  fun s => ⟨_, _, _, (Serves.get s regs).bind (Serves.modify _ s regs), rfl,
    (List.append_nil _).symm, rfl⟩

theorem does_exit (status : Nat) :
    Does bus (Prog.exit status : Io ν α) regs [] (.exit status) regs :=
  fun s => ⟨_, s, _, Serves.exit status s regs, rfl, (List.append_nil _).symm, rfl⟩

/-- The word of a reply. -/
def Reply.word : Reply → Option (BitVec 16)
  | .ok word => some word
  | .fail _ => none

theorem does_call {r : Req} {reply : Reply} (h : bus.step r regs = (reply, regs')) :
    Does bus (call r : Io ν _) regs [] (.ret reply.word) regs' := by
  intro s
  unfold call
  refine .after (Serves.ask r s regs) ?_
  rw [h]
  cases reply with
  | ok word => exact .pure ⟨rfl, (List.append_nil _).symm, rfl⟩
  | fail errno =>
    exact .after (Serves.modify _ s _) (.pure ⟨rfl, (List.append_nil _).symm, rfl⟩)

section
variable {f : Option (BitVec 16) → Io ν α} {o : Outcome α} {slave cmd byte : BitVec 8}

/-- A program on the open device. -/
theorem does_open {path : String} (h : Does bus (f (some 0)) regs texts o regs') :
    Does bus (call (.openDev path) >>= f) regs texts o regs' := (does_call rfl).after h

theorem does_read (h : Does bus (f (bus.readB regs slave cmd).word) regs texts o regs') :
    Does bus (call (.readB slave cmd) >>= f) regs texts o regs' := (does_call rfl).after h

/-- A write that succeeds. -/
theorem does_write (hwrite : bus.writeB regs slave cmd byte = none)
    (h : Does bus (f (some 0)) (regs.set slave cmd byte) texts o regs') :
    Does bus (call (.writeB slave cmd byte) >>= f) regs texts o regs' := by
  have hstep : bus.step (.writeB slave cmd byte) regs = (.ok 0, regs.set slave cmd byte) := by
    rw [Bus.step, hwrite]
  exact (does_call hstep).after h

/-- A write that fails. -/
theorem does_write_fail {errno : Nat} (hwrite : bus.writeB regs slave cmd byte = some errno)
    (h : Does bus (f none) regs texts o regs') :
    Does bus (call (.writeB slave cmd byte) >>= f) regs texts o regs' := by
  have hstep : bus.step (.writeB slave cmd byte) regs = (.fail errno, regs) := by
    rw [Bus.step, hwrite]
  exact (does_call hstep).after h

end

/-! ## Failures -/

theorem Fails.bind {p : Io ν α} {f : α → Io ν β} (hp : Fails bus p regs texts regs') :
    Fails bus (p >>= f) regs texts regs' := by
  intro s
  obtain ⟨r, errno, s', hstops, hout⟩ := hp s
  exact ⟨r, errno, s', hstops.bind, hout⟩

/-- A first part that returns. -/
theorem Does.fails {p : Io ν α} {f : α → Io ν β} {a : α} (hp : Does bus p regs texts (.ret a) regs')
    (hf : Fails bus (f a) regs' texts' regs'') :
    Fails bus (p >>= f) regs (texts ++ texts') regs'' := by
  intro s
  obtain ⟨_, s', _, hserves, rfl, hout, rfl⟩ := hp s
  obtain ⟨r, errno, s'', hstops, hout'⟩ := hf s'
  refine ⟨r, errno, s'', .after hserves hstops, ?_⟩
  rw [hout', hout, List.append_assoc]

/-- The program exits without a call, and what it prints goes to standard error. -/
def Quits (p : Io ν α) : Prop :=
  ∀ s, ∃ s', (∀ rest, p rest s =
    { outcome := .exit failure, events := [], answers := rest, state := s' }) ∧
    s'.stdout = s.stdout

theorem quits_exit : Quits (Prog.exit failure : Io ν α) := fun s => ⟨s, fun _ => rfl, rfl⟩

theorem Quits.eprintf {text : String} {f : Unit → Io ν α} (h : Quits (f ())) :
    Quits (eprintf text >>= f) := by
  intro s
  obtain ⟨s', hrun, hout⟩ := h { s with stderr := s.stderr ++ [text] }
  refine ⟨s', fun rest => ?_, hout⟩
  rw [Prog.bind_of_ret (p := Smb.eprintf text) rfl, hrun]
  rfl

theorem Quits.perror {text : String} {f : Unit → Io ν α} (h : Quits (f ())) :
    Quits (perror text >>= f) := by
  intro s
  obtain ⟨s', hrun, hout⟩ := Quits.eprintf (f := f) h s
  exact ⟨s', hrun, hout⟩

/-- A call that fails, before the end of the program. -/
theorem fails_call {r : Req} {errno : Nat} {f : Option (BitVec 16) → Io ν α}
    (h : bus.step r regs = (.fail errno, regs')) (hf : Quits (f none)) :
    Fails bus (call r >>= f) regs [] regs' := by
  intro s
  obtain ⟨s', hend, hout⟩ := hf { s with errno }
  have hcall : ∀ rest, call r (.fail errno :: rest) s =
      { outcome := .ret none, events := [(r, .fail errno)], answers := rest
        state := { s with errno } } := fun _ => rfl
  refine ⟨r, errno, s', .last h hcall hend, ?_⟩
  rw [hout, List.append_nil]

end

end Smb
