import IoHacks.Lib.Trace
import IoHacks.Smb.FanCalibrate

/-!
# At most one fan is slowed down

A fan is at full speed when its PWM register has not been written or holds 0xff. The calibration of
a fan starts and ends with 0xff, so at every moment all fans but the one that was written last are
at full speed (`Tidy`), and all of them are when the program completes. A device access that fails
in the middle of a sweep ends the program with the last duty cycle in place.
-/

namespace Smb.FanCalibrate

open Lib Prog

/-! ## The registers -/

/-- What an event does to the content that the program knows of a register. -/
def heldStep (reg : BitVec 8) (content : Option (BitVec 8)) : Event → Option (BitVec 8)
  | (.writeB s cmd byte, .ok _) => if s = slave ∧ cmd = reg then some byte else content
  | _ => content

/-- The byte that was last written successfully to a register, if there is one. -/
def held (reg : BitVec 8) (evs : List Event) : Option (BitVec 8) := evs.foldl (heldStep reg) none

/-- The register has not been written, or holds 0xff. -/
def AtFullSpeed (reg : BitVec 8) (evs : List Event) : Prop := ∀ byte ∈ held reg evs, byte = 0xff#8

def lastStep (last : Option (BitVec 8)) : Event → Option (BitVec 8)
  | (.writeB _ cmd _, _) => some cmd
  | _ => last

/-- The register of the last attempt to write. -/
def lastWritten (evs : List Event) : Option (BitVec 8) := evs.foldl lastStep none

/-- At most one register that has been written holds something other than 0xff. -/
def OneSlowed (evs : List Event) : Prop :=
  ∀ reg reg', ¬AtFullSpeed reg evs → ¬AtFullSpeed reg' evs → reg = reg'

/-- Every register but the one of the last attempt to write is at full speed. -/
def Tidy (evs : List Event) : Prop := ∀ reg, lastWritten evs ≠ some reg → AtFullSpeed reg evs

theorem Tidy.oneSlowed {evs : List Event} (h : Tidy evs) : OneSlowed evs := by
  intro reg reg' hreg hreg'
  have hlast : lastWritten evs = some reg := by
    by_contra hne
    exact hreg (h reg hne)
  have hlast' : lastWritten evs = some reg' := by
    by_contra hne
    exact hreg' (h reg' hne)
  exact Option.some.inj (hlast.symm.trans hlast')

section
variable {evs : List Event} {reg reg' byte : BitVec 8} {reply : Reply}

theorem held_concat (e : Event) : held reg (evs ++ [e]) = heldStep reg (held reg evs) e := by
  rw [held, List.foldl_append]
  rfl

theorem lastWritten_concat (e : Event) :
    lastWritten (evs ++ [e]) = lastStep (lastWritten evs) e := by
  rw [lastWritten, List.foldl_append]
  rfl

/-- A write changes no other register. -/
theorem held_write_other (h : reg' ≠ reg) :
    held reg' (evs ++ [(.writeB slave reg byte, reply)]) = held reg' evs := by
  rw [held_concat]
  cases reply with
  | ok word => exact if_neg fun heq => h heq.2.symm
  | fail errno => rfl

theorem held_write_ok (word : BitVec 16) :
    held reg (evs ++ [(.writeB slave reg byte, .ok word)]) = some byte := by
  rw [held_concat]
  exact if_pos ⟨rfl, rfl⟩

end

/-! ## The accesses -/

def IsRead : Req → Prop
  | .writeB .. => False
  | _ => True

/-- Between two calibrations every register is at full speed. -/
structure Settled (evs : List Event) : Prop where
  tidy : Throughout Tidy evs
  full : ∀ reg, AtFullSpeed reg evs

/-- The register of the fan may be written. -/
structure Ready (fan : Fan) (evs : List Event) : Prop where
  tidy : Throughout Tidy evs
  others : ∀ reg, reg ≠ fan.pwm → AtFullSpeed reg evs

/-- The fan is being calibrated, and its register holds `byte`. -/
structure Calibrating (fan : Fan) (byte : BitVec 8) (evs : List Event) : Prop
    extends Ready fan evs where
  held : held fan.pwm evs = some byte

section
variable {evs : List Event} {fan : Fan} {byte : BitVec 8} {r : Req}

theorem Settled.ready (h : Settled evs) (fan : Fan) : Ready fan evs :=
  ⟨h.tidy, fun reg _ => h.full reg⟩

theorem Calibrating.settled (h : Calibrating fan 0xff#8 evs) : Settled evs := by
  refine ⟨h.tidy, fun reg => ?_⟩
  by_cases hreg : reg = fan.pwm
  · rw [AtFullSpeed, hreg, h.held]
    intro byte hbyte
    exact (Option.some.inj hbyte).symm
  · exact h.others reg hreg

section
variable (hr : IsRead r) (reply : Reply)
include hr

theorem held_read (reg : BitVec 8) : held reg (evs ++ [(r, reply)]) = held reg evs := by
  rw [held_concat]
  cases r with
  | writeB s cmd byte => exact hr.elim
  | _ => rfl

theorem lastWritten_read : lastWritten (evs ++ [(r, reply)]) = lastWritten evs := by
  rw [lastWritten_concat]
  cases r with
  | writeB s cmd byte => exact hr.elim
  | _ => rfl

theorem atFullSpeed_read (reg : BitVec 8) :
    AtFullSpeed reg (evs ++ [(r, reply)]) ↔ AtFullSpeed reg evs := by
  rw [AtFullSpeed, AtFullSpeed, held_read hr]

theorem tidy_read (h : Throughout Tidy evs) : Throughout Tidy (evs ++ [(r, reply)]) := by
  refine throughout_concat.2 ⟨h, fun reg hreg => ?_⟩
  rw [lastWritten_read hr] at hreg
  exact (atFullSpeed_read hr reply reg).2 (h.now reg hreg)

theorem Settled.read (h : Settled evs) : Settled (evs ++ [(r, reply)]) :=
  ⟨tidy_read hr reply h.tidy, fun reg => (atFullSpeed_read hr reply reg).2 (h.full reg)⟩

theorem Calibrating.read (h : Calibrating fan byte evs) :
    Calibrating fan byte (evs ++ [(r, reply)]) where
  tidy := tidy_read hr reply h.tidy
  others reg hreg := (atFullSpeed_read hr reply reg).2 (h.others reg hreg)
  held := (held_read hr reply fan.pwm).trans h.held

end

/-- An attempt to write the fan's register leaves the other registers alone. -/
theorem Ready.write (h : Ready fan evs) (byte : BitVec 8) (reply : Reply) :
    Ready fan (evs ++ [(.writeB slave fan.pwm byte, reply)]) := by
  have hothers : ∀ reg, reg ≠ fan.pwm →
      AtFullSpeed reg (evs ++ [(.writeB slave fan.pwm byte, reply)]) := by
    intro reg hreg
    rw [AtFullSpeed, held_write_other hreg]
    exact h.others reg hreg
  refine ⟨throughout_concat.2 ⟨h.tidy, fun reg hreg => hothers reg fun heq => hreg ?_⟩, hothers⟩
  rw [lastWritten_concat, heq]
  rfl

theorem Ready.calibrating (h : Ready fan evs) (byte : BitVec 8) (word : BitVec 16) :
    Calibrating fan byte (evs ++ [(.writeB slave fan.pwm byte, .ok word)]) :=
  ⟨h.write byte (.ok word), held_write_ok word⟩

end

/-! ## Preconditions -/

/-- What holds when a part of the program returns, and that the registers are tidy at every
moment, also when an access fails. -/
def tidyPost {α : Type} (R : α → List Event → State Unit → Prop) :
    Post Req Reply (State Unit) α where
  ret := R
  exit status evs _ := status = failure ∧ Throughout Tidy evs
  wait evs _ := Throughout Tidy evs

section
variable {α : Type} {R : α → List Event → State Unit → Prop} {evs : List Event}
  {s : State Unit} {fan : Fan} {byte : BitVec 8}

theorem wp_smbioctlReadB_bind {slave addr : BitVec 8} {f : BitVec 8 → Io Unit α}
    (h : Throughout Tidy evs)
    (hf : ∀ byte reply s, wp (f byte) (tidyPost R) (evs ++ [(.readB slave addr, reply)]) s) :
    wp (smbioctlReadB slave addr >>= f) (tidyPost R) evs s := by
  have hread : IsRead (.readB slave addr) := trivial
  refine wp_bind (wp_call_bind h (fun word => wp_pure (hf _ _ _)) fun errno => ?_)
  exact wp_eprintf_bind fun _ => wp_perror_bind fun _ => wp_exit ⟨rfl, tidy_read hread _ h⟩

theorem wp_smbioctlReadW_bind {slave addr : BitVec 8} {f : BitVec 16 → Io Unit α}
    (h : Throughout Tidy evs)
    (hf : ∀ word reply s, wp (f word) (tidyPost R) (evs ++ [(.readW slave addr, reply)]) s) :
    wp (smbioctlReadW slave addr >>= f) (tidyPost R) evs s := by
  have hread : IsRead (.readW slave addr) := trivial
  refine wp_bind (wp_call_bind h (fun word => wp_pure (hf _ _ _)) fun errno => ?_)
  exact wp_perror_bind fun _ => wp_eprintf_bind fun _ => wp_exit ⟨rfl, tidy_read hread _ h⟩

theorem wp_smbioctlWriteB_bind {f : Unit → Io Unit α} (h : Ready fan evs)
    (hf : ∀ evs s, Calibrating fan byte evs → wp (f ()) (tidyPost R) evs s) :
    wp (smbioctlWriteB slave fan.pwm byte >>= f) (tidyPost R) evs s := by
  refine wp_bind (wp_call_bind h.tidy (fun word => wp_pure (hf _ _ (h.calibrating byte word)))
    fun errno => ?_)
  exact wp_eprintf_bind fun _ => wp_perror_bind fun _ => wp_exit ⟨rfl, (h.write byte _).tidy⟩

/-- One duty cycle. -/
theorem wp_sample (h : Ready fan evs) (j : Nat) :
    wp (sample fan j) (tidyPost fun _ evs _ => Calibrating fan (BitVec.ofNat 8 j) evs) evs s := by
  refine wp_smbioctlWriteB_bind h fun evs s h => wp_pure_bind ?_
  refine wp_smbioctlReadB_bind h.tidy fun rawRpm reply s => ?_
  have hrpm := h.read (r := .readB slave fan.rpm) trivial reply
  refine wp_bind (wp_smbioctlReadW_bind hrpm.tidy fun t2 reply s => wp_pure ?_)
  have ht2 := hrpm.read (r := .readW auxSlave2 0x00#8) trivial reply
  refine wp_smbioctlReadB_bind ht2.tidy fun t1 reply s => wp_modify ?_
  exact ht2.read (r := .readB slave 0x27#8) trivial reply

/-- A sweep leaves the register at its last duty cycle. -/
theorem wp_sweep (js : List Nat) (h : Calibrating fan byte evs) :
    wp (sweep fan js)
      (tidyPost fun _ evs _ => Calibrating fan ((js.map (BitVec.ofNat 8)).getLastD byte) evs)
      evs s := by
  induction js generalizing byte evs s with
  | nil => exact wp_pure h
  | cons j js ih =>
    rw [List.map_cons, List.getLastD_cons]
    exact wp_seq (wp_sample h.toReady j) fun _ _ _ hj => ih hj

theorem up_last (byte : BitVec 8) : (up.map (BitVec.ofNat 8)).getLastD byte = 0xff#8 := by
  rw [up, List.range_succ, List.map_append]
  exact List.getLastD_concat

/-- **The calibration of a fan** ends at full speed. -/
theorem wp_calibrate (h : Settled evs) (fan : Fan) :
    wp (calibrate fan) (tidyPost fun _ evs _ => Settled evs) evs s := by
  refine wp_smbioctlWriteB_bind (h.ready fan) fun evs s hfull => wp_pure_bind ?_
  refine wp_seq (wp_sweep down hfull) fun _ evs s hdown => wp_pure_bind ?_
  refine wp_mono (wp_sweep up hdown) (fun _ evs _ hup => ?_) (fun _ _ _ => id) fun _ _ => id
  rw [up_last] at hup
  exact hup.settled

theorem wp_calibrateAll (fans : List Fan) (h : Settled evs) :
    wp (calibrateAll fans) (tidyPost fun _ evs _ => Settled evs) evs s := by
  induction fans generalizing evs s with
  | nil => exact wp_pure h
  | cons fan fans ih => exact wp_seq (wp_calibrate h fan) fun _ _ _ hfan => ih hfan

/-- The divisors are computed without an access. -/
theorem wp_setDivisors {cr5d cr47 cr4b : BitVec 8} (fans : List Fan) (h : Settled evs) :
    wp (setDivisors cr5d cr47 cr4b fans) (tidyPost fun _ evs _ => Settled evs) evs s := by
  induction fans generalizing s with
  | nil => exact wp_pure h
  | cons fan fans ih =>
    unfold setDivisors
    cases divisor cr5d cr47 cr4b fan.divno with
    | none => exact wp_eprintf_bind fun _ => wp_pure h
    | some div => exact wp_printf_bind fun _ => wp_seq ih fun _ _ _ hrest => wp_pure hrest

theorem wp_main (h : Settled evs) : wp main (tidyPost fun _ evs _ => Settled evs) evs s := by
  have hopened : ∀ reply, Settled (evs ++ [(.openDev smbDevName, reply)]) :=
    fun reply => h.read (r := .openDev smbDevName) trivial reply
  refine wp_call_bind h.tidy (fun word => ?_) fun errno =>
    wp_perror_bind fun _ => wp_pure (hopened _)
  refine wp_smbioctlReadB_bind (hopened _).tidy fun cr5d reply s => ?_
  have h5d := (hopened (.ok word)).read (r := .readB slave 0x5d#8) trivial reply
  refine wp_smbioctlReadB_bind h5d.tidy fun cr47 reply s => ?_
  have h47 := h5d.read (r := .readB slave 0x47#8) trivial reply
  refine wp_smbioctlReadB_bind h47.tidy fun cr4b reply s => ?_
  have h4b := h47.read (r := .readB slave 0x4b#8) trivial reply
  refine wp_seq (wp_setDivisors fans h4b) fun withDivisors evs s hdiv => ?_
  cases withDivisors with
  | none => exact wp_pure hdiv
  | some fans => exact wp_seq (wp_calibrateAll fans hdiv) fun _ _ _ hall => wp_pure hall

end

/-- No access so far. -/
theorem settled_nil : Settled [] := by
  have hfull : ∀ reg, AtFullSpeed reg [] := fun reg byte hbyte => by cases hbyte
  exact ⟨throughout_nil fun reg _ => hfull reg, hfull⟩

/-- **At most one fan is slowed down.** For all answers to the device accesses: at every moment at
most one register that has been written holds something other than 0xff. When `main` completes,
every fan is at full speed; when it exits, every fan is but at most the one whose register was
written last. -/
theorem main_fans (answers : List Reply) (s : State Unit) :
    Throughout OneSlowed (main answers s).events ∧
      (∀ status, (main answers s).outcome = .ret status →
        ∀ fan ∈ fans, AtFullSpeed fan.pwm (main answers s).events) ∧
      ∀ status, (main answers s).outcome = .exit status →
        status = failure ∧
        ∀ fan ∈ fans, lastWritten (main answers s).events ≠ some fan.pwm →
          AtFullSpeed fan.pwm (main answers s).events := by
  have hrun := (wp_main (s := s) settled_nil).run answers
  unfold Post.Holds at hrun
  cases ho : (main answers s).outcome with
  | ret status =>
    rw [ho] at hrun
    refine ⟨hrun.tidy.mono fun _ h => h.oneSlowed, fun _ _ fan _ => hrun.full fan.pwm, ?_⟩
    intro _ h
    cases h
  | exit status =>
    rw [ho] at hrun
    obtain ⟨hstatus, htidy⟩ := hrun
    refine ⟨htidy.mono fun _ h => h.oneSlowed, ?_, ?_⟩
    · intro _ h
      cases h
    · intro _ h
      cases h
      exact ⟨hstatus, fun fan _ hlast => htidy.now fan.pwm hlast⟩
  | wait =>
    rw [ho] at hrun
    have htidy : Throughout Tidy (main answers s).events := hrun
    refine ⟨htidy.mono fun _ h => h.oneSlowed, ?_, ?_⟩ <;>
      · intro _ h
        cases h

/-- The answers to a run that calibrates the first fan, sets the duty cycle 0xfe of the second one
and then fails to read its speed: four calls before the fans, and 2049 for the first one. -/
def failingSecond : List Reply := List.replicate (4 + 2049 + 6) (.ok 0) ++ [.fail 5]

theorem failingSecond_run :
    (main failingSecond (State.start ())).outcome = .exit failure ∧
      lastWritten (main failingSecond (State.start ())).events = some 0x5f#8 ∧
      held 0x5b#8 (main failingSecond (State.start ())).events = some 0xff#8 ∧
      held 0x5f#8 (main failingSecond (State.start ())).events = some 0xfe#8 := by decide +kernel

/-- The fan that has been calibrated is at full speed then. -/
theorem main_fans_failing :
    OneSlowed (main failingSecond (State.start ())).events ∧
      AtFullSpeed 0x5b#8 (main failingSecond (State.start ())).events ∧
      held 0x5b#8 (main failingSecond (State.start ())).events = some 0xff#8 ∧
      held 0x5f#8 (main failingSecond (State.start ())).events = some 0xfe#8 := by
  obtain ⟨hexit, hlast, hfirst, hsecond⟩ := failingSecond_run
  obtain ⟨honce, -, hexits⟩ := main_fans failingSecond (State.start ())
  obtain ⟨chassis, hfan, hpwm⟩ : ∃ fan ∈ fans, fan.pwm = 0x5b#8 := ⟨_, List.mem_cons_self, rfl⟩
  have hfull := (hexits failure hexit).2 chassis hfan (by rw [hlast, hpwm]; decide)
  rw [hpwm] at hfull
  exact ⟨honce.now, hfull, hfirst, hsecond⟩

/-- The answers to a run that sets the duty cycle 0xfe of the first fan and then fails to read its
speed. -/
def failingSweep : List Reply :=
  [.ok 0, .ok 0, .ok 0, .ok 0, .ok 0, .ok 0, .ok 0x80, .ok 0, .ok 0, .ok 0, .fail 5]

/-- An access that fails in the middle of a sweep leaves the fan slowed down. -/
theorem exits_slowed :
    ¬∀ (answers : List Reply) (s : State Unit), (main answers s).outcome ≠ .wait →
      ∀ fan ∈ fans, AtFullSpeed fan.pwm (main answers s).events := by
  intro h
  have hexit : (main failingSweep (State.start ())).outcome = .exit failure := by decide +kernel
  have hheld : held 0x5b#8 (main failingSweep (State.start ())).events = some 0xfe#8 := by
    decide +kernel
  have hfull := h failingSweep (State.start ()) (by rw [hexit]; exact fun hw => by cases hw) _
    List.mem_cons_self
  cases hfull 0xfe#8 hheld

end Smb.FanCalibrate
