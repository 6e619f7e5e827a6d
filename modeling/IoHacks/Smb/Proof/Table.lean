import IoHacks.Smb.Proof.Device
import IoHacks.Smb.Proof.FanCalibrate

/-!
# The calibration table

On a bus whose registers change by the writes only, a row of the table that `fan_calibrate` prints
does not depend on the rows before it: it shows what the monitor says when the fan has the duty
cycle of the row, and the fans before it are at full speed. `main_table`: the program prints the
table with both sweeps of each fan and leaves the fans at full speed, or an access fails and it has
printed a first part of that table.
-/

namespace Smb.FanCalibrate

open Lib

/-! ## The table -/

section
variable (bus : Bus) (regs : Regs)

/-- The bytes and words that the monitor gives; those of a failure are never shown. -/
def byteAt (slave addr : BitVec 8) : BitVec 8 :=
  ((bus.readB regs slave addr).word.getD 0).setWidth 8

def wordAt (slave addr : BitVec 8) : BitVec 16 := (bus.readW regs slave addr).word.getD 0

/-- The row of a duty cycle. -/
def row (fan : Fan) (j : Nat) : String :=
  let regs := regs.set slave fan.pwm (BitVec.ofNat 8 j)
  let rawRpm := byteAt bus regs slave fan.rpm
  let t2 := ((wordAt bus regs auxSlave2 0x00#8 &&& 0xFFFF#16) &&& 0xFF#16).setWidth 8
  u j ++ "\t" ++ u rawRpm.toNat ++ "\t" ++ u (toRpm rawRpm fan.div) ++ "\t" ++
    u (byteAt bus regs slave 0x27#8).toNat ++ "\t" ++ u t2.toNat ++ "\n"

/-- The fan at full speed. -/
def atFull (regs : Regs) (fan : Fan) : Regs := regs.set slave fan.pwm 0xff#8

/-- The rows of the fans, one after the other. -/
def table : Regs → List Fan → List String
  | _, [] => []
  | regs, fan :: fans => (down ++ up).map (row bus regs fan) ++ table (atFull regs fan) fans

/-- The divisor of a fan, and the line about it. -/
def fanDivisor (fan : Fan) : BitVec 8 :=
  (divisor (byteAt bus regs slave 0x5d#8) (byteAt bus regs slave 0x47#8)
    (byteAt bus regs slave 0x4b#8) fan.divno).getD 0

def withDivisor (fan : Fan) : Fan := { fan with div := fanDivisor bus regs fan }

def divisorLine (fan : Fan) : String :=
  "div = " ++ u (fanDivisor bus regs fan).toNat ++ " (" ++
    u (2 ^ (fanDivisor bus regs fan).toNat) ++ ") for fan " ++ fan.name ++ "\n"

end

/-! ## Printing it -/

/-- The part of the program prints the texts and leaves `regs'`, or one of its accesses fails and it
exits with a first part of the texts. -/
def Prints {α : Type} (bus : Bus) (p : Io Unit α) (regs : Regs) (texts : List String) (a : α)
    (regs' : Regs) : Prop :=
  Does bus p regs texts (.ret a) regs' ∨
    ∃ first regs'', first <+: texts ∧ Fails bus p regs first regs''

section
variable {α β : Type} {bus : Bus} {regs regs' regs'' : Regs} {texts texts' : List String}

theorem Prints.bind {p : Io Unit α} {f : α → Io Unit β} {a : α} {b : β}
    (hp : Prints bus p regs texts a regs') (hf : Prints bus (f a) regs' texts' b regs'') :
    Prints bus (p >>= f) regs (texts ++ texts') b regs'' := by
  rcases hp with hp | ⟨first, regs₁, hfirst, hp⟩
  · rcases hf with hf | ⟨first, regs₁, hfirst, hf⟩
    · exact .inl (hp.bind hf)
    · exact .inr ⟨texts ++ first, regs₁, (List.prefix_append_right_inj texts).2 hfirst, hp.fails hf⟩
  · exact .inr ⟨first, regs₁, hfirst.trans (List.prefix_append ..), hp.bind⟩

/-- A first part that prints nothing. -/
theorem Prints.after {p : Io Unit α} {f : α → Io Unit β} {a : α} {b : β}
    (hp : Prints bus p regs [] a regs') (hf : Prints bus (f a) regs' texts b regs'') :
    Prints bus (p >>= f) regs texts b regs'' := hp.bind hf

theorem prints_pure (a : α) : Prints bus (pure a) regs [] a regs := .inl (does_pure a)

theorem prints_printf (text : String) : Prints bus (printf text) regs [text] () regs :=
  .inl (does_printf text)

/-- An access that fails. -/
theorem prints_fail {r : Req} {errno : Nat} {f : Option (BitVec 16) → Io Unit α} {a : α}
    (h : bus.step r regs = (.fail errno, regs)) (hf : Quits (f none)) :
    Prints bus (call r >>= f) regs [] a regs' :=
  .inr ⟨[], regs, List.prefix_rfl, fails_call h hf⟩

theorem prints_readB (slave addr : BitVec 8) :
    Prints bus (smbioctlReadB slave addr) regs [] (byteAt bus regs slave addr) regs := by
  unfold byteAt
  cases hr : bus.readB regs slave addr with
  | ok word => exact .inl (does_read (by rw [hr]; exact does_pure _))
  | fail errno =>
    have hstep : bus.step (.readB slave addr) regs = (.fail errno, regs) := by rw [Bus.step, hr]
    exact prints_fail hstep (.eprintf (.perror quits_exit))

theorem prints_readW (slave addr : BitVec 8) :
    Prints bus (smbioctlReadW slave addr) regs [] (wordAt bus regs slave addr &&& 0xFFFF#16)
      regs := by
  unfold wordAt
  cases hr : bus.readW regs slave addr with
  | ok word =>
    have hstep : bus.step (.readW slave addr) regs = (.ok word, regs) := by rw [Bus.step, hr]
    exact .inl ((does_call hstep).after (does_pure _))
  | fail errno =>
    have hstep : bus.step (.readW slave addr) regs = (.fail errno, regs) := by rw [Bus.step, hr]
    exact prints_fail hstep (.perror (.eprintf quits_exit))

theorem prints_writeB (slave addr byte : BitVec 8) :
    Prints bus (smbioctlWriteB slave addr byte) regs [] () (regs.set slave addr byte) := by
  cases hwrite : bus.writeB regs slave addr byte with
  | none => exact .inl (does_write hwrite (does_pure _))
  | some errno =>
    have hstep : bus.step (.writeB slave addr byte) regs = (.fail errno, regs) := by
      rw [Bus.step, hwrite]
    exact prints_fail hstep (.eprintf (.perror quits_exit))

theorem prints_getT2 : Prints bus getT2 regs []
    ((wordAt bus regs auxSlave2 0x00#8 &&& 0xFFFF#16 &&& 0xFF#16).setWidth 8) regs :=
  (prints_readW auxSlave2 0x00#8).after (prints_pure _)

/-- One row, whatever the duty cycle was before. -/
theorem prints_sample (fan : Fan) (byte : BitVec 8) (j : Nat) :
    Prints bus (sample fan j) (regs.set slave fan.pwm byte) [row bus regs fan j] ()
      (regs.set slave fan.pwm (BitVec.ofNat 8 j)) := by
  have hwrite : Prints bus (smbioctlWriteB slave fan.pwm (BitVec.ofNat 8 j))
      (regs.set slave fan.pwm byte) [] () _ := prints_writeB _ _ _
  rw [set_set] at hwrite
  refine hwrite.after ((prints_pure ()).after ((prints_readB _ _).after ?_))
  exact prints_getT2.after ((prints_readB _ _).after (prints_printf _))

/-- **A sweep** prints its rows; the last duty cycle is that of the last row. -/
theorem prints_sweep (fan : Fan) (js : List Nat) (byte : BitVec 8) :
    Prints bus (sweep fan js) (regs.set slave fan.pwm byte) (js.map (row bus regs fan)) ()
      (regs.set slave fan.pwm ((js.map (BitVec.ofNat 8)).getLastD byte)) := by
  induction js generalizing byte with
  | nil => exact prints_pure ()
  | cons j js ih =>
    rw [List.map_cons, List.map_cons, List.getLastD_cons]
    exact (prints_sample fan byte j).bind (ih _)

/-- **The calibration of a fan** prints its two sweeps. -/
theorem prints_calibrate (fan : Fan) : Prints bus (calibrate fan) regs
    ((down ++ up).map (row bus regs fan)) () (atFull regs fan) := by
  have hup : ∀ byte, Prints bus (sweep fan up) (regs.set slave fan.pwm byte)
      (up.map (row bus regs fan)) () (atFull regs fan) := fun byte => by
    have h : Prints bus (sweep fan up) (regs.set slave fan.pwm byte) _ () _ :=
      prints_sweep fan up byte
    rwa [up_last] at h
  rw [List.map_append]
  exact (prints_writeB _ _ _).after ((prints_pure ()).after
    ((prints_sweep fan down 0xff#8).bind ((prints_pure ()).after (hup _))))

theorem prints_calibrateAll (fans : List Fan) : Prints bus (calibrateAll fans) regs
    (table bus regs fans) () (fans.foldl atFull regs) := by
  induction fans generalizing regs with
  | nil => exact prints_pure ()
  | cons fan fans ih => exact (prints_calibrate fan).bind ih

/-- The divisors of fans that have one. -/
theorem prints_setDivisors {fans : List Fan}
    (h : ∀ fan ∈ fans, fan.divno = 1 ∨ fan.divno = 2 ∨ fan.divno = 3) :
    Prints bus (setDivisors (byteAt bus regs slave 0x5d#8) (byteAt bus regs slave 0x47#8)
        (byteAt bus regs slave 0x4b#8) fans) regs (fans.map (divisorLine bus regs))
      (some (fans.map (withDivisor bus regs))) regs := by
  induction fans with
  | nil => exact prints_pure _
  | cons fan fans ih =>
    have hrest := ih fun fan hfan => h fan (List.mem_cons_of_mem _ hfan)
    have hdiv : divisor (byteAt bus regs slave 0x5d#8) (byteAt bus regs slave 0x47#8)
        (byteAt bus regs slave 0x4b#8) fan.divno = some (fanDivisor bus regs fan) := by
      unfold fanDivisor
      rcases h fan List.mem_cons_self with hno | hno | hno <;>
        · rw [hno]
          rfl
    have hend : Prints bus (do
        let rest ← setDivisors (byteAt bus regs slave 0x5d#8) (byteAt bus regs slave 0x47#8)
          (byteAt bus regs slave 0x4b#8) fans
        pure (rest.map fun rest => withDivisor bus regs fan :: rest)) regs
        (fans.map (divisorLine bus regs) ++ [])
        (some ((fan :: fans).map (withDivisor bus regs))) regs := hrest.bind (prints_pure _)
    rw [List.append_nil] at hend
    unfold setDivisors
    rw [hdiv]
    exact (prints_printf _).bind hend

end

/-- **The calibration table.** On any bus whose registers change by the writes only, `fan_calibrate`
prints the divisors and the table and returns 0 with its fans at full speed, or an access fails, and
it exits right after that access with a first part of the same texts. -/
theorem main_table (bus : Bus) (regs : Regs) :
    Prints bus main regs
      (fans.map (divisorLine bus regs) ++ table bus regs (fans.map (withDivisor bus regs))) 0
      (fans.foldl atFull regs) := by
  have hopen : Prints bus (call (.openDev smbDevName)) regs [] (some 0) regs := .inl (does_call rfl)
  have hno : ∀ fan ∈ fans, fan.divno = 1 ∨ fan.divno = 2 ∨ fan.divno = 3 := by simp [fans]
  have hall : Prints bus (calibrateAll (fans.map (withDivisor bus regs)) >>= fun _ => pure 0) regs
      (table bus regs (fans.map (withDivisor bus regs)) ++ []) 0 (fans.foldl atFull regs) := by
    have h : Prints bus (calibrateAll (fans.map (withDivisor bus regs))) regs _ () _ :=
      prints_calibrateAll (fans.map (withDivisor bus regs))
    rw [List.foldl_map] at h
    exact h.bind (prints_pure 0)
  rw [List.append_nil] at hall
  exact hopen.after ((prints_readB _ _).after ((prints_readB _ _).after ((prints_readB _ _).after
    ((prints_setDivisors hno).bind hall))))

end Smb.FanCalibrate
