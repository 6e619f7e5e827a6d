import IoHacks.Mem.Proof.Rdt

/-!
# Which registers `ioapic_wr` writes

The pin is parsed as an `unsigned long`, narrowed to an `int` and compared with 24 on one side
only, so a pin whose low 32 bits are negative reaches `set_rdt_entry` as well. `entryOnly_iff`: the
program writes the two registers of its redirection entry, and no other one, if and only if the
parsed pin is an `int`.
-/

namespace Mem.Ioapic

open Lib

def intMax : Nat := 2 ^ 31 - 1

/-- The two arguments. -/
def pinWord (args : List String) : String := args[0]?.getD ""
def valueWord (args : List String) : String := args[1]?.getD ""

/-- The stores of a run, with the words they go to. -/
def stores (evs : List Event) : List (Nat × BitVec 32) :=
  evs.filterMap fun e =>
    match e.1 with
    | .store i v => some (i, v)
    | _ => none

/-- The device after a run. -/
def IoApic.after (evs : List Event) (a : IoApic) : IoApic :=
  evs.foldl (fun a e => (a.step e.1).2) a

/-- The run writes the entry of the parsed pin and nothing else. -/
structure EntryOnly (args : List String) (evs : List Event) : Prop where
  pin_lt : (strtoul (pinWord args)).value < 24
  stores_eq : stores evs =
    [(idx, BitVec.ofNat 32 (0x11 + 2 * (strtoul (pinWord args)).value)),
      (dat, BitVec.ofNat 32 ((strtoumax (valueWord args)).value / 2 ^ 32)),
      (idx, BitVec.ofNat 32 (0x10 + 2 * (strtoul (pinWord args)).value)),
      (dat, BitVec.ofNat 32 (strtoumax (valueWord args)).value)]
  inTable : InTable (0x10 + 2 * (strtoul (pinWord args)).value) ∧
    InTable (0x11 + 2 * (strtoul (pinWord args)).value)
  others : ∀ a n, n ≠ 0x10 + 2 * (strtoul (pinWord args)).value →
    n ≠ 0x11 + 2 * (strtoul (pinWord args)).value → (IoApic.after evs a).regs n = a.regs n

/-! ## The arguments -/

theorem eq_ofNat {x : BitVec 32} {n : Nat} (h : x.toNat = n) : x = BitVec.ofNat 32 n := by
  rw [← h, BitVec.ofNat_toNat, BitVec.setWidth_eq]

/-- The two halves of a parsed value. -/
theorem upper_ofNat {n : Nat} (h : n < 2 ^ 64) :
    (BitVec.ofNat 64 n >>> 32).setWidth 32 = BitVec.ofNat 32 (n / 2 ^ 32) := by
  apply eq_ofNat
  rw [BitVec.toNat_setWidth, BitVec.toNat_ushiftRight, BitVec.toNat_ofNat,
    Nat.shiftRight_eq_div_pow]
  omega

theorem lower_ofNat (n : Nat) : (BitVec.ofNat 64 n).setWidth 32 = BitVec.ofNat 32 n := by
  apply BitVec.eq_of_toNat_eq
  rw [BitVec.toNat_setWidth, BitVec.toNat_ofNat, BitVec.toNat_ofNat]
  omega

/-! ## The run -/

theorem parse_ok {args : List String} {w : Write} (h : parse args = .ok w) :
    w.which = BitVec.ofNat 32 (strtoul (pinWord args)).value ∧ w.which.toInt < 24 ∧
      w.val = BitVec.ofNat 64 (strtoumax (valueWord args)).value := by
  unfold parse at h
  split at h
  · simp only at h
    split at h
    · cases h
    · split at h
      · cases h
      · split at h
        · cases h
        · rename_i hpin hlt hval
          cases h
          exact ⟨lower_ofNat _, Int.not_le.1 hlt, rfl⟩
  · cases h

/-- A run that accesses the window is a run of `set_rdt_entry`. -/
theorem mainWr_runs {args : List String} {evs : List Event} {status : Nat}
    (h : Query.Runs (mainWr args) evs status) (ha : ∃ e ∈ evs, e.1.IsAccess) :
    ∃ w x₁ x₂ x₃ x₄ x₅ x₆, parse args = .ok w ∧
      evs = [(.openMem, x₁), (.mmap length true addr, x₂),
        (.store idx (rdtOffset + 2#32 * w.which + 1#32), x₃),
        (.store dat ((w.val >>> 32).setWidth 32), x₄),
        (.store idx (rdtOffset + 2#32 * w.which), x₅), (.store dat (w.val.setWidth 32), x₆)] := by
  obtain ⟨e, he, ha⟩ := ha
  unfold mainWr at h
  cases hp : parse args with
  | error message =>
    rw [hp] at h
    exact absurd ha (runs_message message.not_isAccess h e he)
  | ok w =>
    rw [hp] at h
    rcases runs_withWindow h with hno | ⟨x₁, x₂, evs, rfl, hbody⟩
    · exact absurd ha (hno e he)
    · obtain ⟨u, evs₁, evs₂, rfl, hset, hret⟩ := Query.runs_bind.1 hbody
      obtain ⟨rfl, -⟩ := Query.runs_pure.1 hret
      obtain ⟨x₃, evs₃, rfl, h₃⟩ := runs_store_bind.1 hset
      obtain ⟨x₄, evs₄, rfl, h₄⟩ := runs_store_bind.1 h₃
      obtain ⟨x₅, evs₅, rfl, h₅⟩ := runs_store_bind.1 h₄
      obtain ⟨x₆, rfl, -⟩ := Query.runs_request_pure.1 h₅
      exact ⟨w, x₁, x₂, x₃, x₄, x₅, x₆, rfl, rfl⟩

/-- **`ioapic_wr` only writes redirection entries** if and only if the parsed pin is an `int`, on
every run that reaches `set_rdt_entry`. -/
theorem entryOnly_iff {args : List String} {evs : List Event} {status : Nat}
    (h : Query.Runs (mainWr args) evs status) (ha : ∃ e ∈ evs, e.1.IsAccess) :
    EntryOnly args evs ↔ (strtoul (pinWord args)).value ≤ intMax := by
  obtain ⟨w, x₁, x₂, x₃, x₄, x₅, x₆, hparse, rfl⟩ := mainWr_runs h ha
  obtain ⟨hwhich, hlt, hval⟩ := parse_ok hparse
  constructor
  · intro hentry
    have := hentry.pin_lt
    unfold intMax
    omega
  · intro hint
    unfold intMax at hint
    -- an `int` that is below 24 is the pin
    have hpin : w.which.toNat = (strtoul (pinWord args)).value := by
      rw [hwhich, BitVec.toNat_ofNat, Nat.mod_eq_of_lt (by omega)]
    have h24 : w.which.toNat < 24 := by
      have hto := BitVec.toInt_eq_toNat_of_lt (x := w.which) (by omega)
      omega
    have hlow := lowIndex h24
    have hhigh := highIndex h24
    have hmax : (strtoumax (valueWord args)).value < 2 ^ 64 := strtoul_lt (valueWord args)
    rw [hpin] at h24 hlow hhigh
    refine ⟨h24, ?_, ⟨⟨by omega, by omega⟩, ⟨by omega, by omega⟩⟩, fun a n hn₀ hn₁ => ?_⟩
    · show [(idx, rdtOffset + 2#32 * w.which + 1#32), (dat, (w.val >>> 32).setWidth 32),
        (idx, rdtOffset + 2#32 * w.which), (dat, w.val.setWidth 32)] = _
      rw [eq_ofNat hhigh, eq_ofNat hlow, hval, upper_ofNat hmax, lower_ofNat]
    · show Function.update (Function.update a.regs (rdtOffset + 2#32 * w.which + 1#32).toNat _)
        (rdtOffset + 2#32 * w.which).toNat _ n = a.regs n
      rw [hlow, hhigh, Function.update_of_ne hn₀, Function.update_of_ne hn₁]

/-- Pin 3 on a machine where every call succeeds. -/
theorem entryOnly_iff_pin :
    EntryOnly ["3", "65536"] (readyRun (mainWr ["3", "65536"])) ↔
      (strtoul (pinWord ["3", "65536"])).value ≤ intMax :=
  entryOnly_iff (Query.runs_eval ready (mainWr ["3", "65536"]))
    ⟨(.store dat 65536#32, ready (.store dat 65536#32)), by decide, trivial⟩

/-- The pin `2 ^ 32 - 1` passes the checks as -1, and the program selects the registers 0x0f and
0x0e. -/
theorem entry_outside :
    ∃ evs status, Query.Runs (mainWr ["4294967295", "0"]) evs status ∧
      stores evs = [(idx, 0x0f#32), (dat, 0#32), (idx, 0x0e#32), (dat, 0#32)] ∧
      ¬EntryOnly ["4294967295", "0"] evs := by
  refine ⟨_, _, Query.runs_eval ready _, by decide, fun h => ?_⟩
  have hvalue : (strtoul (pinWord ["4294967295", "0"])).value = 2 ^ 32 - 1 := by decide
  have := h.pin_lt
  omega

end Mem.Ioapic
