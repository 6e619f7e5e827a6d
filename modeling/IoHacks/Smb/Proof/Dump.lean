import IoHacks.Smb.Proof.Tools

/-!
# Comparing dumps

`smb_dump_slave` prints a line for each register that it can read and that is neither 0 nor 0xff.
Two of its dumps are the same if and only if these registers are, with their values: the lines can
be told apart by their addresses and by their values, also within the output
(`readText_append_inj`).
-/

namespace Smb

open Lib

/-- The value of a register that a dump shows. -/
def Bus.shown (bus : Bus) (regs : Regs) (slave : BitVec 32) (addr : Nat) : Option Int :=
  let val := bus.value regs (slave.setWidth 8) addr
  if isPlain val then some val else none

/-! ## Lines -/

theorem upper02x_eq {n : Nat} (h : n < 256) : (upper02x n).toList =
    [(Nat.digitChar (n / 16)).toUpper, (Nat.digitChar (n % 16)).toUpper] := by
  unfold upper02x
  rcases Nat.lt_or_ge n 16 with hn | hn
  · rw [Nat.toDigits_of_lt_base hn, Nat.div_eq_of_lt hn, Nat.mod_eq_of_lt hn]
    simp
    rfl
  · rw [Nat.toDigits_of_base_le (by omega) hn, Nat.toDigits_of_lt_base (by omega)]
    simp

theorem toUpper_inj {x y : Nat} (hx : x < 16) (hy : y < 16)
    (h : (Nat.digitChar x).toUpper = (Nat.digitChar y).toUpper) : x = y := by
  have hinj : ∀ x < 16, ∀ y < 16,
      (Nat.digitChar x).toUpper = (Nat.digitChar y).toUpper → x = y := by decide
  exact hinj x hx y hy h

/-- The two digits of a byte, whatever follows. -/
theorem upper02x_inj {m n : Nat} (hm : m < 256) (hn : n < 256) {rest rest' : List Char}
    (h : (upper02x m).toList ++ rest = (upper02x n).toList ++ rest') : m = n ∧ rest = rest' := by
  rw [upper02x_eq hm, upper02x_eq hn] at h
  obtain ⟨hhigh, htail⟩ := List.cons.inj h
  obtain ⟨hlow, hrest⟩ := List.cons.inj htail
  have hdiv := toUpper_inj (by omega) (by omega) hhigh
  have hmod := toUpper_inj (by omega) (by omega) hlow
  exact ⟨by omega, hrest⟩

theorem isPlain_iff {val : Int} : isPlain val = true ↔ 0 < val ∧ val < 255 := by
  simp [isPlain]

/-- **The lines can be told apart**, whatever follows them. -/
theorem readText_append_inj {slave : BitVec 32} {addr addr' : Nat} {val val' : Int}
    {rest rest' : List Char} (haddr : addr < 256) (haddr' : addr' < 256)
    (hval : isPlain val = true) (hval' : isPlain val' = true)
    (h : (readText slave addr val).toList ++ rest = (readText slave addr' val').toList ++ rest') :
    addr = addr' ∧ val = val' ∧ rest = rest' := by
  rw [isPlain_iff] at hval hval'
  unfold readText at h
  simp only [String.toList_append, List.append_assoc] at h
  have hline := List.append_cancel_left (List.append_cancel_left (List.append_cancel_left h))
  obtain ⟨rfl, hbytes⟩ := upper02x_inj haddr haddr' hline
  obtain ⟨hbyte, htail⟩ := upper02x_inj (by omega) (by omega) (List.append_cancel_left hbytes)
  obtain rfl : val = val' := by omega
  refine ⟨rfl, rfl, ?_⟩
  exact List.append_cancel_left (List.append_cancel_left (List.append_cancel_left htail))

theorem readText_inj {slave : BitVec 32} {addr addr' : Nat} {val val' : Int} (haddr : addr < 256)
    (haddr' : addr' < 256) (hval : isPlain val = true) (hval' : isPlain val' = true)
    (h : readText slave addr val = readText slave addr' val') : addr = addr' ∧ val = val' := by
  have hchars :
      (readText slave addr val).toList ++ [] = (readText slave addr' val').toList ++ [] := by
    rw [h]
  obtain ⟨hsame, hvalue, -⟩ := readText_append_inj haddr haddr' hval hval' hchars
  exact ⟨hsame, hvalue⟩

theorem readText_ne_nil (slave : BitVec 32) (addr : Nat) (val : Int) :
    (readText slave addr val).toList ≠ [] := by
  unfold readText
  simp [String.toList_append]

/-- A line of a dump. -/
def IsLine (slave : BitVec 32) (text : String) : Prop :=
  ∃ addr < 256, ∃ val, isPlain val = true ∧ readText slave addr val = text

/-- **The output determines its lines.** -/
theorem join_inj {slave : BitVec 32} {texts texts' : List String}
    (htexts : ∀ text ∈ texts, IsLine slave text) (htexts' : ∀ text ∈ texts', IsLine slave text)
    (h : String.join texts = String.join texts') : texts = texts' := by
  have hchars := congrArg String.toList h
  rw [String.toList_join, String.toList_join] at hchars
  clear h
  induction texts generalizing texts' with
  | nil =>
    cases texts' with
    | nil => rfl
    | cons text' texts' =>
      obtain ⟨addr, -, val, -, rfl⟩ := htexts' _ List.mem_cons_self
      exact absurd (List.append_eq_nil_iff.1 hchars.symm).1 (readText_ne_nil slave addr val)
  | cons text texts ih =>
    obtain ⟨addr, haddr, val, hval, rfl⟩ := htexts _ List.mem_cons_self
    cases texts' with
    | nil => exact absurd (List.append_eq_nil_iff.1 hchars).1 (readText_ne_nil slave addr val)
    | cons text' texts' =>
      obtain ⟨addr', haddr', val', hval', rfl⟩ := htexts' _ List.mem_cons_self
      obtain ⟨rfl, rfl, hrest⟩ := readText_append_inj haddr haddr' hval hval' hchars
      rw [ih (fun text h => htexts text (List.mem_cons_of_mem _ h))
        (fun text h => htexts' text (List.mem_cons_of_mem _ h)) hrest]

/-! ## Dumps -/

section
variable {bus bus' : Bus} {regs regs' : Regs} {slave : BitVec 32} {addr : Nat} {val : Int}

theorem shown_isPlain (h : bus.shown regs slave addr = some val) : isPlain val = true := by
  simp only [Bus.shown] at h
  split at h
  · rename_i hplain
    rwa [← Option.some.inj h]
  · cases h

/-- A line is that of the value that is shown. -/
theorem line_eq : bus.line regs isPlain slave addr =
    (bus.shown regs slave addr).map (readText slave addr) := by
  simp only [Bus.line, Bus.shown]
  split <;> rfl

/-- The lines of a dump. -/
def Bus.dump (bus : Bus) (regs : Regs) (slave : BitVec 32) : List String :=
  (List.range 0x100).filterMap (bus.line regs isPlain slave)

theorem mem_dump {text : String} : text ∈ bus.dump regs slave ↔
    ∃ addr < 256, ∃ val, bus.shown regs slave addr = some val ∧ readText slave addr val = text := by
  simp only [Bus.dump, List.mem_filterMap, List.mem_range, line_eq, Option.map_eq_some_iff]

theorem dump_isLine {text : String} (h : text ∈ bus.dump regs slave) : IsLine slave text := by
  obtain ⟨addr, haddr, val, hshown, htext⟩ := mem_dump.1 h
  exact ⟨addr, haddr, val, shown_isPlain hshown, htext⟩

/-- A value that one dump shows is in another one with its lines. -/
theorem shown_of_subset (hsub : bus.dump regs slave ⊆ bus'.dump regs' slave) (haddr : addr < 256)
    (h : bus.shown regs slave addr = some val) : bus'.shown regs' slave addr = some val := by
  obtain ⟨addr', haddr', val', h', htext⟩ :=
    mem_dump.1 (hsub (mem_dump.2 ⟨addr, haddr, val, h, rfl⟩))
  obtain ⟨rfl, rfl⟩ := readText_inj haddr' haddr (shown_isPlain h') (shown_isPlain h) htext
  exact h'

theorem dump_eq_iff : bus.dump regs slave = bus'.dump regs' slave ↔
    ∀ addr < 256, bus.shown regs slave addr = bus'.shown regs' slave addr := by
  constructor
  · intro heq addr haddr
    refine Option.ext fun val => ⟨fun h => ?_, fun h => ?_⟩
    · exact shown_of_subset (heq ▸ List.Subset.refl _) haddr h
    · exact shown_of_subset (heq ▸ List.Subset.refl _) haddr h
  · intro h
    refine List.filterMap_congr fun addr haddr => ?_
    rw [line_eq, line_eq, h addr (List.mem_range.1 haddr)]

end

/-- **Dumps compare registers**: on any buses, `smb_dump_slave` returns 0 and leaves the registers
alone, and two of its dumps of a slave are the same, as lists of lines or as the output that these
make up, if and only if the registers that they show are, with their values. -/
theorem dumps_agree (bus bus' : Bus) (regs regs' : Regs) (slaveWord : String) :
    ∃ texts texts', Does bus (smbDumpSlave slaveWord : Io Unit Nat) regs texts (.ret 0) regs ∧
      Does bus' (smbDumpSlave slaveWord : Io Unit Nat) regs' texts' (.ret 0) regs' ∧
      (texts = texts' ↔ ∀ addr < 256, bus.shown regs (unsigned slaveWord) addr =
        bus'.shown regs' (unsigned slaveWord) addr) ∧
      (String.join texts = String.join texts' ↔ ∀ addr < 256,
        bus.shown regs (unsigned slaveWord) addr = bus'.shown regs' (unsigned slaveWord) addr) := by
  have hdump : ∀ (bus : Bus) (regs : Regs), Does bus (smbDumpSlave slaveWord : Io Unit Nat) regs
      (bus.dump regs (unsigned slaveWord)) (.ret 0) regs := fun bus regs =>
    (does_checkSlave _).after (does_dump (does_readNPrint does_complain _ _) (List.range 0x100))
  refine ⟨_, _, hdump bus regs, hdump bus' regs', dump_eq_iff, ?_⟩
  rw [← dump_eq_iff]
  constructor
  · exact join_inj (fun _ => dump_isLine) fun _ => dump_isLine
  · exact congrArg String.join

end Smb
