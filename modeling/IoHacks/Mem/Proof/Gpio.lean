import IoHacks.Lib.Check
import IoHacks.Mem.Gpio

/-!
# The GPIO tool's window

The range check adds 4 to the parsed offset, and the sum wraps for the four largest values. Of
these only `2 ^ 64 - 4` is on a 4-byte boundary: with it the program accesses the word 0x3FFFFFFF.
`access_ok_iff`: every other offset that passes the checks is in the window, and a written value is
never truncated.
-/

namespace Mem.Gpio

open Lib

/-- The offset argument. -/
def offsetWord (args : List String) : String := (getopt ['r', 'w'] args).2[0]?.getD ""

/-- The value argument. -/
def valueWord (args : List String) : String := (getopt ['r', 'w'] args).2[1]?.getD ""

/-- The access is the one that the arguments ask for, and it is inside the window. -/
def AccessOk (args : List String) (r : Req) : Prop :=
  ∃ off : BitVec 32, off.toNat = (strtoul (offsetWord args)).value ∧ off.toNat % 4 = 0 ∧
    off.toNat + 4 ≤ 0x300 ∧
    (r = .load (off.toNat / 4) ∨
      ∃ val : BitVec 32, val.toNat = (strtoul (valueWord args)).value ∧
        r = .store (off.toNat / 4) val)

/-! ## The arguments -/

theorem ulong_toNat (word : String) : (ulong word).toNat = (strtoul word).value := by
  rw [ulong, BitVec.toNat_ofNat, Nat.mod_eq_of_lt (strtoul_lt word)]

/-- The checks that an offset passed. -/
structure OffsetChecked (x : BitVec 64) : Prop where
  inRange : ¬gpioSize < x + 4#64
  aligned : x.setWidth 32 % 4#32 = 0#32

/-- An offset that passed the checks is in the window or the one that wraps. -/
theorem OffsetChecked.cases {x : BitVec 64} (h : OffsetChecked x) :
    (x.setWidth 32).toNat = x.toNat ∧ x.toNat % 4 = 0 ∧ x.toNat + 4 ≤ 0x300 ∨
      x.toNat = 2 ^ 64 - 4 := by
  have hr := h.inRange
  have ha := congrArg BitVec.toNat h.aligned
  have hx := x.isLt
  rw [BitVec.lt_def, BitVec.toNat_add, show gpioSize.toNat = 0x300 by rfl,
    show (4#64).toNat = 4 by rfl] at hr
  rw [BitVec.toNat_umod, BitVec.toNat_setWidth, show (4#32).toNat = 4 by rfl,
    BitVec.toNat_ofNat] at ha
  rw [BitVec.toNat_setWidth]
  omega

theorem parseValue_ok {word : String} {rest : List String} {val : BitVec 32}
    (h : parseValue word rest = .ok val) :
    val.toNat = (strtoul (rest[0]?.getD "")).value := by
  cases rest with
  | nil => cases h
  | cons word' rest =>
    unfold parseValue at h
    simp only at h
    split at h
    · cases h
    · split at h
      · cases h
      · rename_i hle
        cases h
        rw [BitVec.lt_def, ulong_toNat, show uint32Max.toNat = 2 ^ 32 - 1 by rfl] at hle
        rw [BitVec.toNat_setWidth, ulong_toNat]
        show _ = (strtoul word').value
        omega

/-- The access that the arguments ask for. -/
theorem parseOperands_ok {mode : Mode} {words : List String} {a : Access}
    (h : parseOperands mode words = .ok a) :
    OffsetChecked (ulong (words[0]?.getD "")) ∧
      (a = .read ((ulong (words[0]?.getD "")).setWidth 32) ∨
        ∃ val : BitVec 32, val.toNat = (strtoul (words[1]?.getD "")).value ∧
          a = .write ((ulong (words[0]?.getD "")).setWidth 32) val) := by
  cases words with
  | nil => cases h
  | cons word rest =>
    unfold parseOperands at h
    simp only at h
    split at h
    · cases h
    · split at h
      · cases h
      · split at h
        · cases h
        · rename_i hrange haligned
          refine ⟨⟨hrange, Decidable.not_not.1 haligned⟩, ?_⟩
          cases mode with
          | rd =>
            cases h
            exact .inl rfl
          | wr =>
            obtain ⟨val, hval, hret⟩ := bind_eq_ok.1 h
            cases hret
            exact .inr ⟨val, parseValue_ok hval, rfl⟩

theorem parse_ok {args : List String} {a : Access} (h : parse args = .ok a) :
    ∃ mode, parseOperands mode (getopt ['r', 'w'] args).2 = .ok a := by
  obtain ⟨mode, -, hoperands⟩ := bind_eq_ok.1 h
  exact ⟨mode, hoperands⟩

/-! ## The access -/

/-- The access to the window. -/
def Access.req : Access → Req
  | .read off => .load (off / 4#32).toNat
  | .write off val => .store (off / 4#32).toNat val

theorem access_runs {a : Access} {evs : List Event} {u : Unit} {e : Event}
    (h : Query.Runs (access a) evs u) (he : e ∈ evs) (ha : e.1.IsAccess) : e.1 = a.req := by
  cases a with
  | read off =>
    obtain ⟨x, evs, rfl, hprint⟩ := runs_load_bind.1 h
    obtain ⟨y, rfl, -⟩ := Query.runs_request_pure.1 hprint
    simp only [List.mem_cons, List.not_mem_nil, or_false] at he
    rcases he with rfl | rfl
    · rfl
    · exact ha.elim
  | write off val =>
    obtain ⟨x, rfl, -⟩ := Query.runs_request_pure.1 h
    rw [List.mem_singleton.1 he]
    rfl

/-- The only access of a run is the one that the arguments ask for. -/
theorem main_access {args : List String} {evs : List Event} {status : Nat} {e : Event}
    (h : Query.Runs (main args) evs status) (he : e ∈ evs) (ha : e.1.IsAccess) :
    ∃ a, parse args = .ok a ∧ e.1 = a.req := by
  unfold main at h
  cases hp : parse args with
  | error text =>
    rw [hp] at h
    exact absurd ha (runs_message id h e he)
  | ok a =>
    rw [hp] at h
    refine ⟨a, rfl, ?_⟩
    rcases runs_withWindow h with hno | ⟨x, y, evs, rfl, hbody⟩
    · exact absurd ha (hno e he)
    · obtain ⟨u, evs₁, evs₂, rfl, haccess, hunmap⟩ := Query.runs_bind.1 hbody
      obtain ⟨v, evs₂, rfl, hclose⟩ := runs_call_bind.1 hunmap
      obtain ⟨w, rfl, -⟩ := Query.runs_request_pure.1 hclose
      simp only [List.mem_cons, List.mem_append, List.not_mem_nil, or_false] at he
      rcases he with rfl | rfl | he | rfl | rfl
      · exact ha.elim
      · exact ha.elim
      · exact access_runs haccess he ha
      · exact ha.elim
      · exact ha.elim

/-- **The GPIO tool stays in its window** if and only if the parsed offset is not the one value
whose range check wraps, on every run that reaches the register access. -/
theorem access_ok_iff {args : List String} {evs : List Event} {status : Nat} {e : Event}
    (h : Query.Runs (main args) evs status) (he : e ∈ evs) (ha : e.1.IsAccess) :
    AccessOk args e.1 ↔ (strtoul (offsetWord args)).value ≠ 2 ^ 64 - 4 := by
  obtain ⟨a, hparse, hreq⟩ := main_access h he ha
  obtain ⟨mode, hoperands⟩ := parse_ok hparse
  obtain ⟨hchecked, haccess⟩ := parseOperands_ok hoperands
  have hword : (getopt ['r', 'w'] args).2[0]?.getD "" = offsetWord args := rfl
  rw [hword] at hchecked haccess
  constructor
  · rintro ⟨off, hoff, -, hle, -⟩
    omega
  · intro hne
    rcases hchecked.cases with ⟨hoff, h4, hle⟩ | hwrap
    · have hindex : ((ulong (offsetWord args)).setWidth 32 / 4#32).toNat =
          ((ulong (offsetWord args)).setWidth 32).toNat / 4 := BitVec.toNat_udiv
      refine ⟨(ulong (offsetWord args)).setWidth 32, hoff.trans (ulong_toNat _), by omega,
        by omega, ?_⟩
      rw [hreq]
      rcases haccess with rfl | ⟨val, hval, rfl⟩
      · exact .inl (by rw [Access.req, hindex])
      · exact .inr ⟨val, hval, by rw [Access.req, hindex]⟩
    · rw [ulong_toNat] at hwrap
      exact absurd hwrap hne

/-- The register at offset 16. -/
theorem access_ok_iff_read :
    AccessOk ["16"] (.load 4) ↔ (strtoul (offsetWord ["16"])).value ≠ 2 ^ 64 - 4 :=
  @access_ok_iff ["16"] _ _ (.load 4, ready (.load 4)) (Query.runs_eval ready _) (by decide) trivial

/-- The offset `2 ^ 64 - 4` passes the checks, and the program loads a word outside its window. -/
theorem access_outside :
    ∃ evs status, Query.Runs (main ["18446744073709551612"]) evs status ∧
      (.load 0x3FFFFFFF, ready (.load 0x3FFFFFFF)) ∈ evs ∧
      ¬AccessOk ["18446744073709551612"] (.load 0x3FFFFFFF) := by
  refine ⟨_, _, Query.runs_eval ready _, by decide, ?_⟩
  rintro ⟨off, -, -, hle, heq | ⟨val, -, heq⟩⟩
  · have := Req.load.inj heq
    omega
  · cases heq

end Mem.Gpio
