import IoHacks.Smb.TuneReg
import Mathlib.Data.List.Chain

/-!
# Tuning is gentle

From the value of the first read the loop sends the next value towards the target, and then the
next one, until it has sent the target. These are steps of one between bytes as long as start and
target are bytes (`path_isChain`). A failed read starts the loop at -1, and a target outside the
byte range is narrowed when it is sent, so the register is tuned gently exactly when the loop has
nothing to do, or the read succeeded and the target is a byte (`tunesGently_iff`).
-/

namespace Smb.TuneReg

open Lib Prog

/-! ## What a run sends -/

def isWrite : Req → Bool
  | .writeB .. => true
  | _ => false

/-- The writes of a run. -/
def writes (evs : List Event) : List Req := (evs.map (·.1)).filter isWrite

def WritesSucceed (evs : List Event) : Prop := ∀ e ∈ evs, isWrite e.1 → ∃ word, e.2 = .ok word

theorem writes_append (evs evs' : List Event) :
    writes (evs ++ evs') = writes evs ++ writes evs' := by
  simp [writes]

theorem WritesSucceed.append {evs evs' : List Event} (h : WritesSucceed evs)
    (h' : WritesSucceed evs') : WritesSucceed (evs ++ evs') := by
  intro e he
  rcases List.mem_append.1 he with hm | hm
  · exact h e hm
  · exact h' e hm

theorem writesSucceed_of_no_writes {evs : List Event} (h : writes evs = []) :
    WritesSucceed evs := by
  intro e he hw
  have hmem : e.1 ∈ writes evs := List.mem_filter.2 ⟨List.mem_map_of_mem he, hw⟩
  rw [h] at hmem
  cases hmem

/-- A write of the run failed, by one of the answers. -/
def WriteFails (evs : List Event) (answers : List Reply) : Prop :=
  ∃ r errno, isWrite r ∧ (r, .fail errno) ∈ evs ∧ .fail errno ∈ answers

theorem WriteFails.not_succeed {evs : List Event} {answers : List Reply}
    (h : WriteFails evs answers) : ¬WritesSucceed evs := by
  obtain ⟨r, errno, hr, he, -⟩ := h
  intro hs
  obtain ⟨word, hword⟩ := hs _ he hr
  cases hword

/-- The values between `oldval` and the target, `n` steps of `inc` away, without the first one. -/
def path (inc : Int) : Nat → Int → List Int
  | 0, _ => []
  | n + 1, oldval => (oldval + inc) :: path inc n (oldval + inc)

/-- The write of a value to the register. -/
def write (reg value : Int) : Req := .writeB slave (BitVec.ofInt 8 reg) (BitVec.ofInt 8 value)

/-! ## The loop -/

section
variable {reg val inc : Int} {answers : List Reply} {s : State Vars}

theorem tuneBody_end (h : s.vars.oldval = val + inc) :
    tuneBody reg val inc answers s =
      { outcome := .ret (some ()), events := [], answers, state := s } := by
  unfold tuneBody
  rw [bind_of_ret (p := Prog.get) rfl, if_neg fun hne => hne h]
  rfl

theorem tuneBody_ok (h : s.vars.oldval ≠ val + inc) (word : BitVec 16) :
    tuneBody reg val inc (.ok word :: answers) s =
      { outcome := .ret none, events := [(write reg s.vars.oldval, .ok word)], answers
        state := { s with vars := { oldval := s.vars.oldval + inc } } } := by
  unfold tuneBody
  rw [bind_of_ret (p := Prog.get) rfl, if_pos h]
  rfl

theorem tuneBody_fail (h : s.vars.oldval ≠ val + inc) (errno : Nat) :
    ∃ s', tuneBody reg val inc (.fail errno :: answers) s =
      { outcome := .exit failure, events := [(write reg s.vars.oldval, .fail errno)], answers
        state := s' } := by
  unfold tuneBody
  rw [bind_of_ret (p := Prog.get) rfl, if_pos h]
  exact ⟨_, rfl⟩

variable (reg val inc)

theorem tuneBody_consumes : Consumes (tuneBody reg val inc) := by
  intro answers s h
  by_cases hend : s.vars.oldval = val + inc
  · rw [tuneBody_end hend] at h
    cases h
  · cases answers with
    | nil =>
      unfold tuneBody at h
      rw [bind_of_ret (p := Prog.get) rfl, if_pos hend] at h
      cases h
    | cons reply answers =>
      cases reply with
      | ok word =>
        rw [tuneBody_ok hend]
        exact Nat.lt_succ_self _
      | fail errno =>
        obtain ⟨s', hrun⟩ := @tuneBody_fail reg val inc answers s hend errno
        rw [hrun] at h
        cases h

/-- **The loop sends the path** and ends, unless a write fails. The induction is on the number of
steps to the target. -/
theorem tune_loop (hinc : inc ≠ 0) (n : Nat) (oldval : Int) (answers : List Reply) (s : State Vars)
    (hs : s.vars.oldval = oldval + inc) (hval : oldval + n * inc = val)
    (hlen : n ≤ answers.length) :
    (∃ evs answers' s', loop (tuneBody reg val inc) answers s =
        { outcome := .ret (), events := evs, answers := answers', state := s' } ∧
      writes evs = (path inc n oldval).map (write reg) ∧ WritesSucceed evs ∧
      answers.length = n + answers'.length) ∨
      WriteFails (loop (tuneBody reg val inc) answers s).events answers := by
  have hconsumes := tuneBody_consumes reg val inc
  induction n generalizing oldval answers s with
  | zero =>
    have hend : s.vars.oldval = val + inc := by
      rw [hs, ← hval]
      simp
    exact .inl ⟨[], answers, s, loop_of_some hconsumes (tuneBody_end hend), rfl,
      writesSucceed_of_no_writes rfl, by simp⟩
  | succ n ih =>
    have hgo : s.vars.oldval ≠ val + inc := by
      rw [hs, ← hval]
      intro heq
      have hzero : ((n + 1 : Nat) : Int) * inc = 0 := by omega
      rcases Int.mul_eq_zero.1 hzero with h | h
      · omega
      · exact hinc h
    cases answers with
    | nil => cases hlen
    | cons reply answers =>
      cases reply with
      | fail errno =>
        obtain ⟨s', hrun⟩ := @tuneBody_fail reg val inc answers s hgo errno
        refine .inr ⟨write reg s.vars.oldval, errno, rfl, ?_, List.mem_cons_self⟩
        rw [loop_run hconsumes, hrun]
        exact List.mem_singleton_self _
      | ok word =>
        rw [loop_of_none hconsumes (tuneBody_ok hgo word)]
        have hnext : oldval + inc + n * inc = val := by
          rw [← hval, Int.natCast_add, Int.add_mul]
          omega
        rcases ih (oldval + inc) answers { s with vars := { oldval := s.vars.oldval + inc } }
          (congrArg (· + inc) hs) hnext (Nat.le_of_succ_le_succ hlen) with
          ⟨evs, answers', s', hrun, hwrites, hsucc, hcount⟩ | ⟨r, errno, hr, he, ha⟩
        · refine .inl ⟨_, answers', s', by rw [hrun]; rfl, ?_, .append ?_ hsucc, ?_⟩
          · rw [writes_append, hwrites, hs]
            rfl
          · intro e he _
            rw [List.mem_singleton.1 he]
            exact ⟨word, rfl⟩
          · rw [List.length_cons, hcount]
            omega
        · exact .inr ⟨r, errno, hr, List.mem_append_right _ he, List.mem_cons_of_mem _ ha⟩

end

/-! ## The path -/

/-- The bytes differ by one, without a wrap. -/
def Adjacent (a b : BitVec 8) : Prop := a.toNat + 1 = b.toNat ∨ b.toNat + 1 = a.toNat

theorem adjacent_ofInt {x inc : Int} (hinc : inc = 1 ∨ inc = -1) (hx : 0 ≤ x ∧ x ≤ 255)
    (hnext : 0 ≤ x + inc ∧ x + inc ≤ 255) :
    Adjacent (BitVec.ofInt 8 x) (BitVec.ofInt 8 (x + inc)) := by
  unfold Adjacent
  rw [BitVec.toNat_ofInt, BitVec.toNat_ofInt]
  omega

/-- Between two bytes the path has steps of one, and none of them wraps. -/
theorem path_isChain {inc : Int} (hinc : inc = 1 ∨ inc = -1) (n : Nat) (oldval : Int)
    (hstart : 0 ≤ oldval ∧ oldval ≤ 255) (hend : 0 ≤ oldval + n * inc ∧ oldval + n * inc ≤ 255) :
    ((oldval :: path inc n oldval).map (BitVec.ofInt 8)).IsChain Adjacent := by
  induction n generalizing oldval with
  | zero => exact .singleton _
  | succ n ih =>
    have hmul : ((n + 1 : Nat) : Int) * inc = inc + n * inc := by
      rw [Int.natCast_add, Int.add_mul]
      omega
    have hnext : 0 ≤ oldval + inc ∧ oldval + inc ≤ 255 := by
      rcases hinc with rfl | rfl <;> omega
    have hrest := ih (oldval + inc) hnext (by omega)
    exact .cons_cons (adjacent_ofInt hinc hstart hnext) hrest

theorem path_concat (inc : Int) (n : Nat) (oldval : Int) :
    path inc (n + 1) oldval = path inc n oldval ++ [oldval + ((n + 1 : Nat) : Int) * inc] := by
  induction n generalizing oldval with
  | zero => simp [path]
  | succ n ih =>
    have hlast : oldval + inc + ((n + 1 : Nat) : Int) * inc =
        oldval + ((n + 1 + 1 : Nat) : Int) * inc := by
      rw [Int.natCast_add (n + 1) 1, Int.add_mul]
      omega
    rw [path, ih, hlast]
    rfl

/-! ## A run -/

/-- The answer to the first read of a register that contains `v`; it may fail. -/
def firstRead (v : BitVec 8) : Option Nat → Reply
  | none => .ok (v.setWidth 16)
  | some errno => .fail errno

/-- The value that `main` has after the first read. -/
def firstValue (v : BitVec 8) : Option Nat → Int
  | none => v.toNat
  | some _ => -1

/-- How many steps the target is away, and the direction. -/
def steps (val oldval : Int) : Nat := (val - oldval).natAbs

def direction (val oldval : Int) : Int := if val > oldval then 1 else -1

theorem direction_cases (val oldval : Int) :
    direction val oldval = 1 ∨ direction val oldval = -1 := by
  unfold direction
  split
  · exact .inl rfl
  · exact .inr rfl

theorem add_steps (val oldval : Int) : oldval + steps val oldval * direction val oldval = val := by
  unfold steps direction
  split <;> omega

/-- What `smbioctl_readB` returns for an answer. -/
def readValue : Reply → Int
  | .ok ret => (ret.setWidth 8).toNat
  | .fail _ => -1

theorem readValue_first (v : BitVec 8) (failed : Option Nat) :
    readValue (firstRead v failed) = firstValue v failed := by
  cases failed with
  | none => simp [readValue, firstRead, firstValue]
  | some errno => rfl

theorem smbioctlReadB_run (reg : Int) (reply : Reply) (answers : List Reply) (s : State Vars) :
    ∃ s', smbioctlReadB slave reg (reply :: answers) s =
      { outcome := .ret (readValue reply)
        events := [(.readB slave (BitVec.ofInt 8 reg), reply)], answers, state := s' } := by
  cases reply with
  | ok word => exact ⟨s, rfl⟩
  | fail errno => exact ⟨{ s with errno }, rfl⟩

/-- The run sends the values to the register and returns 0, unless a write fails. -/
def Sends (reg : Int) (values : List Int) (answers : List Reply)
    (run : Run Req Reply (State Vars) Nat) : Prop :=
  (run.outcome = .ret 0 ∧ writes run.events = values.map (write reg) ∧
      WritesSucceed run.events) ∨
    WriteFails run.events answers

/-- Events before a run that are no writes. -/
theorem Sends.after {reg : Int} {values : List Int} {answers : List Reply}
    {run : Run Req Reply (State Vars) Nat} (h : Sends reg values answers run) {evs : List Event}
    (hevs : writes evs = []) : Sends reg values answers (run.after evs) := by
  rcases h with ⟨hret, hwrites, hsucc⟩ | ⟨r, errno, hr, he, ha⟩
  · refine .inl ⟨hret, ?_, (writesSucceed_of_no_writes hevs).append hsucc⟩
    show writes (evs ++ run.events) = _
    rw [writes_append, hevs, hwrites]
    rfl
  · exact .inr ⟨r, errno, hr, List.mem_append_right _ he, ha⟩

/-- The run from the loop to the end of `main`. -/
theorem sends_loop {reg val inc : Int} (hinc : inc ≠ 0) (n : Nat) {oldval : Int}
    {answers : List Reply} {s : State Vars} {text : Int → String}
    (hs : s.vars.oldval = oldval + inc) (hval : oldval + n * inc = val)
    (hlen : n < answers.length) :
    Sends reg (path inc n oldval) answers ((do
      Prog.loop (tuneBody reg val inc)
      let val ← smbioctlReadB slave reg
      printf (text val)
      pure 0 : Io Vars Nat) answers s) := by
  rcases tune_loop reg val inc hinc n oldval answers s hs hval (Nat.le_of_lt hlen) with
    ⟨evs, answers', s', hloop, hwrites, hsucc, hcount⟩ | ⟨r, errno, hr, he, ha⟩
  · cases answers' with
    | nil =>
      rw [List.length_nil] at hcount
      omega
    | cons reply answers' =>
      obtain ⟨s₂, hread⟩ := smbioctlReadB_run reg reply answers' s'
      rw [bind_of_ret hloop, bind_of_ret hread, bind_of_ret (p := printf _) rfl]
      refine .inl ⟨rfl, ?_, hsucc.append (writesSucceed_of_no_writes rfl)⟩
      show writes (evs ++ [(.readB slave (BitVec.ofInt 8 reg), reply)]) = _
      rw [writes_append, hwrites]
      exact List.append_nil _
  · obtain ⟨evs, hevs⟩ := andThen_events (loop (tuneBody reg val inc) answers s) fun _ => do
      let val ← smbioctlReadB slave reg
      printf (text val)
      pure 0
    refine .inr ⟨r, errno, hr, ?_, ha⟩
    rw [bind_run, hevs]
    exact List.mem_append_left _ he

/-- **The run of `main`** on an open device: it sends the path from the value of the first read to
the target. -/
theorem main_sends (regWord valWord : String) (v : BitVec 8) (failed : Option Nat)
    (opened : BitVec 16) (answers : List Reply) (s : State Vars)
    (hlen : steps (int valWord) (firstValue v failed) < answers.length) :
    Sends (int regWord) (path (direction (int valWord) (firstValue v failed))
        (steps (int valWord) (firstValue v failed)) (firstValue v failed)) answers
      (main regWord valWord (.ok opened :: firstRead v failed :: answers) s) := by
  have hinc : direction (int valWord) (firstValue v failed) ≠ 0 := by
    rcases direction_cases (int valWord) (firstValue v failed) with h | h <;> rw [h] <;> decide
  obtain ⟨s₁, hread⟩ := smbioctlReadB_run (int regWord) (firstRead v failed) answers s
  rw [readValue_first] at hread
  unfold main
  rw [bind_of_ret (call_ok ..)]
  simp only [bind_of_ret hread]
  rw [bind_of_ret (p := printf _) rfl, bind_of_ret (p := Prog.modify _) rfl]
  have hloop := fun s hs text => @sends_loop (int regWord) _ _ hinc _ _ answers s text hs
    (add_steps (int valWord) (firstValue v failed)) hlen
  -- before the loop: the open, the read, the message and the assignment
  exact ((((hloop _ rfl _).after rfl).after rfl).after rfl).after rfl

/-! ## Gentle changes -/

/-- What the bytes sent to a register that contains `v` are to be: neighbour after neighbour, from
one next to `v` to the target, and none when the register is at the target, the target is no byte,
or the first read `failed`. -/
structure Gentle (v : BitVec 8) (failed : Bool) (target : Nat) (bytes : List (BitVec 8)) :
    Prop where
  neighbours : (v :: bytes).IsChain Adjacent
  last : ∀ b ∈ bytes.getLast?, b.toNat = target
  reached : v.toNat = target → bytes = []
  range : 255 < target → bytes = []
  read : failed = true → bytes = []

theorem gentle_nil (v : BitVec 8) (failed : Bool) (target : Nat) : Gentle v failed target [] where
  neighbours := .singleton _
  last _ h := by cases h
  reached _ := rfl
  range _ := rfl
  read _ := rfl

/-- With every write succeeding, `main` returns 0 after gentle writes to the register and no
others. The register contains `v` at the first read, which fails with the errno `failed` if there
is one. -/
def TunesGently (regWord valWord : String) (v : BitVec 8) (failed : Option Nat) : Prop :=
  ∃ n, ∀ opened answers s, n ≤ answers.length →
    let run := main regWord valWord (.ok opened :: firstRead v failed :: answers) s
    WritesSucceed run.events →
      run.outcome = .ret 0 ∧
      ∃ bytes, Gentle v failed.isSome (strtoul valWord).value bytes ∧
        writes run.events = bytes.map (.writeB slave (BitVec.ofInt 8 (int regWord)))

/-- The bytes that `main` sends when the register contains `v`. -/
def sentBytes (valWord : String) (v : BitVec 8) (failed : Option Nat) : List (BitVec 8) :=
  (path (direction (int valWord) (firstValue v failed))
    (steps (int valWord) (firstValue v failed)) (firstValue v failed)).map (BitVec.ofInt 8)

section
variable {regWord valWord : String} {v : BitVec 8} {failed : Option Nat}

/-- The writes are gentle when these bytes are. -/
theorem tunesGently_iff_sentBytes :
    TunesGently regWord valWord v failed ↔
      Gentle v failed.isSome (strtoul valWord).value (sentBytes valWord v failed) := by
  have hmap : ∀ reg : Int, (path (direction (int valWord) (firstValue v failed))
      (steps (int valWord) (firstValue v failed)) (firstValue v failed)).map (write reg) =
        (sentBytes valWord v failed).map (.writeB slave (BitVec.ofInt 8 reg)) := by
    intro reg
    rw [sentBytes, List.map_map]
    rfl
  constructor
  · rintro ⟨n, h⟩
    -- answers that are long enough, all of them successes
    let answers : List Reply :=
      List.replicate (n + steps (int valWord) (firstValue v failed) + 1) (.ok 0#16)
    have hlen : answers.length = n + steps (int valWord) (firstValue v failed) + 1 :=
      List.length_replicate
    rcases main_sends regWord valWord v failed 0#16 answers (State.start { oldval := 0 })
      (by omega) with ⟨-, hwrites, hsucc⟩ | ⟨r, errno, -, -, ha⟩
    · obtain ⟨-, bytes, hgentle, hbytes⟩ := h 0#16 answers _ (by omega) hsucc
      rw [hwrites, hmap] at hbytes
      have hsame : sentBytes valWord v failed = bytes :=
        (List.map_inj_right fun a b hab => (Req.writeB.inj hab).2.2).1 hbytes
      rw [hsame]
      exact hgentle
    · cases List.eq_of_mem_replicate ha
  · intro hgentle
    refine ⟨steps (int valWord) (firstValue v failed) + 1, fun opened answers s hlen hsucc => ?_⟩
    rcases main_sends regWord valWord v failed opened answers s hlen with
      ⟨hret, hwrites, -⟩ | hfails
    · exact ⟨hret, _, hgentle, hwrites.trans (hmap _)⟩
    · exact absurd hsucc hfails.not_succeed

theorem sentBytes_reached (h : int valWord = firstValue v failed) :
    sentBytes valWord v failed = [] := by
  have hsteps : steps (int valWord) (firstValue v failed) = 0 := by
    rw [steps, h]
    omega
  rw [sentBytes, hsteps]
  rfl

/-- Otherwise the last byte is the target as it is sent. -/
theorem sentBytes_concat (h : int valWord ≠ firstValue v failed) :
    ∃ bytes, sentBytes valWord v failed = bytes ++ [BitVec.ofInt 8 (int valWord)] := by
  obtain ⟨n, hn⟩ : ∃ n, steps (int valWord) (firstValue v failed) = n + 1 :=
    ⟨steps (int valWord) (firstValue v failed) - 1, by unfold steps; omega⟩
  have hlast := add_steps (int valWord) (firstValue v failed)
  rw [sentBytes, hn, path_concat, ← hn, hlast, List.map_append]
  exact ⟨_, rfl⟩

/-- A target that is a byte. -/
theorem int_of_le (h : (strtoul valWord).value ≤ 255) : int valWord = (strtoul valWord).value := by
  unfold int
  rw [BitVec.toInt_eq_toNat_of_lt] <;>
    · rw [BitVec.toNat_setWidth, BitVec.toNat_ofNat]
      omega

theorem gentle_sentBytes (h : (strtoul valWord).value ≤ 255) :
    Gentle v false (strtoul valWord).value (sentBytes valWord v none) := by
  have hint := int_of_le h
  by_cases hreached : int valWord = v.toNat
  · rw [sentBytes_reached hreached]
    exact gentle_nil ..
  · obtain ⟨bytes, hbytes⟩ := @sentBytes_concat valWord v none hreached
    have hv := v.isLt
    refine ⟨?_, ?_, ?_, ?_, ?_⟩
    · have hchain := path_isChain (direction_cases (int valWord) v.toNat)
        (steps (int valWord) v.toNat) v.toNat (by omega) (by rw [add_steps]; omega)
      rw [List.map_cons, BitVec.ofInt_natCast, BitVec.ofNat_toNat, BitVec.setWidth_eq] at hchain
      exact hchain
    · intro b hb
      rw [hbytes, List.getLast?_concat] at hb
      cases hb
      rw [hint, BitVec.toNat_ofInt]
      omega
    · intro hv
      exact absurd (hint.trans (congrArg _ hv.symm)) hreached
    · intro hrange
      omega
    · intro hfalse
      cases hfalse

end

/-- **The register is tuned gently** exactly when the target as an `int` equals the value of the
first read, which is -1 if the read failed, or the read succeeded and the target is a byte. -/
theorem tunesGently_iff (regWord valWord : String) (v : BitVec 8) (failed : Option Nat) :
    TunesGently regWord valWord v failed ↔
      int valWord = firstValue v failed ∨ (failed = none ∧ (strtoul valWord).value ≤ 255) := by
  rw [tunesGently_iff_sentBytes]
  constructor
  · intro hgentle
    by_cases hreached : int valWord = firstValue v failed
    · exact .inl hreached
    · obtain ⟨bytes, hbytes⟩ := sentBytes_concat hreached
      have hsent : sentBytes valWord v failed ≠ [] := by simp [hbytes]
      refine .inr ⟨?_, ?_⟩
      · cases failed with
        | none => rfl
        | some errno => exact absurd (hgentle.read rfl) hsent
      · by_contra hrange
        exact hsent (hgentle.range (by omega))
  · rintro (hreached | ⟨rfl, hrange⟩)
    · rw [sentBytes_reached hreached]
      exact gentle_nil ..
    · exact gentle_sentBytes hrange

/-- The target 0x100 takes the register from 0xff to 0. -/
theorem tunes_past_the_top : ¬TunesGently "0x10" "0x100" 0xff#8 none := by
  rw [tunesGently_iff_sentBytes]
  intro hgentle
  have hsent : sentBytes "0x100" 0xff#8 none = [0#8] := by decide
  rw [hsent] at hgentle
  cases hgentle.range (by decide)

end Smb.TuneReg
