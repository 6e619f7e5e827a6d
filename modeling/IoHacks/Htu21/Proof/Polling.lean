import IoHacks.Htu21.Proof.Rules
import IoHacks.Htu21.Query

/-!
# Polling

Without hold the two paths of `request_raw` poll until the sensor has measured: the explicit path
by a start condition and a read, `transfer_raw` by one transfer. `transfer_raw` takes only the
no-acknowledge error 2 for a refusal, wherever in the transfer it arises. The explicit path takes
every failed start condition for one, and no failed read. So the two agree exactly when every
refusal comes at the start condition of its poll and the poll after the refusals does not fail at
its start condition (`polls_agree_iff`).
-/

namespace Htu21

open Lib Prog

/-! ## The loops go on only after an answer -/

theorem pollBody_consumes (holdMode : Bool) (count : Nat) : Consumes (pollBody holdMode count) := by
  intro answers s h
  have hread : ∀ answers s, ((readResponse count >>= fun error => pure (some error) :
      Io (Option Int)) answers s).outcome ≠ .ret none := by
    intro answers s h
    obtain ⟨error, -, h', -⟩ := bind_ret_inv h
    cases h'
  cases answers with
  | nil => cases holdMode <;> cases h
  | cons reply answers =>
    cases holdMode with
    | true =>
      cases reply with
      | ok bytes => exact absurd h (hread _ _)
      | fail errno bytes =>
        cases answers with
        | nil => cases h
        | cons reply answers => cases reply <;> cases h
    | false =>
      cases reply with
      | ok bytes => exact absurd h (hread _ _)
      | fail errno bytes => exact Nat.lt_succ_self _

theorem dataMsg_received (count : Nat) :
    (Ioctl.rdwr [Query.dataMsg count]).received = some count := by
  simp [Ioctl.received, Query.dataMsg, iicMRd]

theorem transferBody_ok (count : Nat) (bytes : Frame) (answers : List Reply) (s : State) :
    Query.transferBody count (.ok bytes :: answers) s =
      { outcome := .ret (some 0)
        events := [(.ioctl (.rdwr [Query.dataMsg count]), .ok bytes)]
        answers, state := { s with data := bytes.fill count s.data } } := by
  unfold Query.transferBody
  rw [bind_of_ret (ioctl_ok ..), bind_of_ret (p := Prog.get) rfl,
    receive_of_received (dataMsg_received count), if_neg fun h => not_failed h.1,
    if_neg not_failed]
  rfl

/-- A transfer that fails is repeated only for the no-acknowledge error. -/
theorem transferBody_fail (count errno : Nat) (bytes : Frame) (answers : List Reply) (s : State) :
    ∃ s', Query.transferBody count (.fail errno bytes :: answers) s =
        { outcome := .ret (if errno = 2 then none else some (-1))
          events := [(.ioctl (.rdwr [Query.dataMsg count]), .fail errno bytes)]
          answers, state := s' } ∧
      s'.data = bytes.fill count s.data := by
  unfold Query.transferBody
  rw [bind_of_ret (ioctl_fail ..), bind_of_ret (p := Prog.get) rfl,
    receive_of_received (dataMsg_received count)]
  by_cases he : errno = 2
  · rw [if_pos ⟨failed, he⟩, if_pos he]
    exact ⟨_, rfl, rfl⟩
  · rw [if_neg fun h => he h.2, if_pos failed, if_neg he]
    exact ⟨_, rfl, rfl⟩

theorem transferBody_consumes (count : Nat) : Consumes (Query.transferBody count) := by
  intro answers s h
  cases answers with
  | nil => cases h
  | cons reply answers =>
    cases reply with
    | ok bytes => cases h
    | fail errno bytes =>
      obtain ⟨s', hrun, -⟩ := transferBody_fail count errno bytes answers s
      rw [hrun]
      exact Nat.lt_succ_self _

/-! ## The polls -/

/-- The answers to the explicit path up to the polls: a start condition succeeds at once or on the
retry, the sensor takes the command, and the stop succeeds. -/
inductive Accepted where
  | first (started written stopped : Frame)
  | retried (errno : Nat) (h : errno ≠ enodev) (bytes started written stopped : Frame)

def Accepted.replies : Accepted → List Reply
  | .first started written stopped => [.ok started, .ok written, .ok stopped]
  | .retried errno _ bytes started written stopped =>
    [.fail errno bytes, .ok started, .ok written, .ok stopped]

/-- A poll that is refused with the no-acknowledge error 2, at its start condition or at its read.
A transfer is refused as a whole. -/
inductive Refusal where
  | atStart (bytes : Frame)
  | atRead (started bytes : Frame) (stop : Reply)

/-- The answers to a refused poll of the explicit path, with the one to its stop. -/
def Refusal.explicit : Refusal → List Reply
  | .atStart bytes => [.fail 2 bytes]
  | .atRead started bytes stop => [.ok started, .fail 2 bytes, stop]

/-- The bytes that a refused transfer leaves in the buffer. -/
def Refusal.bytes : Refusal → Frame
  | .atStart bytes => bytes
  | .atRead _ bytes _ => bytes

/-- The answer to a refused poll of `transfer_raw`. -/
def Refusal.transfer (r : Refusal) : Reply := .fail 2 r.bytes

def Refusal.AtStart : Refusal → Prop
  | .atStart _ => True
  | .atRead _ _ _ => False

/-- How the poll after the refusals ends: it delivers `bytes`, or it fails at its start condition
or at its read with an error that is no refusal. A transfer fails as a whole. -/
inductive PollEnd where
  | delivers (started bytes : Frame)
  | startFails (errno : Nat) (h : errno ≠ 2) (bytes : Frame)
  | readFails (started : Frame) (errno : Nat) (h : errno ≠ 2) (bytes : Frame)

/-- The answers to the last poll of the explicit path, with the one to its stop. -/
def PollEnd.explicit (stop : Reply) : PollEnd → List Reply
  | .delivers started bytes => [.ok started, .ok bytes, stop]
  | .startFails errno _ bytes => [.fail errno bytes]
  | .readFails started errno _ bytes => [.ok started, .fail errno bytes, stop]

/-- The answer to the last poll of `transfer_raw`. -/
def PollEnd.transfer : PollEnd → Reply
  | .delivers _ bytes => .ok bytes
  | .startFails errno _ bytes => .fail errno bytes
  | .readFails _ errno _ bytes => .fail errno bytes

/-- The bytes that the last poll delivers. -/
def PollEnd.bytes : PollEnd → Option Frame
  | .delivers _ bytes => some bytes
  | _ => none

def PollEnd.StartFails : PollEnd → Prop
  | .startFails _ _ _ => True
  | _ => False

/-- How often the events start a poll of the explicit path. -/
def explicitPolls (evs : List Event) : Nat :=
  evs.countP fun e => decide (e.1 = .ioctl (.start pollReq))

/-- How often the events start a poll of `transfer_raw`. -/
def transferPolls (count : Nat) (evs : List Event) : Nat :=
  evs.countP fun e => decide (e.1 = .ioctl (.rdwr [Query.dataMsg count]))

theorem explicitPolls_append (evs evs' : List Event) :
    explicitPolls (evs ++ evs') = explicitPolls evs + explicitPolls evs' := List.countP_append

theorem transferPolls_append (count : Nat) (evs evs' : List Event) :
    transferPolls count (evs ++ evs') = transferPolls count evs + transferPolls count evs' :=
  List.countP_append

section
variable {count : Nat} {answers : List Reply} {s : State}

/-! ## The explicit path -/

/-- A start condition that fails is followed by another poll, whatever its error. -/
theorem poll_startFails (errno : Nat) (bytes : Frame) :
    poll false count (.fail errno bytes :: answers) s =
      (poll false count answers { s with errno }).after
        [(.ioctl (.start pollReq), .fail errno bytes)] :=
  loop_of_none (pollBody_consumes false count) rfl

/-- A poll whose start condition succeeds ends the request with the result of its read. -/
theorem poll_read (started : Frame) (reply stop : Reply) :
    ∃ evs s', explicitPolls evs = 1 ∧
      poll false count (.ok started :: reply :: stop :: answers) s =
        { outcome := .ret (match reply with | .ok _ => 0 | .fail _ _ => -1), events := evs, answers
          state := s' } ∧
      ∀ bytes, reply = .ok bytes → s'.data = bytes.fill count s.data := by
  have hc := pollBody_consumes false count
  cases reply with
  | ok bytes =>
    cases stop with
    | ok _ => exact ⟨_, _, rfl, loop_of_some hc rfl, fun _ h => by cases h; rfl⟩
    | fail errno _ => exact ⟨_, _, rfl, loop_of_some hc rfl, fun _ h => by cases h; rfl⟩
  | fail errno bytes =>
    cases stop with
    | ok _ => exact ⟨_, _, rfl, loop_of_some hc rfl, fun _ h => by cases h⟩
    | fail errno _ => exact ⟨_, _, rfl, loop_of_some hc rfl, fun _ h => by cases h⟩

/-- Refusals at the start condition are polled through. -/
theorem poll_refusals {refusals : List Refusal} (h : ∀ r ∈ refusals, r.AtStart) :
    ∃ evs s', explicitPolls evs = refusals.length ∧ s'.data = s.data ∧
      poll false count (refusals.flatMap Refusal.explicit ++ answers) s =
        (poll false count answers s').after evs := by
  induction refusals generalizing s with
  | nil => exact ⟨[], s, rfl, rfl, rfl⟩
  | cons r refusals ih =>
    obtain ⟨hr, hrs⟩ := List.forall_mem_cons.1 h
    cases r with
    | atRead started bytes stop => exact absurd hr id
    | atStart bytes =>
      obtain ⟨evs, s', hn, hd, hrun⟩ := ih (s := { s with errno := 2 }) hrs
      refine ⟨(.ioctl (.start pollReq), .fail 2 bytes) :: evs, s', ?_, hd, ?_⟩
      · rw [explicitPolls, List.countP_cons_of_pos (by simp), ← explicitPolls, hn,
          List.length_cons]
      · show poll false count
          (.fail 2 bytes :: (refusals.flatMap Refusal.explicit ++ answers)) s = _
        rw [poll_startFails, hrun]
        rfl

/-- A refusal at the read ends the request with an error, before the poll after the refusals. -/
theorem poll_refused_read {refusals : List Refusal} (h : ¬∀ r ∈ refusals, r.AtStart) :
    ∃ evs answers' s', explicitPolls evs ≤ refusals.length ∧
      poll false count (refusals.flatMap Refusal.explicit ++ answers) s =
        { outcome := .ret (-1), events := evs, answers := answers', state := s' } := by
  induction refusals generalizing s with
  | nil => exact absurd (List.forall_mem_nil _) h
  | cons r refusals ih =>
    cases r with
    | atRead started bytes stop =>
      obtain ⟨evs, s', hn, hrun, -⟩ := @poll_read count
        (refusals.flatMap Refusal.explicit ++ answers) s started (.fail 2 bytes) stop
      exact ⟨evs, _, s', by rw [hn, List.length_cons]; omega, hrun⟩
    | atStart bytes =>
      have hrs : ¬∀ r ∈ refusals, r.AtStart := fun hrs => h (List.forall_mem_cons.2 ⟨trivial, hrs⟩)
      obtain ⟨evs, answers', s', hn, hrun⟩ := ih (s := { s with errno := 2 }) hrs
      refine ⟨(.ioctl (.start pollReq), .fail 2 bytes) :: evs, answers', s', ?_, ?_⟩
      · rw [explicitPolls, List.countP_cons_of_pos (by simp), ← explicitPolls, List.length_cons]
        omega
      · show poll false count
          (.fail 2 bytes :: (refusals.flatMap Refusal.explicit ++ answers)) s = _
        rw [poll_startFails, hrun]
        rfl

/-- The last poll ends the request, unless its start condition fails. -/
theorem explicit_end {e : PollEnd} (h : ¬e.StartFails) (stop : Reply) :
    ∃ evs s' error, explicitPolls evs = 1 ∧
      poll false count (e.explicit stop ++ answers) s =
        { outcome := .ret error, events := evs, answers, state := s' } ∧
      (error = 0 ↔ e.bytes.isSome) ∧
      ∀ bytes, e.bytes = some bytes → s'.data = bytes.fill count s.data := by
  cases e with
  | startFails errno he bytes => exact absurd trivial h
  | delivers started bytes =>
    obtain ⟨evs, s', hn, hrun, hd⟩ := poll_read started (.ok bytes) stop
    refine ⟨evs, s', 0, hn, hrun, by simp [PollEnd.bytes], fun b hb => ?_⟩
    cases hb
    exact hd bytes rfl
  | readFails started errno he bytes =>
    obtain ⟨evs, s', hn, hrun, -⟩ := poll_read started (.fail errno bytes) stop
    refine ⟨evs, s', -1, hn, hrun, by simp [PollEnd.bytes], fun b hb => ?_⟩
    cases hb

/-- A poll loop that returns has polled. -/
theorem one_le_explicitPolls {error : Int}
    (h : (poll false count answers s).outcome = .ret error) :
    1 ≤ explicitPolls (poll false count answers s).events := by
  have hone : ∀ reply evs,
      1 ≤ explicitPolls ((.ioctl (.start pollReq), reply) :: evs) := fun reply evs => by
    rw [explicitPolls, List.countP_cons_of_pos (by simp)]
    exact Nat.le_add_left 1 _
  cases answers with
  | nil =>
    unfold poll at h
    rw [loop_run (pollBody_consumes false count)] at h
    cases h
  | cons reply answers =>
    cases reply with
    | ok bytes =>
      unfold poll
      rw [loop_run (pollBody_consumes false count)]
      obtain ⟨evs, he⟩ := andThen_events (pollBody false count (.ok bytes :: answers) s)
        (next (loop (pollBody false count)))
      rw [he]
      exact hone _ _
    | fail errno bytes =>
      rw [poll_startFails]
      exact hone _ _

theorem explicit_accepted (verbosity : Nat) (cmd : BitVec 8) (start : Accepted) :
    ∃ evs s', explicitPolls evs = 0 ∧ s'.data = s.data ∧
      Query.requestRaw { holdMode := false, xferMode := false, verbosity } cmd count
        (start.replies ++ answers) s = (poll false count answers s').after evs := by
  unfold Query.requestRaw
  rw [if_neg (by simp)]
  cases start with
  | first started written stopped =>
    exact ⟨[(.ioctl (.start startReq), .ok started),
      (.ioctl (.write { startReq with buf := .cmd cmd, count := 1, last := 0 }), .ok written),
      (.ioctl .stop, .ok stopped)], s, rfl, rfl, rfl⟩
  | retried errno h bytes started written stopped =>
    refine ⟨[(.ioctl (.start startReq), .fail errno bytes), (.ioctl (.start startReq), .ok started),
      (.ioctl (.write { startReq with buf := .cmd cmd, count := 1, last := 0 }), .ok written),
      (.ioctl .stop, .ok stopped)], { s with errno }, rfl, rfl, ?_⟩
    show (ioctl (.start startReq) >>= fun error => _)
      (.fail errno bytes :: .ok started :: .ok written :: .ok stopped :: answers) s = _
    rw [bind_of_ret (ioctl_fail ..), bind_of_ret (p := Prog.get) rfl, if_neg fun hn => h hn.2]
    rfl

/-! ## The transfer path -/

/-- Every refused transfer is repeated. -/
theorem transfer_refusals (refusals : List Refusal) :
    ∃ evs s', transferPolls count evs = refusals.length ∧
      (∀ bytes : Frame, bytes.fill count s'.data = bytes.fill count s.data) ∧
      loop (Query.transferBody count) (refusals.map Refusal.transfer ++ answers) s =
        (loop (Query.transferBody count) answers s').after evs := by
  induction refusals generalizing s with
  | nil => exact ⟨[], s, rfl, fun _ => rfl, rfl⟩
  | cons r refusals ih =>
    obtain ⟨s₁, hbody, hd₁⟩ :=
      transferBody_fail count 2 r.bytes (refusals.map Refusal.transfer ++ answers) s
    obtain ⟨evs, s', hn, hd, hrun⟩ := ih (s := s₁)
    refine ⟨(.ioctl (.rdwr [Query.dataMsg count]), r.transfer) :: evs, s', ?_, fun b => ?_, ?_⟩
    · rw [transferPolls, List.countP_cons_of_pos (by simp), ← transferPolls, hn, List.length_cons]
    · rw [hd, hd₁, fill_fill]
    · show loop _ (.fail 2 r.bytes :: (refusals.map Refusal.transfer ++ answers)) s = _
      rw [loop_of_none (transferBody_consumes count) hbody, hrun]
      rfl

/-- The last transfer ends the request. -/
theorem transfer_end (e : PollEnd) :
    ∃ evs s' error, transferPolls count evs = 1 ∧
      loop (Query.transferBody count) (e.transfer :: answers) s =
        { outcome := .ret error, events := evs, answers, state := s' } ∧
      (error = 0 ↔ e.bytes.isSome) ∧
      ∀ bytes, e.bytes = some bytes → s'.data = bytes.fill count s.data := by
  have hc := transferBody_consumes count
  have hfail : ∀ errno bytes, errno ≠ 2 → ∃ s', loop (Query.transferBody count)
      (.fail errno bytes :: answers) s = { outcome := .ret (-1)
                                           events := [(.ioctl (.rdwr [Query.dataMsg count]),
                                             .fail errno bytes)]
                                           answers, state := s' } := by
    intro errno bytes he
    obtain ⟨s', hbody, -⟩ := transferBody_fail count errno bytes answers s
    rw [if_neg he] at hbody
    exact ⟨s', loop_of_some hc hbody⟩
  have hone : ∀ reply, transferPolls count [(.ioctl (.rdwr [Query.dataMsg count]), reply)] = 1 :=
    fun _ => by simp [transferPolls]
  cases e with
  | delivers started bytes =>
    refine ⟨_, _, _, hone (.ok bytes), loop_of_some hc (transferBody_ok ..),
      by simp [PollEnd.bytes], fun b hb => ?_⟩
    cases hb
    rfl
  | startFails errno he bytes =>
    obtain ⟨s', hrun⟩ := hfail errno bytes he
    exact ⟨_, _, _, hone _, hrun, by simp [PollEnd.bytes], fun b hb => by cases hb⟩
  | readFails started errno he bytes =>
    obtain ⟨s', hrun⟩ := hfail errno bytes he
    exact ⟨_, _, _, hone _, hrun, by simp [PollEnd.bytes], fun b hb => by cases hb⟩

/-- Without hold, `transfer_raw` sends the command and polls. -/
theorem transferRaw_accepted (cmd : BitVec 8) (accepted : Frame) :
    Query.transferRaw false cmd count (.ok accepted :: answers) s =
      (loop (Query.transferBody count) answers s).after
        [(.ioctl (.rdwr [Query.cmdMsg false cmd]), .ok accepted)] := by
  have hrec : (Ioctl.rdwr [Query.cmdMsg false cmd]).received = none := by
    simp [Ioctl.received, Query.cmdMsg]
  unfold Query.transferRaw
  rw [if_neg (by simp), bind_of_ret (ioctl_ok ..), if_neg not_failed, State.receive, hrec]

/-- `transfer_raw` ends after the refusals and one more poll. -/
theorem transfer_run (cmd : BitVec 8) (accepted : Frame) (refusals : List Refusal)
    (e : PollEnd) :
    ∃ evs s' error, transferPolls count evs = refusals.length + 1 ∧
      Query.transferRaw false cmd count
        (.ok accepted :: (refusals.map Refusal.transfer ++ (e.transfer :: answers))) s =
          { outcome := .ret error, events := evs, answers, state := s' } ∧
      (error = 0 ↔ e.bytes.isSome) ∧
      ∀ bytes, e.bytes = some bytes → s'.data = bytes.fill count s.data := by
  obtain ⟨evs₁, s₁, hn₁, hd₁, hrun₁⟩ := @transfer_refusals count (e.transfer :: answers) s refusals
  obtain ⟨evs₂, s₂, error, hn₂, hrun₂, herr, hbytes⟩ := @transfer_end count answers s₁ e
  refine ⟨(.ioctl (.rdwr [Query.cmdMsg false cmd]), .ok accepted) :: (evs₁ ++ evs₂), s₂, error, ?_,
    ?_, herr, fun bytes hb => (hbytes bytes hb).trans (hd₁ bytes)⟩
  · rw [transferPolls, List.countP_cons_of_neg (by simp [Query.cmdMsg, Query.dataMsg]),
      ← transferPolls, transferPolls_append, hn₁, hn₂]
  · rw [transferRaw_accepted, hrun₁, hrun₂]
    rfl

end

/-! ## Agreement -/

/-- The runs `r` of the explicit path and `t` of `transfer_raw` from the state `s` agree: both
return, with 0 and the delivered bytes or both with an error, after `n` retries. -/
structure PollsAgree (count : Nat) (s : State) (n : Nat) (e : PollEnd)
    (r t : Run Req Reply State Int) : Prop where
  returns : ∃ error error', r.outcome = .ret error ∧ t.outcome = .ret error' ∧
    (error = 0 ↔ e.bytes.isSome) ∧ (error' = 0 ↔ e.bytes.isSome)
  bytes : ∀ bytes, e.bytes = some bytes →
    r.state.data = bytes.fill count s.data ∧ t.state.data = bytes.fill count s.data
  retries : explicitPolls r.events = n + 1 ∧ transferPolls count t.events = n + 1

/-- **The two polling paths agree** if and only if every refusal comes at the start condition of its
poll and the poll after the refusals does not fail at its start condition. -/
theorem polls_agree_iff (verbosity : Nat) (cmd : BitVec 8) (count : Nat) (start : Accepted)
    (accepted : Frame) (refusals : List Refusal) (e : PollEnd) (stop : Reply)
    (rest rest' : List Reply) (s : State) :
    PollsAgree count s refusals.length e
      (Query.requestRaw { holdMode := false, xferMode := false, verbosity } cmd count
        (start.replies ++ (refusals.flatMap Refusal.explicit ++ (e.explicit stop ++ rest))) s)
      (Query.transferRaw false cmd count
        (.ok accepted :: (refusals.map Refusal.transfer ++ (e.transfer :: rest'))) s) ↔
    (∀ r ∈ refusals, r.AtStart) ∧ ¬e.StartFails := by
  obtain ⟨evs₀, s₀, hn₀, hd₀, hrun₀⟩ := @explicit_accepted count
    (refusals.flatMap Refusal.explicit ++ (e.explicit stop ++ rest)) s verbosity cmd start
  obtain ⟨evs', s', error', hn', hrun', herr', hbytes'⟩ :=
    @transfer_run count rest' s cmd accepted refusals e
  rw [hrun₀, hrun']
  by_cases hrs : ∀ r ∈ refusals, r.AtStart
  · obtain ⟨evs, s₁, hn, hd, hrun⟩ := @poll_refusals count (e.explicit stop ++ rest) s₀ refusals hrs
    rw [hrun, Run.after_after]
    by_cases hf : e.StartFails
    · refine iff_of_false (fun h => ?_) fun h => h.2 hf
      -- the explicit path polls again
      obtain ⟨error, -, hret, -⟩ := h.returns
      have hcount := h.retries.1
      cases e with
      | delivers started bytes => exact hf
      | readFails started errno he bytes => exact hf
      | startFails errno he bytes =>
        have hagain : poll false count
            ((PollEnd.startFails errno he bytes).explicit stop ++ rest) s₁ =
          (poll false count rest { s₁ with errno }).after
            [(.ioctl (.start pollReq), .fail errno bytes)] := poll_startFails errno bytes
        rw [hagain] at hret hcount
        have hone := one_le_explicitPolls
          (show (poll false count rest { s₁ with errno }).outcome = .ret error from hret)
        have hx : explicitPolls [(.ioctl (.start pollReq), .fail errno bytes)] = 1 := by
          simp [explicitPolls]
        simp only [Run.after, explicitPolls_append, hx, hn₀, hn] at hcount
        omega
    · refine iff_of_true ?_ ⟨hrs, hf⟩
      obtain ⟨evs₂, s₂, error, hn₂, hrun₂, herr, hbytes⟩ := @explicit_end count rest s₁ e hf stop
      rw [hrun₂]
      refine ⟨⟨error, error', rfl, rfl, herr, herr'⟩, fun bytes hb => ⟨?_, hbytes' bytes hb⟩, ?_,
        hn'⟩
      · rw [Run.after_state, hbytes bytes hb, hd, hd₀]
      · simp only [Run.after, explicitPolls_append, hn₀, hn, hn₂, Nat.zero_add]
  · refine iff_of_false (fun h => ?_) fun h => hrs h.1
    -- the explicit path does not come to the poll after the refusals
    obtain ⟨evs, answers', s₁, hn, hrun⟩ :=
      @poll_refused_read count (e.explicit stop ++ rest) s₀ refusals hrs
    have hcount := h.retries.1
    rw [hrun] at hcount
    simp only [Run.after, explicitPolls_append, hn₀] at hcount
    omega

/-- A poll that fails with the error 5 at its start condition is retried by the explicit path,
which then returns 0 with the next reading; `transfer_raw` returns the error. -/
theorem polls_disagree :
    (Query.requestRaw { holdMode := false, xferMode := false, verbosity := 0 } htu21GetTempNH
        sizeofData ((Accepted.first default default default).replies ++
          (PollEnd.explicit (.ok default) (.startFails 5 (by decide) default) ++
            [.ok default, .ok ⟨0x68#8, 0x3a#8, 0x7c#8⟩, .ok default]))
        (State.start default)).outcome = .ret 0 ∧
      (Query.transferRaw false htu21GetTempNH sizeofData
        [.ok default, PollEnd.transfer (.startFails 5 (by decide) default)]
        (State.start default)).outcome = .ret (-1) ∧
      ¬PollsAgree sizeofData (State.start default) 0 (.startFails 5 (by decide) default)
        (Query.requestRaw { holdMode := false, xferMode := false, verbosity := 0 } htu21GetTempNH
          sizeofData ((Accepted.first default default default).replies ++
            (PollEnd.explicit (.ok default) (.startFails 5 (by decide) default) ++
              [.ok default, .ok ⟨0x68#8, 0x3a#8, 0x7c#8⟩, .ok default]))
          (State.start default))
        (Query.transferRaw false htu21GetTempNH sizeofData
          [.ok default, PollEnd.transfer (.startFails 5 (by decide) default)]
          (State.start default)) := by
  refine ⟨rfl, rfl, fun h => ?_⟩
  obtain ⟨error, error', hr, ht, herr, herr'⟩ := h.returns
  cases hr
  exact absurd (herr.1 rfl) (by simp [PollEnd.bytes])

end Htu21
