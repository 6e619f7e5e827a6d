import IoHacks.Htu21.Proof.Rules
import IoHacks.Htu21.Query
import IoHacks.Lib.Trace

/-!
# The readings of `htu21-query.c`

`main_readings`: what `main` prints and returns is what its two requests gave it, each on its own,
and the bytes of a request that returned 0 were delivered by a data read of that same request,
after its command was written (`requestRaw_delivers`). Only a device that cannot be opened keeps
`main` from the two requests.
-/

namespace Htu21

open Lib Prog

/-! ## Delivery -/

/-- The event wrote the command `cmd` to the sensor. -/
def Commands (cmd : BitVec 8) : Event → Prop
  | (.ioctl (.write req), .ok _) => req.buf = .cmd cmd
  | (.ioctl (.rdwr msgs), .ok _) => ∃ msg ∈ msgs, msg.flags &&& iicMRd = 0 ∧ msg.buf = .cmd cmd
  | _ => False

/-- The event is a successful data read that stored the whole of `data`. -/
def Delivers (data : Frame) : Event → Prop
  | (.ioctl i, .ok bytes) => i.received = some sizeofData ∧ bytes = data
  | _ => False

/-- The bytes `data` were delivered after the command `cmd` was written, or with it. -/
def Delivered (cmd : BitVec 8) (data : Frame) (evs : List Event) : Prop :=
  ∃ pre e post, evs = pre ++ e :: post ∧ Delivers data e ∧
    (Commands cmd e ∨ ∃ e' ∈ pre, Commands cmd e')

section
variable {cmd : BitVec 8} {data : Frame} {evs : List Event} {s : State} {e : Event}

theorem Delivered.concat (h : Delivered cmd data evs) : Delivered cmd data (evs ++ [e]) := by
  obtain ⟨pre, x, post, rfl, hd, hc⟩ := h
  exact ⟨pre, x, post ++ [e], by simp, hd, hc⟩

theorem commanded_concat (h : ∃ x ∈ evs, Commands cmd x) : ∃ x ∈ evs ++ [e], Commands cmd x := by
  obtain ⟨x, hx, hc⟩ := h
  exact ⟨x, List.mem_append_left _ hx, hc⟩

/-- A data read after the command delivers what it stores. -/
theorem delivered_concat (data : Frame) (hd : Delivers data e)
    (hc : Commands cmd e ∨ ∃ x ∈ evs, Commands cmd x) : Delivered cmd data (evs ++ [e]) :=
  ⟨evs, e, [], rfl, hd, hc⟩

/-- What a request for the command `cmd` leaves: it prints nothing, and it returns 0 only with
bytes that were delivered to it. -/
def deliveryPost (cmd : BitVec 8) (out : List String) : Post Req Reply State Int where
  ret error evs s := s.stdout = out ∧ (error = 0 → Delivered cmd s.data evs)
  exit _ _ _ := False
  wait _ _ := True

/-- A request that fails has nothing to deliver. -/
theorem failed_post {out : List String} (h : s.stdout = out) :
    (deliveryPost cmd out).ret (-1) evs s := ⟨h, fun h0 => absurd h0 failed⟩

/-- What holds once the command is written. -/
def CommandInv (cmd : BitVec 8) (out : List String) (evs : List Event) (s : State) : Prop :=
  s.stdout = out ∧ ∃ e ∈ evs, Commands cmd e

theorem CommandInv.concat {out : List String} (h : CommandInv cmd out evs s) {s' : State}
    (hs : s'.stdout = s.stdout) : CommandInv cmd out (evs ++ [e]) s' :=
  ⟨hs.trans h.1, commanded_concat h.2⟩

variable {out : List String}

/-! ## The explicit path -/

theorem delivers_readResponse (h : CommandInv cmd out evs s) :
    wp (readResponse sizeofData) (deliveryPost cmd out) evs s := by
  have hrec : (Ioctl.read { pollReq with count := sizeofData, last := 1, buf := .data }).received =
      some sizeofData := rfl
  refine wp_ioctl_bind trivial (fun bytes => ?_) fun errno bytes => ?_
  · rw [if_neg not_failed, receive_of_received hrec]
    have hd := delivered_concat bytes (e := (.ioctl
      (.read { pollReq with count := sizeofData, last := 1, buf := .data }), .ok bytes))
      ⟨hrec, rfl⟩ (.inr h.2)
    exact wp_pure_bind (wp_stop_pure trivial fun _ _ => ⟨h.1, fun _ => hd.concat⟩)
  · rw [if_pos failed]
    exact wp_eprintfErrno_bind fun _ => wp_stop_pure trivial fun _ _ =>
      failed_post ((receive_stdout ..).trans h.1)

theorem delivers_pollBody {holdMode : Bool} (h : CommandInv cmd out evs s) :
    wp (pollBody holdMode sizeofData) ((deliveryPost cmd out).iteration (CommandInv cmd out))
      evs s := by
  have hread : ∀ evs s, CommandInv cmd out evs s →
      wp (readResponse sizeofData >>= fun error => pure (some error))
        ((deliveryPost cmd out).iteration (CommandInv cmd out)) evs s := fun evs s h =>
    wp_seq (delivers_readResponse h) fun _ _ _ h => wp_pure h
  unfold pollBody
  cases holdMode with
  | true =>
    refine wp_ioctl_bind trivial (fun bytes => ?_) fun errno bytes => ?_
    · rw [if_neg not_failed]
      exact hread _ _ (h.concat (receive_stdout ..))
    · rw [if_pos failed, if_neg (by simp)]
      exact wp_eprintfErrno_bind fun _ => wp_stop_pure trivial fun _ _ =>
        failed_post ((receive_stdout ..).trans h.1)
  | false =>
    refine wp_ioctl_bind trivial (fun bytes => ?_) fun errno bytes => ?_
    · rw [if_neg not_failed]
      exact hread _ _ (h.concat (receive_stdout ..))
    · rw [if_pos failed, if_pos (by simp)]
      exact wp_pure_bind (wp_pure (h.concat (receive_stdout ..)))

theorem delivers_poll {holdMode : Bool} (h : CommandInv cmd out evs s) :
    wp (poll holdMode sizeofData) (deliveryPost cmd out) evs s :=
  wp_loop (CommandInv cmd out) (fun _ _ h => delivers_pollBody h) (fun _ _ _ => trivial) h

theorem delivers_sendCommand {holdMode : Bool} (h : s.stdout = out) :
    wp (sendCommand holdMode cmd sizeofData) (deliveryPost cmd out) evs s := by
  unfold sendCommand
  refine wp_ioctl_bind trivial (fun bytes => ?_) fun errno bytes => ?_
  · rw [if_neg not_failed]
    have hc : CommandInv cmd out (evs ++ [(.ioctl (.write { startReq with
        buf := .cmd cmd, count := 1, last := 0 }), .ok bytes)]) s :=
      ⟨h, _, List.mem_append_right _ (List.mem_singleton_self _), rfl⟩
    cases holdMode with
    | true =>
      rw [if_neg (by simp)]
      exact delivers_poll hc
    | false =>
      rw [if_pos (by simp)]
      refine wp_ioctl_bind trivial (fun bytes => ?_) fun errno bytes => ?_
      · rw [if_neg not_failed]
        exact delivers_poll (hc.concat (receive_stdout ..))
      · rw [if_pos failed]
        exact wp_eprintf_bind (wp_pure (failed_post h))
  · rw [if_pos failed]
    exact wp_eprintfErrno_bind fun _ => wp_stop_pure trivial fun _ _ => failed_post h

theorem delivers_explicitRequest {holdMode : Bool} {error : Int} (h : s.stdout = out) :
    wp (explicitRequest holdMode cmd sizeofData error) (deliveryPost cmd out) evs s := by
  unfold explicitRequest
  by_cases he : error ≠ 0
  · rw [if_pos he]
    refine wp_ioctl_bind trivial (fun bytes => ?_) fun errno bytes => ?_
    · rw [if_neg not_failed]
      exact delivers_sendCommand h
    · rw [if_pos failed]
      exact wp_eprintfErrno_bind fun _ => wp_stop_pure trivial fun _ _ => failed_post h
  · rw [if_neg he]
    refine wp_pure_bind ?_
    rw [if_neg he]
    exact delivers_sendCommand h

/-! ## The transfer path -/

theorem cmdMsg_flags (holdMode : Bool) (cmd : BitVec 8) :
    (Query.cmdMsg holdMode cmd).flags &&& iicMRd = 0 := by
  show (iicMWr ||| (if holdMode then iicMNoStop else 0)) &&& iicMRd = 0
  cases holdMode <;> decide

theorem delivers_transferBody (h : CommandInv cmd out evs s) :
    wp (Query.transferBody sizeofData) ((deliveryPost cmd out).iteration (CommandInv cmd out))
      evs s := by
  have hrec : (Ioctl.rdwr [Query.dataMsg sizeofData]).received = some sizeofData := rfl
  unfold Query.transferBody
  refine wp_ioctl_bind trivial (fun bytes => wp_get_bind ?_) fun errno bytes => wp_get_bind ?_
  · rw [if_neg fun h => not_failed h.1, if_neg not_failed, receive_of_received hrec]
    exact wp_pure ⟨h.1, fun _ => delivered_concat bytes ⟨hrec, rfl⟩ (.inr h.2)⟩
  · by_cases he : errno = 2
    · rw [if_pos ⟨failed, he⟩]
      exact wp_pure_bind (wp_pure (h.concat (receive_stdout ..)))
    · rw [if_neg fun h => he h.2, if_pos failed]
      exact wp_eprintfErrno_bind fun _ => wp_pure (failed_post ((receive_stdout ..).trans h.1))

theorem delivers_transferRaw {holdMode : Bool} (h : s.stdout = out) :
    wp (Query.transferRaw holdMode cmd sizeofData) (deliveryPost cmd out) evs s := by
  unfold Query.transferRaw
  cases holdMode with
  | true =>
    have hrec : (Ioctl.rdwr [Query.cmdMsg true cmd, Query.dataMsg sizeofData]).received =
        some sizeofData := by
      have hn : decide ((Query.cmdMsg true cmd).flags &&& iicMRd ≠ 0 ∧
          (Query.cmdMsg true cmd).buf = .data) = false :=
        decide_eq_false fun hc => hc.1 (cmdMsg_flags _ _)
      simp only [Ioctl.received, List.find?_cons, hn]
      rfl
    rw [if_pos rfl]
    refine wp_ioctl_bind trivial (fun bytes => ?_) fun errno bytes => ?_
    · rw [if_neg not_failed, receive_of_received hrec]
      refine wp_pure_bind (wp_pure ⟨h, fun _ => delivered_concat bytes ⟨hrec, rfl⟩ ?_⟩)
      exact .inl ⟨Query.cmdMsg true cmd, List.mem_cons_self .., cmdMsg_flags _ _, rfl⟩
    · rw [if_pos failed]
      exact wp_eprintfErrno_bind fun _ => wp_pure (failed_post ((receive_stdout ..).trans h))
  | false =>
    rw [if_neg (by simp)]
    refine wp_ioctl_bind trivial (fun bytes => ?_) fun errno bytes => ?_
    · rw [if_neg not_failed]
      have hc : Commands cmd (.ioctl (.rdwr [Query.cmdMsg false cmd]), .ok bytes) :=
        ⟨Query.cmdMsg false cmd, List.mem_cons_self .., cmdMsg_flags _ _, rfl⟩
      exact wp_loop (CommandInv cmd out) (fun _ _ h => delivers_transferBody h)
        (fun _ _ _ => trivial)
        ⟨(receive_stdout ..).trans h, _, List.mem_append_right _ (List.mem_singleton_self _), hc⟩
    · rw [if_pos failed]
      exact wp_eprintfErrno_bind fun _ => wp_pure (failed_post ((receive_stdout ..).trans h))

end

/-- **A request delivers its own bytes.** -/
theorem requestRaw_delivers (o : Query.Options) (cmd : BitVec 8) (s : State) :
    wp (Query.requestRaw o cmd sizeofData) (deliveryPost cmd s.stdout) [] s := by
  unfold Query.requestRaw
  by_cases hx : o.xferMode = true
  · rw [if_pos hx]
    exact delivers_transferRaw rfl
  · rw [if_neg hx]
    refine wp_ioctl_bind trivial (fun bytes => wp_get_bind ?_) fun errno bytes => wp_get_bind ?_
    · rw [if_neg fun h => not_failed h.1]
      exact delivers_explicitRequest rfl
    · by_cases he : errno = enodev
      · rw [if_pos ⟨failed, he⟩]
        by_cases hv : o.verbosity > 0
        · rw [if_pos hv]
          exact wp_bind (wp_eprintf_bind (wp_modify (delivers_transferRaw rfl)))
        · rw [if_neg hv]
          exact wp_pure_bind (delivers_transferRaw rfl)
      · rw [if_neg fun h => he h.2]
        exact delivers_explicitRequest rfl

/-! ## Reports -/

/-- The request returned 0, its bytes pass the checksum and its value is not zero. -/
def Reads (error : Int) (data : Frame) : Prop :=
  error = 0 ∧ validCrc data data.d2 = true ∧ data.raw ≠ 0#16

instance (error : Int) (data : Frame) : Decidable (Reads error data) :=
  inferInstanceAs (Decidable (_ ∧ _ ∧ _))

/-- What `main` prints for a request. -/
def Quantity.printed (q : Quantity) (error : Int) (data : Frame) : List String :=
  if Reads error data then [q.line (q.value data.raw)] else []

/-- A message under a condition. -/
theorem eprintf_ite_run (c : Prop) [Decidable c] (text : String) (answers : List Reply)
    (s : State) : ∃ stderr, (if c then eprintf text else pure () : Io Unit) answers s =
      { outcome := .ret (), events := [], answers, state := { s with stderr } } := by
  by_cases h : c
  · exact ⟨_, by rw [if_pos h]; rfl⟩
  · exact ⟨s.stderr, by rw [if_neg h]; rfl⟩

/-- **A report** prints the line of its own request or nothing. -/
theorem report_run (q : Quantity) (error : Int) (retval : Nat) (answers : List Reply) (s : State) :
    ∃ s', report q error retval answers s =
        { outcome := .ret (if Reads error s.data then retval else 1), events := [], answers,
          state := s' } ∧
      s'.stdout = s.stdout ++ q.printed error s.data := by
  unfold report Quantity.printed
  rw [bind_of_ret (p := Prog.get) rfl]
  by_cases he : error ≠ 0
  · have hr : ¬Reads error s.data := fun h => he h.1
    rw [if_pos he, if_neg hr, if_neg hr, List.append_nil]
    exact ⟨_, rfl, rfl⟩
  · rw [if_neg he]
    by_cases hc : validCrc s.data s.data.d2 = true
    · rw [if_neg (by simp [hc])]
      -- the messages about the status bits
      obtain ⟨e₁, h₁⟩ := eprintf_ite_run (s.data.status &&& 1#8 ≠ 0#8)
        "inconsistency: status bit zero is set\n" answers s
      obtain ⟨e₂, h₂⟩ := eprintf_ite_run (q.statusWrong s.data.status = true) q.statusText answers
        { s with stderr := e₁ }
      rw [bind_of_ret h₁, bind_of_ret h₂]
      by_cases hz : s.data.raw = 0#16
      · have hr : ¬Reads error s.data := fun h => h.2.2 hz
        rw [if_pos hz, if_neg hr, if_neg hr, List.append_nil]
        exact ⟨_, rfl, rfl⟩
      · have hr : Reads error s.data := ⟨not_not.1 he, hc, hz⟩
        rw [if_neg hz, if_pos hr, if_pos hr]
        exact ⟨_, rfl, rfl⟩
    · have hr : ¬Reads error s.data := fun h => hc h.2.1
      rw [if_pos (by simp [hc]), if_neg hr, if_neg hr, List.append_nil]
      exact ⟨_, rfl, rfl⟩

/-- Two requests and their reports, one after the other. -/
theorem readings_ret {holdMode : Bool} {requestRaw : BitVec 8 → Nat → Io Int}
    {answers : List Reply} {s : State} {status : Nat}
    (h : (readings holdMode requestRaw answers s).outcome = .ret status) :
    ∃ (t₁ t₂ : Run Req Reply State Int) (e₁ e₂ : Int) (s₂ : State),
      t₁ = requestRaw (temperature.command holdMode) sizeofData answers s ∧
      t₁.outcome = .ret e₁ ∧
      s₂.stdout = t₁.state.stdout ++ temperature.printed e₁ t₁.state.data ∧
      t₂ = requestRaw (humidity.command holdMode) sizeofData t₁.answers s₂ ∧
      t₂.outcome = .ret e₂ ∧
      (readings holdMode requestRaw answers s).events = t₁.events ++ t₂.events ∧
      (readings holdMode requestRaw answers s).state.stdout =
        t₂.state.stdout ++ humidity.printed e₂ t₂.state.data ∧
      status = if Reads e₂ t₂.state.data then (if Reads e₁ t₁.state.data then 0 else 1) else 1 := by
  unfold readings at h ⊢
  obtain ⟨e₁, h₁, h', hrun⟩ := bind_ret_inv h
  rw [hrun]
  generalize ht₁ : requestRaw (temperature.command holdMode) sizeofData answers s = t₁ at *
  obtain ⟨s₂, hr₁, hout₁⟩ := report_run temperature e₁ 0 t₁.answers t₁.state
  rw [bind_of_ret hr₁] at h' ⊢
  obtain ⟨e₂, h₂, h'', hrun'⟩ := bind_ret_inv h'
  generalize ht₂ : requestRaw (humidity.command holdMode) sizeofData t₁.answers s₂ = t₂ at *
  obtain ⟨s₃, hr₂, hout₂⟩ :=
    report_run humidity e₂ (if Reads e₁ t₁.state.data then 0 else 1) t₂.answers t₂.state
  refine ⟨t₁, t₂, e₁, e₂, s₂, rfl, h₁, hout₁, ht₂.symm, h₂, ?_, ?_, ?_⟩
  · rw [hrun', hr₂]
    simp only [Run.after, List.nil_append, List.append_nil]
  · rw [hrun', hr₂]
    exact hout₂
  · rw [hr₂] at h''
    cases h''
    rfl

/-! ## The program -/

/-- The options that the letters `chs` set. -/
def Query.Options.ofLetters (chs : List Char) : Query.Options where
  holdMode := decide ('H' ∈ chs)
  xferMode := decide ('x' ∈ chs)
  verbosity := chs.count 'v'

/-- What one letter does; an unknown one is only reported. -/
theorem setOption_run (o : Query.Options) (ch : Char) (answers : List Reply) (s : State) :
    ∃ stderr, Query.setOption o ch answers s =
      { outcome := .ret
          { holdMode := o.holdMode || decide (ch = 'H')
            xferMode := o.xferMode || decide (ch = 'x')
            verbosity := o.verbosity + if ch = 'v' then 1 else 0 }
        events := [], answers, state := { s with stderr } } := by
  unfold Query.setOption
  by_cases hH : ch = 'H'
  · subst hH
    exact ⟨s.stderr, by simp; rfl⟩
  · by_cases hv : ch = 'v'
    · subst hv
      exact ⟨s.stderr, by simp; rfl⟩
    · by_cases hx : ch = 'x'
      · subst hx
        exact ⟨s.stderr, by simp; rfl⟩
      · exact ⟨_, by simp [hH, hv, hx]; rfl⟩

theorem setOptions_run (o : Query.Options) (chs : List Char) (answers : List Reply) (s : State) :
    ∃ stderr, Query.setOptions o chs answers s =
      { outcome := .ret
          { holdMode := o.holdMode || decide ('H' ∈ chs)
            xferMode := o.xferMode || decide ('x' ∈ chs)
            verbosity := o.verbosity + chs.count 'v' }
        events := [], answers, state := { s with stderr } } := by
  induction chs generalizing o s with
  | nil => exact ⟨s.stderr, by simp [Query.setOptions]; rfl⟩
  | cons ch chs ih =>
    obtain ⟨e₁, h₁⟩ := setOption_run o ch answers s
    obtain ⟨e₂, h₂⟩ := ih { holdMode := o.holdMode || decide (ch = 'H')
                            xferMode := o.xferMode || decide (ch = 'x')
                            verbosity := o.verbosity + if ch = 'v' then 1 else 0 }
      { s with stderr := e₁ }
    refine ⟨e₂, ?_⟩
    unfold Query.setOptions
    rw [bind_of_ret h₁, h₂]
    simp only [Run.after, List.nil_append, List.mem_cons, Bool.decide_or, Bool.or_assoc,
      List.count_cons, beq_iff_eq, Nat.add_assoc, eq_comm (b := ch)]
    rw [Nat.add_comm (List.count 'v' chs)]

/-- The options that the arguments set. -/
def Query.optionsOf (args : List String) : Query.Options :=
  Query.Options.ofLetters (getopt ['H', 'v', 'x'] args).1

/-- The device that the arguments name. -/
def Query.deviceOf (args : List String) : String :=
  (getopt ['H', 'v', 'x'] args).2[0]?.getD i2cDev

/-- `main` up to the opening of the device. -/
theorem main_run (args : List String) (answers : List Reply) (s : State) :
    ∃ stderr, Query.main args answers s =
      (openDev (Query.deviceOf args) >>= fun fd =>
        if fd = -1 then err 1 "open failed"
        else readings (Query.optionsOf args).holdMode (Query.requestRaw (Query.optionsOf args)))
        answers { s with stderr } := by
  obtain ⟨e₁, h₁⟩ := setOptions_run { holdMode := false, xferMode := false, verbosity := 0 }
    (getopt ['H', 'v', 'x'] args).1 answers s
  simp only [Bool.false_or, Nat.zero_add] at h₁
  unfold Query.main
  simp only
  rw [bind_of_ret h₁]
  by_cases hv : List.count 'v' (getopt ['H', 'v', 'x'] args).1 > 0
  · rw [if_pos hv]
    exact ⟨_, rfl⟩
  · rw [if_neg hv]
    exact ⟨_, rfl⟩

/-- `main` printed a line for the quantity. -/
def Quantity.Prints (q : Quantity) (stdout : List String) : Prop := ∃ value, q.line value ∈ stdout

theorem line_ne (v w : Int) : temperature.line v ≠ humidity.line w := by
  intro h
  have hc := congrArg (fun s : String => s.toList.head?) h
  simp [Quantity.line, temperature, humidity] at hc

theorem mem_printed {q : Quantity} {error : Int} {data : Frame} {line : String} :
    line ∈ q.printed error data ↔ Reads error data ∧ line = q.line (q.value data.raw) := by
  unfold Quantity.printed
  by_cases h : Reads error data <;> simp [h]

theorem prints_temperature {e₁ e₂ : Int} {d₁ d₂ : Frame} :
    temperature.Prints (temperature.printed e₁ d₁ ++ humidity.printed e₂ d₂) ↔ Reads e₁ d₁ := by
  constructor
  · rintro ⟨v, hv⟩
    rcases List.mem_append.1 hv with h | h
    · exact (mem_printed.1 h).1
    · exact absurd (mem_printed.1 h).2 (line_ne _ _)
  · exact fun h => ⟨_, List.mem_append_left _ (mem_printed.2 ⟨h, rfl⟩)⟩

theorem prints_humidity {e₁ e₂ : Int} {d₁ d₂ : Frame} :
    humidity.Prints (temperature.printed e₁ d₁ ++ humidity.printed e₂ d₂) ↔ Reads e₂ d₂ := by
  constructor
  · rintro ⟨v, hv⟩
    rcases List.mem_append.1 hv with h | h
    · exact absurd (mem_printed.1 h).2.symm (line_ne _ _)
    · exact (mem_printed.1 h).1
  · exact fun h => ⟨_, List.mem_append_right _ (mem_printed.2 ⟨h, rfl⟩)⟩

/-- `retval` stays 0 when both requests are read. -/
theorem retval_zero_iff {status : Nat} {e₁ e₂ : Int} {d₁ d₂ : Frame}
    (h : status = if Reads e₂ d₂ then (if Reads e₁ d₁ then 0 else 1) else 1) :
    status = 0 ↔ Reads e₁ d₁ ∧ Reads e₂ d₂ := by
  rw [h]
  by_cases hr₁ : Reads e₁ d₁ <;> by_cases hr₂ : Reads e₂ d₂ <;> simp [hr₁, hr₂]

/-- `t` is a run of the request for a quantity, and it returned `error`. -/
def Query.Options.IsRequest (o : Query.Options) (q : Quantity) (t : Run Req Reply State Int)
    (error : Int) : Prop :=
  (∃ answers s, t = Query.requestRaw o (q.command o.holdMode) sizeofData answers s) ∧
    t.outcome = .ret error

/-- A request that returned left the output alone, and returned 0 with its own bytes only. -/
theorem isRequest_delivers {o : Query.Options} {cmd : BitVec 8} {answers : List Reply} {s : State}
    {error : Int} (h : (Query.requestRaw o cmd sizeofData answers s).outcome = .ret error) :
    (Query.requestRaw o cmd sizeofData answers s).state.stdout = s.stdout ∧
      (error = 0 → Delivered cmd (Query.requestRaw o cmd sizeofData answers s).state.data
        (Query.requestRaw o cmd sizeofData answers s).events) := by
  have hp := (requestRaw_delivers o cmd s).run answers
  rw [h] at hp
  exact hp

/-- Neither a request nor a report exits. -/
theorem readings_exit (o : Query.Options) (holdMode : Bool) (answers : List Reply) (s : State)
    (status : Nat) :
    (readings holdMode (Query.requestRaw o) answers s).outcome ≠ .exit status := by
  have hreq : ∀ cmd answers s,
      (Query.requestRaw o cmd sizeofData answers s).outcome ≠ .exit status := by
    intro cmd answers s h
    have hp := (requestRaw_delivers o cmd s).run answers
    rw [h] at hp
    exact hp
  have hrep : ∀ q error retval answers s,
      (report q error retval answers s).outcome ≠ .exit status := by
    intro q error retval answers s h
    obtain ⟨s', hr, -⟩ := report_run q error retval answers s
    rw [hr] at h
    cases h
  intro h
  unfold readings at h
  rcases bind_exit_inv h with h₁ | ⟨e₁, -, h₁⟩
  · exact hreq _ _ _ h₁
  · rcases bind_exit_inv h₁ with h₂ | ⟨r₁, -, h₂⟩
    · exact hrep _ _ _ _ _ h₂
    · rcases bind_exit_inv h₂ with h₃ | ⟨e₂, -, h₃⟩
      · exact hreq _ _ _ h₃
      · exact hrep _ _ _ _ _ h₃

/-- **The readings of `main`**: on every run that ends, either the device cannot be opened, which is
the one call of the run, or each line is printed if and only if its own request returned 0 with
bytes that pass the checksum and have a nonzero value, the exit status is 0 if and only if both
lines are printed, and the bytes of a request that returned 0 were delivered to that request after
its command. The calls of the run are the opening and those of the two requests. -/
theorem main_readings (args : List String) (data : Frame) (answers : List Reply) :
    (∀ status, (Query.main args answers (State.start data)).outcome = .exit status →
      status ≠ 0 ∧ (Query.main args answers (State.start data)).state.stdout = [] ∧
      ∃ errno bytes, (Query.main args answers (State.start data)).events =
        [(.openDev (Query.deviceOf args), .fail errno bytes)]) ∧
    (∀ status, (Query.main args answers (State.start data)).outcome = .ret status →
      ∃ (t₁ t₂ : Run Req Reply State Int) (e₁ e₂ : Int) (opened : Frame),
        (Query.optionsOf args).IsRequest temperature t₁ e₁ ∧
        (Query.optionsOf args).IsRequest humidity t₂ e₂ ∧
        (Query.main args answers (State.start data)).events =
          (.openDev (Query.deviceOf args), .ok opened) :: t₁.events ++ t₂.events ∧
        (Query.main args answers (State.start data)).state.stdout =
          temperature.printed e₁ t₁.state.data ++ humidity.printed e₂ t₂.state.data ∧
        (temperature.Prints (Query.main args answers (State.start data)).state.stdout ↔
          Reads e₁ t₁.state.data) ∧
        (humidity.Prints (Query.main args answers (State.start data)).state.stdout ↔
          Reads e₂ t₂.state.data) ∧
        (status = 0 ↔
          temperature.Prints (Query.main args answers (State.start data)).state.stdout ∧
          humidity.Prints (Query.main args answers (State.start data)).state.stdout) ∧
        (e₁ = 0 → Delivered (temperature.command (Query.optionsOf args).holdMode) t₁.state.data
          t₁.events) ∧
        (e₂ = 0 → Delivered (humidity.command (Query.optionsOf args).holdMode) t₂.state.data
          t₂.events)) := by
  obtain ⟨stderr, hmain⟩ := main_run args answers (State.start data)
  rw [hmain]
  cases answers with
  | nil =>
    constructor
    · intro status h
      cases h
    · intro status h
      cases h
  | cons reply answers =>
    cases reply with
    | fail errno bytes =>
      constructor
      · intro status h
        cases h
        exact ⟨by decide, rfl, errno, bytes, rfl⟩
      · intro status h
        cases h
    | ok bytes =>
      have hopen : openDev (Query.deviceOf args) (.ok bytes :: answers)
          { State.start data with stderr } =
        { outcome := .ret 0, events := [(.openDev (Query.deviceOf args), .ok bytes)], answers
          state := { State.start data with stderr } } := rfl
      rw [bind_of_ret hopen, if_neg (by decide)]
      constructor
      · exact fun status h => absurd h (readings_exit _ _ _ _ _)
      · intro status h
        obtain ⟨t₁, t₂, e₁, e₂, s₂, ht₁, h₁, hout₁, ht₂, h₂, hevs, hout, hstatus⟩ := readings_ret h
        obtain ⟨hs₁, hd₁⟩ := isRequest_delivers (ht₁ ▸ h₁)
        obtain ⟨hs₂, hd₂⟩ := isRequest_delivers (ht₂ ▸ h₂)
        rw [← ht₁] at hs₁ hd₁
        rw [← ht₂] at hs₂ hd₂
        have hprinted : (readings (Query.optionsOf args).holdMode
            (Query.requestRaw (Query.optionsOf args)) answers
            { State.start data with stderr }).state.stdout =
          temperature.printed e₁ t₁.state.data ++ humidity.printed e₂ t₂.state.data := by
          rw [hout, hs₂, hout₁, hs₁]
          rfl
        refine ⟨t₁, t₂, e₁, e₂, bytes, ⟨⟨_, _, ht₁⟩, h₁⟩, ⟨⟨_, _, ht₂⟩, h₂⟩, ?_, hprinted, ?_, ?_,
          ?_, hd₁, hd₂⟩
        · rw [List.cons_append, ← hevs]
          rfl
        · rw [Run.after_state, hprinted, prints_temperature]
        · rw [Run.after_state, hprinted, prints_humidity]
        · rw [Run.after_state, hprinted, prints_temperature, prints_humidity]
          exact retval_zero_iff hstatus

end Htu21
