import IoHacks.Htu21.LowLevel
import IoHacks.Htu21.Proof.Polling
import IoHacks.Htu21.Proof.Readings
import IoHacks.Lib.Serve

/-!
# A sensor

The programs talk to the sensor in four ways: with or without hold, by explicit conditions or by
transfers. `Sensor` is a sensor that works: it takes a command, refuses some polls while it
measures, and then delivers the frame of the quantity; with hold it delays the master instead. The
driver has explicit conditions or not. `programs_measure`: whatever the options are, both programs
end and print the readings that the two frames stand for, so all four ways give the same readings.
-/

namespace Htu21

open Lib

/-! ## The sensor -/

/-- Whether the driver has explicit start conditions, the frames of the two quantities, and how many
polls are refused after a command. -/
structure Sensor where
  explicit : Bool
  temperature : Frame
  humidity : Frame
  busy : BitVec 8 → Nat

/-- Where the sensor is in a conversation. -/
inductive Phase where
  | idle
  | addressed
  | commanded (cmd : BitVec 8)
  | measuring (cmd : BitVec 8) (polls : Nat)
  | talking (cmd : BitVec 8)

/-- The frame for a command. -/
def Sensor.frame (sensor : Sensor) (cmd : BitVec 8) : Frame :=
  if cmd = htu21GetTemp ∨ cmd = htu21GetTempNH then sensor.temperature else sensor.humidity

/-- No acknowledge. -/
def nack : Reply := .fail 2 default

def ack : Reply := .ok default

/-- A poll: whether the sensor acknowledges its address, and the phase after a refusal. -/
def Phase.poll : Phase → Except Phase (BitVec 8)
  | .measuring cmd 0 => .ok cmd
  | .measuring cmd (polls + 1) => .error (.measuring cmd polls)
  | phase => .error phase

/-- An ioctl at the sensor. -/
def Sensor.answer (sensor : Sensor) : Ioctl → Phase → Reply × Phase
  | .start req, phase =>
    if !sensor.explicit then (.fail enodev default, phase)
    else if req.slave = htu21SlaveAddr <<< 1 then (ack, .addressed)
    else if req.slave = (htu21SlaveAddr <<< 1 ||| 1) then
      match phase.poll with
      | .ok cmd => (ack, .talking cmd)
      | .error phase => (nack, phase)
    else (nack, phase)
  | .write req, .addressed =>
    match req.buf with
    | .cmd byte => (ack, .commanded byte)
    | _ => (nack, .addressed)
  | .stop, .commanded cmd => (ack, .measuring cmd (sensor.busy cmd))
  | .stop, .measuring cmd polls => (ack, .measuring cmd polls)
  | .stop, _ => (ack, .idle)
  | .rptstart req, .commanded cmd =>
    if req.slave = (htu21SlaveAddr <<< 1 ||| 1) then (ack, .talking cmd) else (nack, .idle)
  | .read _, .talking cmd => (.ok (sensor.frame cmd), .talking cmd)
  | .rdwr [msg], phase =>
    if msg.slave = htu21SlaveAddr <<< 1 then
      if msg.flags &&& iicMRd = 0 then
        match msg.buf with
        | .cmd byte => (ack, .measuring byte (sensor.busy byte))
        | _ => (nack, phase)
      else
        match phase.poll with
        | .ok cmd => (.ok (sensor.frame cmd), .idle)
        | .error phase => (nack, phase)
    else (nack, phase)
  | .rdwr [msg, msg'], phase =>
    if msg.slave = htu21SlaveAddr <<< 1 ∧ msg'.slave = htu21SlaveAddr <<< 1 then
      match msg.buf with
      | .cmd byte => (.ok (sensor.frame byte), .idle)
      | _ => (nack, phase)
    else (nack, phase)
  | _, phase => (nack, phase)

def Sensor.step (sensor : Sensor) : Req → Phase → Reply × Phase
  | .openDev _, phase => (ack, phase)
  | .ioctl i, phase => sensor.answer i phase

/-! ## Its answers to the programs -/

section
variable {sensor : Sensor} {s : State} {phase phase' : Phase}

theorem serves_ok {i : Ioctl} {bytes : Frame}
    (h : sensor.answer i phase = (.ok bytes, phase')) :
    Serves sensor.step (ioctl i) s phase (.ret 0) (s.receive i bytes) phase' := by
  refine ⟨[.ok bytes], [(.ioctl i, .ok bytes)], ⟨?_, ?_⟩, fun rest => ioctl_ok ..⟩
  · exact congrArg Prod.fst h
  · exact congrArg Prod.snd h

theorem serves_fail {i : Ioctl} {errno : Nat} {bytes : Frame}
    (h : sensor.answer i phase = (.fail errno bytes, phase')) :
    Serves sensor.step (ioctl i) s phase (.ret (-1)) { s.receive i bytes with errno } phase' := by
  refine ⟨[.fail errno bytes], [(.ioctl i, .fail errno bytes)], ⟨?_, ?_⟩, fun rest => ioctl_fail ..⟩
  · exact congrArg Prod.fst h
  · exact congrArg Prod.snd h

theorem serves_eprintf (text : String) (s : State) (phase : Phase) :
    Serves sensor.step (eprintf text) s phase (.ret ())
      { s with stderr := s.stderr ++ [text] } phase :=
  Serves.modify _ s phase

/-- The program gets the frame for the command, and `out` is printed then. -/
def Measures (sensor : Sensor) (p : Io Int) (s : State) (phase : Phase) (cmd : BitVec 8)
    (out : List String) : Prop :=
  Leads sensor.step p s phase fun o s' _ =>
    o = .ret 0 ∧ s'.data = sensor.frame cmd ∧ s'.stdout = out

variable {cmd : BitVec 8}

/-- The data phase. -/
theorem serves_readResponse (cmd : BitVec 8) (s : State) :
    Serves sensor.step (readResponse sizeofData) s (.talking cmd) (.ret 0)
      { s with data := sensor.frame cmd } .idle := by
  have hread : Serves sensor.step
      (ioctl (.read { pollReq with count := sizeofData, last := 1, buf := .data })) s (.talking cmd)
      (.ret 0) { s with data := sensor.frame cmd } (.talking cmd) := serves_ok rfl
  have hstop : ∀ s, Serves sensor.step (ioctl .stop) s (.talking cmd) (.ret 0) s .idle :=
    fun s => serves_ok rfl
  refine hread.bind ?_
  rw [if_neg not_failed]
  exact (Serves.pure _ _ _).bind ((hstop _).bind (.pure _ _ _))

/-- The last poll. -/
theorem measures_poll_some {holdMode : Bool}
    (hstart : Serves sensor.step
      (if holdMode then ioctl (.rptstart pollReq) else ioctl (.start pollReq)) s phase (.ret 0) s
      (.talking cmd)) : Measures sensor (poll holdMode sizeofData) s phase cmd s.stdout := by
  refine ⟨_, { s with data := sensor.frame cmd }, .idle,
    Serves.loop_some (pollBody_consumes _ _) (hstart.bind ?_), rfl, rfl, rfl⟩
  rw [if_neg not_failed]
  exact (serves_readResponse cmd s).bind (.pure _ _ _)

/-- **Polling without hold**: the refused polls are repeated, and the next one delivers. -/
theorem measures_poll (hexplicit : sensor.explicit = true) (polls : Nat) :
    Measures sensor (poll false sizeofData) s (.measuring cmd polls) cmd s.stdout := by
  induction polls generalizing s with
  | zero =>
    have hstart : sensor.answer (.start pollReq) (.measuring cmd 0) = (ack, .talking cmd) := by
      simp [Sensor.answer, hexplicit, pollReq, Phase.poll, htu21SlaveAddr]
    exact measures_poll_some (serves_ok hstart)
  | succ polls ih =>
    have hstart : sensor.answer (.start pollReq) (.measuring cmd (polls + 1)) =
        (nack, .measuring cmd polls) := by
      simp [Sensor.answer, hexplicit, pollReq, Phase.poll, htu21SlaveAddr]
    have hnext : Measures sensor (poll false sizeofData) { s with errno := 2 }
        (.measuring cmd polls) cmd s.stdout := ih
    refine Leads.loop_none (pollBody_consumes _ _) ((serves_fail hstart).bind ?_) hnext
    rw [if_pos failed]
    exact (Serves.pure _ _ _).bind (.pure _ _ _)

/-- After its start condition, the explicit path. -/
theorem measures_sendCommand (hexplicit : sensor.explicit = true) (holdMode : Bool) :
    Measures sensor (sendCommand holdMode cmd sizeofData) s .addressed cmd s.stdout := by
  have hwrite : Serves sensor.step
      (ioctl (.write { startReq with buf := .cmd cmd, count := 1, last := 0 })) s .addressed
      (.ret 0) s (.commanded cmd) := serves_ok rfl
  refine .after hwrite ?_
  rw [if_neg not_failed]
  cases holdMode with
  | true =>
    have hstart : sensor.answer (.rptstart pollReq) (.commanded cmd) = (ack, .talking cmd) := by
      simp [Sensor.answer, pollReq, htu21SlaveAddr]
    exact measures_poll_some (serves_ok hstart)
  | false =>
    have hstop : Serves sensor.step (ioctl .stop) s (.commanded cmd) (.ret 0) s
        (.measuring cmd (sensor.busy cmd)) := serves_ok rfl
    refine .after hstop ?_
    rw [if_neg not_failed]
    exact measures_poll hexplicit _

/-- Polling by transfers. -/
theorem measures_transferPolls (polls : Nat) :
    Measures sensor (Prog.loop (Query.transferBody sizeofData)) s (.measuring cmd polls) cmd
      s.stdout := by
  have hc := transferBody_consumes sizeofData
  induction polls generalizing s with
  | zero =>
    have hpoll : sensor.answer (.rdwr [Query.dataMsg sizeofData]) (.measuring cmd 0) =
        (.ok (sensor.frame cmd), .idle) := by
      simp [Sensor.answer, Query.dataMsg, iicMRd, Phase.poll]
    refine ⟨_, { s with data := sensor.frame cmd }, .idle, Serves.loop_some hc ?_, rfl, rfl, rfl⟩
    refine (serves_ok hpoll).bind ((Serves.get _ _).bind ?_)
    rw [if_neg fun h => not_failed h.1, if_neg not_failed,
      receive_of_received (dataMsg_received _)]
    exact .pure _ _ _
  | succ polls ih =>
    have hpoll : sensor.answer (.rdwr [Query.dataMsg sizeofData]) (.measuring cmd (polls + 1)) =
        (nack, .measuring cmd polls) := by
      simp [Sensor.answer, Query.dataMsg, iicMRd, Phase.poll]
    have hnext : Measures sensor (Prog.loop (Query.transferBody sizeofData))
        { s.receive (.rdwr [Query.dataMsg sizeofData]) default with errno := 2 }
        (.measuring cmd polls) cmd s.stdout := ih
    refine Leads.loop_none hc ((serves_fail hpoll).bind ((Serves.get _ _).bind ?_)) hnext
    rw [if_pos ⟨failed, rfl⟩]
    exact (Serves.pure _ _ _).bind (.pure _ _ _)

/-- `transfer_raw`, from any phase. -/
theorem measures_transferRaw (holdMode : Bool) :
    Measures sensor (Query.transferRaw holdMode cmd sizeofData) s phase cmd s.stdout := by
  unfold Query.transferRaw
  cases holdMode with
  | true =>
    have hboth : sensor.answer (.rdwr [Query.cmdMsg true cmd, Query.dataMsg sizeofData]) phase =
        (.ok (sensor.frame cmd), .idle) := by
      simp [Sensor.answer, Query.cmdMsg, Query.dataMsg]
    have hreceived : (Ioctl.rdwr [Query.cmdMsg true cmd, Query.dataMsg sizeofData]).received =
        some sizeofData := by
      simp [Ioctl.received, Query.cmdMsg, Query.dataMsg, iicMRd]
    rw [if_pos rfl]
    refine .after (serves_ok hboth) ?_
    rw [if_neg not_failed, receive_of_received hreceived]
    exact .after (.pure _ _ _) (.pure ⟨rfl, rfl, rfl⟩)
  | false =>
    have hcommand : sensor.answer (.rdwr [Query.cmdMsg false cmd]) phase =
        (ack, .measuring cmd (sensor.busy cmd)) := by
      simp [Sensor.answer, Query.cmdMsg, iicMWr, iicMRd]
    have hreceive : s.receive (.rdwr [Query.cmdMsg false cmd]) default = s := by
      simp [State.receive, Ioctl.received, Query.cmdMsg]
    rw [if_neg Bool.false_ne_true]
    refine .after (serves_ok hcommand) ?_
    rw [if_neg not_failed, hreceive]
    exact measures_transferPolls _

/-- **A request**, with any options and from any phase of the sensor. -/
theorem measures_requestRaw (o : Query.Options) :
    Measures sensor (Query.requestRaw o cmd sizeofData) s phase cmd s.stdout := by
  unfold Query.requestRaw
  cases hx : o.xferMode with
  | true =>
    rw [if_pos rfl]
    exact measures_transferRaw _
  | false =>
    rw [if_neg Bool.false_ne_true]
    cases hexplicit : sensor.explicit with
    | true =>
      have hstart : sensor.answer (.start startReq) phase = (ack, .addressed) := by
        simp [Sensor.answer, hexplicit, startReq]
      refine .after (serves_ok hstart) (.after (.get _ _) ?_)
      rw [if_neg fun h => not_failed h.1, explicitRequest, if_neg not_failed]
      refine .after (.pure _ _ _) ?_
      rw [if_neg not_failed]
      exact measures_sendCommand hexplicit _
    | false =>
      have hstart : sensor.answer (.start startReq) phase = (.fail enodev default, phase) := by
        simp [Sensor.answer, hexplicit]
      refine .after (serves_fail hstart) (.after (.get _ _) ?_)
      rw [if_pos ⟨failed, rfl⟩]
      by_cases hv : o.verbosity > 0
      · rw [if_pos hv]
        exact .after ((serves_eprintf _ _ _).bind (serves_eprintf _ _ _)) (measures_transferRaw _)
      · rw [if_neg hv]
        exact .after (.pure _ _ _) (measures_transferRaw _)

/-- The request of the other program, where the driver has explicit conditions. -/
theorem measures_lowLevel (hexplicit : sensor.explicit = true) (holdMode : Bool) :
    Measures sensor (LowLevel.requestRaw holdMode cmd sizeofData) s phase cmd s.stdout := by
  have hstart : sensor.answer (.start startReq) phase = (ack, .addressed) := by
    simp [Sensor.answer, hexplicit, startReq]
  unfold LowLevel.requestRaw explicitRequest
  refine .after (serves_ok hstart) ?_
  rw [if_neg not_failed]
  refine .after (.pure _ _ _) ?_
  rw [if_neg not_failed]
  exact measures_sendCommand hexplicit _

/-! ## The programs -/

/-- The program ends with the status of the two readings, after it has printed them. -/
def PrintsReadings (sensor : Sensor) (p : Io Nat) (s : State) (phase : Phase) : Prop :=
  Leads sensor.step p s phase fun o s' _ =>
    o = .ret (if Reads 0 sensor.temperature ∧ Reads 0 sensor.humidity then 0 else 1) ∧
      s'.stdout = temperature.printed 0 sensor.temperature ++ humidity.printed 0 sensor.humidity

/-- A message under a condition. -/
theorem serves_eprintf_ite (sensor : Sensor) (c : Prop) [Decidable c] (text : String) (s : State)
    (phase : Phase) :
    ∃ stderr, Serves sensor.step (if c then eprintf text else pure ()) s phase (.ret ())
      { s with stderr } phase := by
  by_cases h : c
  · rw [if_pos h]
    exact ⟨_, serves_eprintf text s phase⟩
  · rw [if_neg h]
    exact ⟨s.stderr, .pure _ s phase⟩

/-- A report. -/
theorem leads_report (sensor : Sensor) (q : Quantity) (retval : Nat) (s : State) (phase : Phase) :
    Leads sensor.step (report q 0 retval) s phase fun o s' phase' =>
      o = .ret (if Reads 0 s.data then retval else 1) ∧
        s'.stdout = s.stdout ++ q.printed 0 s.data ∧ phase' = phase := by
  unfold report Quantity.printed
  refine .after (Serves.get s phase) ?_
  rw [if_neg not_failed]
  by_cases hc : validCrc s.data s.data.d2 = true
  · obtain ⟨e₁, h₁⟩ := serves_eprintf_ite sensor (s.data.status &&& 1#8 ≠ 0#8)
      "inconsistency: status bit zero is set\n" s phase
    obtain ⟨e₂, h₂⟩ := serves_eprintf_ite sensor (q.statusWrong s.data.status = true)
      q.statusText { s with stderr := e₁ } phase
    rw [if_neg (by simp [hc])]
    refine .after h₁ (.after h₂ ?_)
    by_cases hz : s.data.raw = 0#16
    · have hr : ¬Reads 0 s.data := fun h => h.2.2 hz
      rw [if_pos hz, if_neg hr, if_neg hr, List.append_nil]
      exact .after (serves_eprintf _ _ _) (.pure ⟨rfl, rfl, rfl⟩)
    · have hr : Reads 0 s.data := ⟨rfl, hc, hz⟩
      rw [if_neg hz, if_pos hr, if_pos hr]
      exact .after (Serves.modify _ _ _) (.pure ⟨rfl, rfl, rfl⟩)
  · have hr : ¬Reads 0 s.data := fun h => hc h.2.1
    rw [if_pos (by simp [hc]), if_neg hr, if_neg hr, List.append_nil]
    exact .after (serves_eprintf _ _ _) (.after (serves_eprintf _ _ _) (.pure ⟨rfl, rfl, rfl⟩))

/-- Both readings. -/
theorem prints_readings {holdMode : Bool} {requestRaw : BitVec 8 → Nat → Io Int}
    (h : ∀ cmd s phase, Measures sensor (requestRaw cmd sizeofData) s phase cmd s.stdout)
    (hout : s.stdout = []) : PrintsReadings sensor (readings holdMode requestRaw) s phase := by
  have hframe : sensor.frame (temperature.command holdMode) = sensor.temperature ∧
      sensor.frame (humidity.command holdMode) = sensor.humidity := by
    cases holdMode with
    | true => exact ⟨rfl, rfl⟩
    | false => exact ⟨rfl, rfl⟩
  unfold readings
  refine (h _ s phase).bind ?_
  rintro _ s₁ phase₁ ⟨rfl, hdata₁, hout₁⟩
  refine ⟨0, rfl, (leads_report sensor temperature 0 s₁ phase₁).bind ?_⟩
  rintro _ s₂ phase₂ ⟨rfl, hout₂, rfl⟩
  refine ⟨_, rfl, (h _ s₂ phase₂).bind ?_⟩
  rintro _ s₃ phase₃ ⟨rfl, hdata₃, hout₃⟩
  refine ⟨0, rfl, ?_⟩
  obtain ⟨o, s₄, phase₄, hserves, rfl, hout₄, -⟩ :=
    leads_report sensor humidity (if Reads 0 s₁.data then 0 else 1) s₃ phase₃
  rw [hdata₁, hframe.1] at hout₂ hserves ⊢
  rw [hdata₃, hframe.2] at hout₄ hserves
  refine ⟨_, s₄, phase₄, hserves, ?_, ?_⟩
  · by_cases hh : Reads 0 sensor.humidity <;> by_cases ht : Reads 0 sensor.temperature <;>
      simp [hh, ht]
  · rw [hout₄, hout₃, hout₂, hout₁, hout, List.nil_append]

/-- The device opens, and the readings follow. -/
theorem serves_openDev (path : String) (s : State) (phase : Phase) :
    Serves sensor.step (openDev path) s phase (.ret 0) s phase :=
  (Serves.ask (Req.openDev path) s phase).bind (.pure _ _ _)

/-- The option loop of `htu21-query`. -/
theorem serves_query_setOptions (sensor : Sensor) (o : Query.Options) (chs : List Char) (s : State)
    (phase : Phase) :
    ∃ o' stderr, Serves sensor.step (Query.setOptions o chs) s phase (.ret o')
      { s with stderr } phase := by
  induction chs generalizing o s with
  | nil => exact ⟨o, s.stderr, .pure _ s phase⟩
  | cons ch chs ih =>
    have hset : ∃ o' stderr, Serves sensor.step (Query.setOption o ch) s phase (.ret o')
        { s with stderr } phase := by
      unfold Query.setOption
      split
      · exact ⟨_, s.stderr, .pure _ s phase⟩
      · split
        · exact ⟨_, s.stderr, .pure _ s phase⟩
        · split
          · exact ⟨_, s.stderr, .pure _ s phase⟩
          · exact ⟨_, _, (serves_eprintf _ s phase).bind (.pure _ _ phase)⟩
    obtain ⟨o₁, stderr₁, hset⟩ := hset
    obtain ⟨o₂, stderr₂, hrest⟩ := ih o₁ { s with stderr := stderr₁ }
    exact ⟨o₂, stderr₂, hset.bind hrest⟩

theorem serves_lowLevel_setOptions (sensor : Sensor) (holdMode : Bool) (chs : List Char)
    (s : State) (phase : Phase) :
    ∃ holdMode' stderr, Serves sensor.step (LowLevel.setOptions holdMode chs) s phase
      (.ret holdMode') { s with stderr } phase := by
  induction chs generalizing holdMode s with
  | nil => exact ⟨holdMode, s.stderr, .pure _ s phase⟩
  | cons ch chs ih =>
    have hset : ∃ holdMode' stderr, Serves sensor.step (LowLevel.setOption holdMode ch) s phase
        (.ret holdMode') { s with stderr } phase := by
      unfold LowLevel.setOption
      split
      · exact ⟨_, s.stderr, .pure _ s phase⟩
      · exact ⟨_, _, (serves_eprintf _ s phase).bind (.pure _ _ phase)⟩
    obtain ⟨holdMode₁, stderr₁, hset⟩ := hset
    obtain ⟨holdMode₂, stderr₂, hrest⟩ := ih holdMode₁ { s with stderr := stderr₁ }
    exact ⟨holdMode₂, stderr₂, hset.bind hrest⟩

end

/-- **The programs measure**: on a sensor that works, whatever the arguments are, however long the
measurements take and whatever went on before, `htu21-query` ends and prints the readings of the
two frames, and so does `htu21-query.low-level` where the driver has explicit conditions. -/
theorem programs_measure (sensor : Sensor) (args : List String) (data : Frame) (phase : Phase) :
    PrintsReadings sensor (Query.main args) (State.start data) phase ∧
      (sensor.explicit = true →
        PrintsReadings sensor (LowLevel.main args) (State.start data) phase) := by
  constructor
  · obtain ⟨o, stderr, hset⟩ := serves_query_setOptions sensor
      { holdMode := false, xferMode := false, verbosity := 0 } (getopt ['H', 'v', 'x'] args).1
      (State.start data) phase
    obtain ⟨stderr', husing⟩ := serves_eprintf_ite sensor (o.verbosity > 0)
      ("using " ++ Query.deviceOf args ++ "\n") { State.start data with stderr } phase
    exact .after hset (.after husing (.after (serves_openDev _ _ _)
      (prints_readings (fun _ _ _ => measures_requestRaw o) rfl)))
  · intro hexplicit
    obtain ⟨holdMode, stderr, hset⟩ := serves_lowLevel_setOptions sensor false
      (getopt ['H'] args).1 (State.start data) phase
    exact .after hset (.after (serves_openDev _ _ _)
      (prints_readings (fun _ _ _ => measures_lowLevel hexplicit holdMode) rfl))

/-- A sensor that refuses three polls. -/
def room : Sensor where
  explicit := true
  temperature := ⟨0x68#8, 0x3a#8, 0x7c#8⟩
  humidity := ⟨0x4e#8, 0x85#8, 0x6b#8⟩
  busy _ := 3

theorem programs_measure_room : room.explicit = true ∧
    PrintsReadings room (LowLevel.main ["-H"]) (State.start default) .idle :=
  ⟨rfl, (programs_measure room ["-H"] default .idle).2 rfl⟩

end Htu21
