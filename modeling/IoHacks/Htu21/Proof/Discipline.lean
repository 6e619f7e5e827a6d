import IoHacks.Htu21.Proof.Rules
import IoHacks.Htu21.Query
import IoHacks.Htu21.LowLevel
import IoHacks.Lib.Trace

/-!
# Bus discipline

Both copies of `request_raw` keep the I2C bus in order on every behaviour of the bus
(`requestRaw_disciplined`): data moves only between a start and the next stop, a repeated start
comes only in hold mode with the bus held since the command was written, `I2CRDWR` comes only
before any start condition succeeded, and a request that did not fall back to it ends with a stop.
The invariant carried through the program is `Disciplined` of the events so far, with what is held
at that point.
-/

namespace Htu21

open Lib Prog

/-! ## Events -/

/-- A start or repeated start condition that succeeded. -/
def Starts : Event → Prop
  | (.ioctl (.start _), .ok _) => True
  | (.ioctl (.rptstart _), .ok _) => True
  | _ => False

/-- An `I2CSTOP`, whether it succeeded or not. -/
def Stops : Event → Prop
  | (.ioctl .stop, _) => True
  | _ => False

/-- An `I2CWRITE` that succeeded. -/
def Writes : Event → Prop
  | (.ioctl (.write _), .ok _) => True
  | _ => False

/-- An `I2CRDWR`. -/
def Transfers : Event → Prop
  | (.ioctl (.rdwr _), _) => True
  | _ => False

/-! ## The discipline -/

/-- A start condition succeeded and no stop was issued since. -/
def Held (evs : List Event) : Prop := Since (fun _ e => Starts e) (fun e => ¬Stops e) evs

/-- A command was written to the held bus and no stop was issued since. -/
def HeldFromCommand (evs : List Event) : Prop :=
  Since (fun pre e => Writes e ∧ Held pre) (fun e => ¬Stops e) evs

/-- What the discipline allows after the events `pre`. -/
def Allowed (holdMode : Bool) (pre : List Event) (e : Event) : Prop :=
  match e.1 with
  | .ioctl (.write _) => Held pre
  | .ioctl (.read _) => Held pre
  | .ioctl (.rptstart _) => holdMode = true ∧ HeldFromCommand pre
  | .ioctl (.rdwr _) => ∀ x ∈ pre, ¬Starts x
  | _ => True

def Disciplined (holdMode : Bool) (evs : List Event) : Prop := EachAfter (Allowed holdMode) evs

/-- The request fell back to transfers, or its last ioctl is a stop. -/
def Released (evs : List Event) : Prop :=
  (∃ e ∈ evs, Transfers e) ∨ ∃ pre e, evs = pre ++ [e] ∧ Stops e

/-- What holds of the events of a request when it returns, and at every earlier moment. -/
def disciplinePost (holdMode : Bool) : Post Req Reply State Int where
  ret _ evs _ := Disciplined holdMode evs ∧ Released evs
  exit _ evs _ := Disciplined holdMode evs
  wait evs _ := Disciplined holdMode evs

section
variable {holdMode : Bool} {evs : List Event} {s : State} {e : Event}

theorem disciplined_concat :
    Disciplined holdMode (evs ++ [e]) ↔ Disciplined holdMode evs ∧ Allowed holdMode evs e :=
  eachAfter_concat

theorem held_concat : Held (evs ++ [e]) ↔ Starts e ∨ (Held evs ∧ ¬Stops e) := since_concat

theorem heldFromCommand_concat :
    HeldFromCommand (evs ++ [e]) ↔ (Writes e ∧ Held evs) ∨ (HeldFromCommand evs ∧ ¬Stops e) :=
  since_concat

/-- A stop may come at any time, and releases the bus. -/
theorem stopped (hd : Disciplined holdMode evs) (reply : Reply) :
    Disciplined holdMode (evs ++ [(.ioctl .stop, reply)]) ∧
      Released (evs ++ [(.ioctl .stop, reply)]) :=
  ⟨disciplined_concat.2 ⟨hd, trivial⟩, .inr ⟨evs, _, rfl, trivial⟩⟩

/-! ## The explicit path -/

theorem wp_readResponse {count : Nat} (hd : Disciplined holdMode evs) (hh : Held evs) :
    wp (readResponse count) (disciplinePost holdMode) evs s := by
  have hread : ∀ reply, Disciplined holdMode
      (evs ++ [(.ioctl (.read { pollReq with count, last := 1, buf := .data }), reply)]) :=
    fun _ => disciplined_concat.2 ⟨hd, hh⟩
  refine wp_ioctl_bind hd (fun bytes => ?_) fun errno bytes => ?_
  · rw [if_neg not_failed]
    exact wp_pure_bind (wp_stop_pure (hread _) fun reply _ => stopped (hread _) reply)
  · rw [if_pos failed]
    exact wp_eprintfErrno_bind fun _ =>
      wp_stop_pure (hread _) fun reply _ => stopped (hread _) reply

/-- What holds between two polls: in hold mode the bus is held from the command. -/
def PollInv (holdMode : Bool) (evs : List Event) : Prop :=
  Disciplined holdMode evs ∧ (holdMode = true → HeldFromCommand evs)

/-- One poll: without hold a refused start is followed by another poll. -/
theorem wp_pollBody {count : Nat} (hi : PollInv holdMode evs) :
    wp (pollBody holdMode count)
      ((disciplinePost holdMode).iteration fun evs _ => PollInv holdMode evs) evs s := by
  obtain ⟨hd, hh⟩ := hi
  -- a start condition that succeeded is followed by the read
  have hread : ∀ evs s, Disciplined holdMode evs → Held evs →
      wp (readResponse count >>= fun error => pure (some error))
        ((disciplinePost holdMode).iteration fun evs _ => PollInv holdMode evs) evs s :=
    fun evs s hd hh => wp_seq (wp_readResponse hd hh) fun _ _ _ h => wp_pure h
  unfold pollBody
  cases holdMode with
  | true =>
    have hstart : ∀ reply, Disciplined true (evs ++ [(.ioctl (.rptstart pollReq), reply)]) :=
      fun _ => disciplined_concat.2 ⟨hd, rfl, hh rfl⟩
    refine wp_ioctl_bind hd (fun bytes => ?_) fun errno bytes => ?_
    · rw [if_neg not_failed]
      exact hread _ _ (hstart _) (held_concat.2 (.inl trivial))
    · rw [if_pos failed, if_neg (by simp)]
      exact wp_eprintfErrno_bind fun _ =>
        wp_stop_pure (hstart _) fun reply _ => stopped (hstart _) reply
  | false =>
    have hstart : ∀ reply, Disciplined false (evs ++ [(.ioctl (.start pollReq), reply)]) :=
      fun _ => disciplined_concat.2 ⟨hd, trivial⟩
    refine wp_ioctl_bind hd (fun bytes => ?_) fun errno bytes => ?_
    · rw [if_neg not_failed]
      exact hread _ _ (hstart _) (held_concat.2 (.inl trivial))
    · rw [if_pos failed, if_pos (by simp)]
      exact wp_pure_bind (wp_pure ⟨hstart _, by simp⟩)

theorem wp_poll {count : Nat} (hi : PollInv holdMode evs) :
    wp (poll holdMode count) (disciplinePost holdMode) evs s :=
  wp_loop (fun evs _ => PollInv holdMode evs) (fun _ _ hi => wp_pollBody hi) (fun _ _ hi => hi.1) hi

theorem wp_sendCommand {cmd : BitVec 8} {count : Nat} (hd : Disciplined holdMode evs)
    (hh : Held evs) : wp (sendCommand holdMode cmd count) (disciplinePost holdMode) evs s := by
  have hwrite : ∀ reply, Disciplined holdMode (evs ++
      [(.ioctl (.write { startReq with buf := .cmd cmd, count := 1, last := 0 }), reply)]) :=
    fun _ => disciplined_concat.2 ⟨hd, hh⟩
  unfold sendCommand
  refine wp_ioctl_bind hd (fun bytes => ?_) fun errno bytes => ?_
  · rw [if_neg not_failed]
    cases holdMode with
    | true =>
      rw [if_neg (by simp)]
      exact wp_poll ⟨hwrite _, fun _ => heldFromCommand_concat.2 (.inl ⟨trivial, hh⟩)⟩
    | false =>
      rw [if_pos (by simp)]
      refine wp_ioctl_bind (hwrite _) (fun bytes => ?_) fun errno bytes => ?_
      · rw [if_neg not_failed]
        exact wp_poll ⟨(stopped (hwrite _) _).1, by simp⟩
      · rw [if_pos failed]
        exact wp_eprintf_bind (wp_pure (stopped (hwrite _) _))
  · rw [if_pos failed]
    exact wp_eprintfErrno_bind fun _ =>
      wp_stop_pure (hwrite _) fun reply _ => stopped (hwrite _) reply

/-- The request after a start condition that returned `error`. -/
theorem wp_explicitRequest {cmd : BitVec 8} {count : Nat} {error : Int}
    (hd : Disciplined holdMode evs) (hh : ¬error ≠ 0 → Held evs) :
    wp (explicitRequest holdMode cmd count error) (disciplinePost holdMode) evs s := by
  have hstart : ∀ reply, Disciplined holdMode (evs ++ [(.ioctl (.start startReq), reply)]) :=
    fun _ => disciplined_concat.2 ⟨hd, trivial⟩
  unfold explicitRequest
  by_cases he : error ≠ 0
  · rw [if_pos he]
    refine wp_ioctl_bind hd (fun bytes => ?_) fun errno bytes => ?_
    · rw [if_neg not_failed]
      exact wp_sendCommand (hstart _) (held_concat.2 (.inl trivial))
    · rw [if_pos failed]
      exact wp_eprintfErrno_bind fun _ =>
        wp_stop_pure (hstart _) fun reply _ => stopped (hstart _) reply
  · rw [if_neg he]
    refine wp_pure_bind ?_
    rw [if_neg he]
    exact wp_sendCommand hd (hh he)

/-! ## The transfer path -/

/-- What holds between two transfers: no start condition ever succeeded. -/
def TransferInv (holdMode : Bool) (evs : List Event) : Prop :=
  Disciplined holdMode evs ∧ ∀ e ∈ evs, ¬Starts e

theorem transferInv_concat {msgs : List IicMsg} (hi : TransferInv holdMode evs) (reply : Reply) :
    TransferInv holdMode (evs ++ [(.ioctl (.rdwr msgs), reply)]) ∧
      ∃ e ∈ evs ++ [(.ioctl (.rdwr msgs), reply)], Transfers e := by
  obtain ⟨hd, hn⟩ := hi
  refine ⟨⟨disciplined_concat.2 ⟨hd, hn⟩, fun e he => ?_⟩, _,
    List.mem_append_right _ (List.mem_singleton_self _), trivial⟩
  rcases List.mem_append.1 he with h | h
  · exact hn e h
  · rw [List.mem_singleton.1 h]
    exact id

theorem wp_transferBody {count : Nat} (hi : TransferInv holdMode evs) :
    wp (Query.transferBody count)
      ((disciplinePost holdMode).iteration fun evs _ => TransferInv holdMode evs) evs s := by
  unfold Query.transferBody
  refine wp_ioctl_bind hi.1 (fun bytes => wp_get_bind ?_) fun errno bytes => wp_get_bind ?_
  · obtain ⟨hi', ht⟩ := transferInv_concat hi (.ok bytes)
    rw [if_neg fun h => not_failed h.1, if_neg not_failed]
    exact wp_pure ⟨hi'.1, .inl ht⟩
  · obtain ⟨hi', ht⟩ := transferInv_concat hi (.fail errno bytes)
    by_cases he : errno = 2
    · rw [if_pos ⟨failed, he⟩]
      exact wp_pure_bind (wp_pure hi')
    · rw [if_neg fun h => he h.2, if_pos failed]
      exact wp_eprintfErrno_bind fun _ => wp_pure ⟨hi'.1, .inl ht⟩

theorem wp_transferRaw {cmd : BitVec 8} {count : Nat} (hi : TransferInv holdMode evs) :
    wp (Query.transferRaw holdMode cmd count) (disciplinePost holdMode) evs s := by
  unfold Query.transferRaw
  cases holdMode with
  | true =>
    rw [if_pos rfl]
    refine wp_ioctl_bind hi.1 (fun bytes => ?_) fun errno bytes => ?_
    · obtain ⟨hi', ht⟩ := transferInv_concat hi (.ok bytes)
      rw [if_neg not_failed]
      exact wp_pure_bind (wp_pure ⟨hi'.1, .inl ht⟩)
    · obtain ⟨hi', ht⟩ := transferInv_concat hi (.fail errno bytes)
      rw [if_pos failed]
      exact wp_eprintfErrno_bind fun _ => wp_pure ⟨hi'.1, .inl ht⟩
  | false =>
    rw [if_neg (by simp)]
    refine wp_ioctl_bind hi.1 (fun bytes => ?_) fun errno bytes => ?_
    · obtain ⟨hi', -⟩ := transferInv_concat hi (.ok bytes)
      rw [if_neg not_failed]
      exact wp_loop (fun evs _ => TransferInv false evs) (fun _ _ hi => wp_transferBody hi)
        (fun _ _ hi => hi.1) hi'
    · obtain ⟨hi', ht⟩ := transferInv_concat hi (.fail errno bytes)
      rw [if_pos failed]
      exact wp_eprintfErrno_bind fun _ => wp_pure ⟨hi'.1, .inl ht⟩

/-! ## The two requests -/

/-- The first start condition of a request. -/
theorem firstStart_disciplined (holdMode : Bool) (reply : Reply) :
    Disciplined holdMode ([] ++ [(.ioctl (.start startReq), reply)]) :=
  disciplined_concat.2 ⟨eachAfter_nil, trivial⟩

theorem wp_query_requestRaw (o : Query.Options) (cmd : BitVec 8) (count : Nat) :
    wp (Query.requestRaw o cmd count) (disciplinePost o.holdMode) [] s := by
  unfold Query.requestRaw
  by_cases hx : o.xferMode = true
  · rw [if_pos hx]
    exact wp_transferRaw ⟨eachAfter_nil, by simp⟩
  · rw [if_neg hx]
    refine wp_ioctl_bind eachAfter_nil (fun bytes => wp_get_bind ?_) fun errno bytes =>
      wp_get_bind ?_
    · rw [if_neg fun h => not_failed h.1]
      exact wp_explicitRequest (firstStart_disciplined _ _)
        fun _ => held_concat.2 (.inl trivial)
    · by_cases he : errno = enodev
      · rw [if_pos ⟨failed, he⟩]
        have hi : TransferInv o.holdMode ([] ++ [(.ioctl (.start startReq), .fail errno bytes)]) :=
          ⟨firstStart_disciplined _ _, by simp [Starts]⟩
        by_cases hv : o.verbosity > 0
        · rw [if_pos hv]
          exact wp_bind (wp_eprintf_bind (wp_modify (wp_transferRaw hi)))
        · rw [if_neg hv]
          exact wp_pure_bind (wp_transferRaw hi)
      · rw [if_neg fun h => he h.2]
        exact wp_explicitRequest (firstStart_disciplined _ _) fun h => absurd failed h

theorem wp_lowLevel_requestRaw (cmd : BitVec 8) (count : Nat) :
    wp (LowLevel.requestRaw holdMode cmd count) (disciplinePost holdMode) [] s := by
  unfold LowLevel.requestRaw
  refine wp_ioctl_bind eachAfter_nil (fun bytes => ?_) fun errno bytes => ?_
  · exact wp_explicitRequest (firstStart_disciplined _ _) fun _ => held_concat.2 (.inl trivial)
  · exact wp_explicitRequest (firstStart_disciplined _ _) fun h => absurd failed h

end

/-- A run of a request is disciplined at every moment, and releases the bus when it returns. -/
def KeepsBus (holdMode : Bool) (r : Run Req Reply State Int) : Prop :=
  Disciplined holdMode r.events ∧ ∀ error, r.outcome = .ret error → Released r.events

theorem keepsBus_of_wp {holdMode : Bool} {p : Io Int} {s : State}
    (h : wp p (disciplinePost holdMode) [] s) (answers : List Reply) :
    KeepsBus holdMode (p answers s) := by
  have hr := h.run answers
  unfold Post.Holds at hr
  unfold KeepsBus
  cases ho : (p answers s).outcome with
  | ret error =>
    rw [ho] at hr
    exact ⟨hr.1, fun _ _ => hr.2⟩
  | exit status =>
    rw [ho] at hr
    exact ⟨hr, fun _ h => by cases h⟩
  | wait =>
    rw [ho] at hr
    exact ⟨hr, fun _ h => by cases h⟩

/-- **Bus discipline**: on every sequence of ioctl outcomes both copies of `request_raw` keep the
discipline, and release the bus unless they fell back to transfers. -/
theorem requestRaw_disciplined (cmd : BitVec 8) (count : Nat) (answers : List Reply) (s : State) :
    (∀ o : Query.Options, KeepsBus o.holdMode (Query.requestRaw o cmd count answers s)) ∧
      ∀ holdMode, KeepsBus holdMode (LowLevel.requestRaw holdMode cmd count answers s) :=
  ⟨fun o => keepsBus_of_wp (wp_query_requestRaw o cmd count) answers,
    fun _ => keepsBus_of_wp (wp_lowLevel_requestRaw cmd count) answers⟩

end Htu21
