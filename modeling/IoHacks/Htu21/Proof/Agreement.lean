import IoHacks.Htu21.Proof.Rules
import IoHacks.Htu21.Query
import IoHacks.Htu21.LowLevel

/-!
# The two programs on their common interface

With no option but `-H`, and as long as no start condition fails with `ENODEV`, the requests of
`htu21-query.c` and `htu21-query.low-level.c` do the same (`requestRaw_agree`), and so do the
programs on one device. But the first takes its device from the first operand, the second from
the second: they do the same exactly when these name the same device (`main_agree_iff`).
-/

namespace Htu21

open Lib Prog

/-- `getopt` finds no option but `-H`. -/
def HoldOnly (args : List String) : Prop := ∀ ch ∈ (getopt ['H'] args).1, ch = 'H'

/-- The error of a start condition that failed. -/
def startErrno : Event → Option Nat
  | (.ioctl (.start _), .fail errno _) => some errno
  | _ => none

/-- The event is not a start condition that failed with `ENODEV`. -/
def NotEnodev (e : Event) : Prop := startErrno e ≠ some enodev

instance : DecidablePred NotEnodev := fun e =>
  inferInstanceAs (Decidable (startErrno e ≠ some enodev))

/-! ## Options -/

/-- Any number of `-H` and then operands. -/
theorem holdOnly_replicate (n : Nat) {operands : List String}
    (ho : ∀ w ∈ operands.head?, ∀ c cs, w.toList ≠ '-' :: c :: cs) :
    HoldOnly (List.replicate n "-H" ++ operands) := by
  unfold HoldOnly
  rw [getopt_replicate (c := 'H') (by decide) (by decide) (by decide) (by decide) n ho]
  exact fun ch hch => (List.mem_replicate.1 hch).2

/-- Where there is no option but `-H`, both programs parse the same. -/
theorem getopt_holdOnly {args : List String} (h : HoldOnly args) :
    getopt ['H', 'v', 'x'] args = getopt ['H'] args :=
  getopt_mono (by decide) fun hq => absurd (h '?' hq) (by decide)

theorem query_setOptions {chs : List Char} (h : ∀ ch ∈ chs, ch = 'H') (o : Query.Options)
    (answers : List Reply) (s : State) :
    Query.setOptions o chs answers s =
      { outcome := .ret { o with holdMode := o.holdMode || decide ('H' ∈ chs) }, events := []
        answers, state := s } := by
  induction chs generalizing o with
  | nil =>
    unfold Query.setOptions
    simp
    rfl
  | cons ch chs ih =>
    obtain rfl := h ch (List.mem_cons_self ..)
    have hset : Query.setOption o 'H' answers s =
        { outcome := .ret { o with holdMode := true }, events := [], answers, state := s } := rfl
    unfold Query.setOptions
    rw [bind_of_ret hset, ih fun c hc => h c (List.mem_cons_of_mem _ hc)]
    simp [Run.after]

theorem lowLevel_setOptions {chs : List Char} (h : ∀ ch ∈ chs, ch = 'H') (holdMode : Bool)
    (answers : List Reply) (s : State) :
    LowLevel.setOptions holdMode chs answers s =
      { outcome := .ret (holdMode || decide ('H' ∈ chs)), events := [], answers, state := s } := by
  induction chs generalizing holdMode with
  | nil =>
    unfold LowLevel.setOptions
    simp
    rfl
  | cons ch chs ih =>
    obtain rfl := h ch (List.mem_cons_self ..)
    have hset : LowLevel.setOption holdMode 'H' answers s =
        { outcome := .ret true, events := [], answers, state := s } := rfl
    unfold LowLevel.setOptions
    rw [bind_of_ret hset, ih fun c hc => h c (List.mem_cons_of_mem _ hc)]
    simp [Run.after]

/-! ## Requests -/

/-- **One request**: the same unless the first start condition fails with `ENODEV`. -/
theorem requestRaw_agree (holdMode : Bool) (cmd : BitVec 8) (count : Nat) :
    AgreeOn NotEnodev (Query.requestRaw { holdMode, xferMode := false, verbosity := 0 } cmd count)
      (LowLevel.requestRaw holdMode cmd count) := by
  intro answers s h
  unfold Query.requestRaw at h ⊢
  rw [if_neg (by simp)] at h ⊢
  cases answers with
  | nil => rfl
  | cons reply answers =>
    cases reply with
    | ok bytes => rfl
    | fail errno bytes =>
      rw [bind_of_ret (ioctl_fail ..)] at h ⊢
      have hne : errno ≠ enodev := by
        rintro rfl
        exact h _ (List.mem_append_left _ (List.mem_singleton_self _)) rfl
      rw [bind_of_ret (p := Prog.get) rfl, if_neg fun hc => hne hc.2]
      unfold LowLevel.requestRaw
      rw [bind_of_ret (ioctl_fail ..)]
      rfl

theorem readings_agree (holdMode : Bool) :
    AgreeOn NotEnodev
      (readings holdMode (Query.requestRaw { holdMode, xferMode := false, verbosity := 0 }))
      (readings holdMode (LowLevel.requestRaw holdMode)) := by
  unfold readings
  exact (requestRaw_agree _ _ _).bind fun _ => (AgreeOn.refl _).bind fun _ =>
    (requestRaw_agree _ _ _).bind fun _ => AgreeOn.refl _

/-! ## The programs -/

/-- The words that are left when the options are read. -/
def operandsOf (args : List String) : List String := (getopt ['H'] args).2

/-- The hold mode that the options set. -/
def holdModeOf (args : List String) : Bool := decide ('H' ∈ (getopt ['H'] args).1)

section
variable {args : List String} (h : HoldOnly args) (answers : List Reply) (s : State)
include h

theorem query_main_run :
    Query.main args answers s =
      (openDev ((operandsOf args)[0]?.getD i2cDev) >>= fun fd =>
        if fd = -1 then err 1 "open failed"
        else readings (holdModeOf args)
          (Query.requestRaw { holdMode := holdModeOf args, xferMode := false, verbosity := 0 }))
        answers s := by
  unfold Query.main
  rw [getopt_holdOnly h]
  simp only
  rw [bind_of_ret (query_setOptions h _ answers s)]
  rfl

theorem lowLevel_main_run :
    LowLevel.main args answers s =
      (openDev ((operandsOf args)[1]?.getD i2cDev) >>= fun fd =>
        if fd = -1 then err 1 "open failed"
        else readings (holdModeOf args) (LowLevel.requestRaw (holdModeOf args))) answers s := by
  unfold LowLevel.main
  simp only
  rw [bind_of_ret (lowLevel_setOptions h _ answers s)]
  rfl

end

/-- The two runs open the same device, issue the same ioctls, print the same output and end with
the same status, or wait alike. -/
structure SameRun (r r' : Run Req Reply State Nat) : Prop where
  events : r.events = r'.events
  stdout : r.state.stdout = r'.state.stdout
  outcome : r.outcome = r'.outcome

/-- The first event of a program that opens a device. -/
theorem openDev_events (path : String) (f : Int → Io Nat) (reply : Reply) (answers : List Reply)
    (s : State) : ∃ evs, ((openDev path >>= f) (reply :: answers) s).events =
      (.openDev path, reply) :: evs := by
  obtain ⟨evs, he⟩ := andThen_events (openDev path (reply :: answers) s) f
  refine ⟨evs, he.trans ?_⟩
  cases reply <;> rfl

/-- **The two programs are the same on their common interface** if and only if the first and the
second operand name the same device. A run that never ends is one that waits on every list of
answers. -/
theorem main_agree_iff {args : List String} (h : HoldOnly args) (reply : Reply)
    (answers : List Reply) (data : Frame)
    (hev : ∀ e ∈ (Query.main args (reply :: answers) (State.start data)).events, NotEnodev e) :
    SameRun (Query.main args (reply :: answers) (State.start data))
      (LowLevel.main args (reply :: answers) (State.start data)) ↔
    (operandsOf args)[0]?.getD i2cDev = (operandsOf args)[1]?.getD i2cDev := by
  rw [query_main_run h] at hev ⊢
  rw [lowLevel_main_run h]
  constructor
  · intro hs
    obtain ⟨evs, he⟩ := openDev_events ((operandsOf args)[0]?.getD i2cDev) (fun fd =>
      if fd = -1 then err 1 "open failed"
      else readings (holdModeOf args)
        (Query.requestRaw { holdMode := holdModeOf args, xferMode := false, verbosity := 0 }))
      reply answers (State.start data)
    obtain ⟨evs', he'⟩ := openDev_events ((operandsOf args)[1]?.getD i2cDev) (fun fd =>
      if fd = -1 then err 1 "open failed"
      else readings (holdModeOf args) (LowLevel.requestRaw (holdModeOf args)))
      reply answers (State.start data)
    have heq := hs.events
    rw [he, he'] at heq
    cases List.cons.inj heq with
    | intro hhead _ => exact Req.openDev.inj (Prod.mk.inj hhead).1
  · intro hdev
    rw [← hdev]
    have hagree : AgreeOn NotEnodev
        (openDev ((operandsOf args)[0]?.getD i2cDev) >>= fun fd =>
          if fd = -1 then err 1 "open failed"
          else readings (holdModeOf args)
            (Query.requestRaw { holdMode := holdModeOf args, xferMode := false, verbosity := 0 }))
        (openDev ((operandsOf args)[0]?.getD i2cDev) >>= fun fd =>
          if fd = -1 then err 1 "open failed"
          else readings (holdModeOf args) (LowLevel.requestRaw (holdModeOf args))) := by
      refine (AgreeOn.refl _).bind fun fd => ?_
      by_cases hfd : fd = -1
      · rw [if_pos hfd, if_pos hfd]
        exact AgreeOn.refl _
      · rw [if_neg hfd, if_neg hfd]
        exact readings_agree _
    rw [hagree _ _ hev]
    exact ⟨rfl, rfl, rfl⟩

/-- The bus in hold mode: two requests that succeed. -/
def holdReplies : List Reply :=
  [.ok default, .ok default, .ok default, .ok ⟨0x68#8, 0x3a#8, 0x7c#8⟩, .ok default,
    .ok default, .ok default, .ok default, .ok ⟨0x4e#8, 0x85#8, 0x6b#8⟩, .ok default]

theorem main_agree_iff_hold :
    SameRun (Query.main ["-H", "/dev/iic1", "/dev/iic1"] (.ok default :: holdReplies)
        (State.start default))
      (LowLevel.main ["-H", "/dev/iic1", "/dev/iic1"] (.ok default :: holdReplies)
        (State.start default)) ↔
    (operandsOf ["-H", "/dev/iic1", "/dev/iic1"])[0]?.getD i2cDev =
      (operandsOf ["-H", "/dev/iic1", "/dev/iic1"])[1]?.getD i2cDev :=
  main_agree_iff (holdOnly_replicate 1 fun w hw c cs => by cases hw; simp) (.ok default)
    holdReplies default (by decide +kernel)

/-- With one operand the first program opens it, the second one opens the default device. -/
theorem main_one_operand :
    HoldOnly ["/dev/iic1"] ∧
      (Query.main ["/dev/iic1"] [.ok default] (State.start default)).events =
        [(.openDev "/dev/iic1", .ok default)] ∧
      (LowLevel.main ["/dev/iic1"] [.ok default] (State.start default)).events =
        [(.openDev "/dev/iic0", .ok default)] ∧
      ¬SameRun (Query.main ["/dev/iic1"] [.ok default] (State.start default))
        (LowLevel.main ["/dev/iic1"] [.ok default] (State.start default)) := by
  have hq : (Query.main ["/dev/iic1"] [.ok default] (State.start default)).events =
      [(.openDev "/dev/iic1", .ok default)] := by decide
  have hl : (LowLevel.main ["/dev/iic1"] [.ok default] (State.start default)).events =
      [(.openDev "/dev/iic0", .ok default)] := by decide
  have hopt : (getopt ['H'] ["/dev/iic1"]).1 = [] := by decide
  refine ⟨fun ch hch => ?_, hq, hl, fun hs => ?_⟩
  · rw [hopt] at hch
    cases hch
  · have heq := hs.events
    rw [hq, hl] at heq
    exact absurd heq (by decide)

end Htu21
