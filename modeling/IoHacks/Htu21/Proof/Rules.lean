import IoHacks.Htu21.Bus

/-!
# Preconditions of the system calls

A system call may succeed or fail with any `errno`, and a program goes on accordingly; a message
changes the output alone.
-/

namespace Htu21

open Lib Prog

/-- The two values of `error`. -/
theorem failed : (-1 : Int) ≠ 0 := by decide

theorem not_failed : ¬(0 : Int) ≠ 0 := by decide

/-! ## Buffers -/

theorem receive_of_received {i : Ioctl} {count : Nat} (h : i.received = some count) (s : State)
    (bytes : Frame) : s.receive i bytes = { s with data := bytes.fill count s.data } := by
  rw [State.receive, h]

theorem receive_stdout (s : State) (i : Ioctl) (bytes : Frame) :
    (s.receive i bytes).stdout = s.stdout := by
  unfold State.receive
  cases i.received <;> rfl

/-- A later transfer of the same length overwrites an earlier one. -/
theorem fill_fill (count : Nat) (b b' data : Frame) :
    b.fill count (b'.fill count data) = b.fill count data := by
  unfold Frame.fill
  by_cases h0 : 0 < count <;> by_cases h1 : 1 < count <;> by_cases h2 : 2 < count <;>
    simp [h0, h1, h2]

/-! ## Runs -/

theorem ioctl_ok (i : Ioctl) (bytes : Frame) (answers : List Reply) (s : State) :
    ioctl i (.ok bytes :: answers) s =
      { outcome := .ret 0, events := [(.ioctl i, .ok bytes)], answers
        state := s.receive i bytes } := rfl

theorem ioctl_fail (i : Ioctl) (errno : Nat) (bytes : Frame) (answers : List Reply) (s : State) :
    ioctl i (.fail errno bytes :: answers) s =
      { outcome := .ret (-1), events := [(.ioctl i, .fail errno bytes)], answers
        state := { s.receive i bytes with errno } } := rfl

/-! ## Preconditions -/

variable {α : Type} {Q : Post Req Reply State α} {evs : List Event} {s : State}

theorem wp_ioctl_bind {i : Ioctl} {f : Int → Io α} (hw : Q.wait evs s)
    (hok : ∀ bytes, wp (f 0) Q (evs ++ [(.ioctl i, .ok bytes)]) (s.receive i bytes))
    (hfail : ∀ errno bytes, wp (f (-1)) Q (evs ++ [(.ioctl i, .fail errno bytes)])
      { s.receive i bytes with errno }) :
    wp (ioctl i >>= f) Q evs s := by
  refine wp_bind (wp_bind (wp_ask hw fun reply => ?_))
  cases reply with
  | ok bytes => exact wp_bind (wp_modify (wp_pure (hok bytes)))
  | fail errno bytes => exact wp_bind (wp_modify (wp_pure (hfail errno bytes)))

/-- A last stop, whose result is thrown away. -/
theorem wp_stop_pure {a : α} (hw : Q.wait evs s)
    (h : ∀ reply errno, Q.ret a (evs ++ [(.ioctl .stop, reply)]) { s with errno }) :
    wp (do let _ ← ioctl .stop; pure a) Q evs s :=
  wp_ioctl_bind hw (fun bytes => wp_pure (h (.ok bytes) s.errno))
    fun errno bytes => wp_pure (h (.fail errno bytes) errno)

theorem wp_eprintf_bind {text : String} {f : Unit → Io α}
    (h : wp (f ()) Q evs { s with stderr := s.stderr ++ [text] }) :
    wp (eprintf text >>= f) Q evs s := wp_bind (wp_modify h)

theorem wp_eprintfErrno_bind {text : String} {f : Unit → Io α}
    (h : ∀ stderr, wp (f ()) Q evs { s with stderr }) :
    wp (eprintfErrno text >>= f) Q evs s := wp_bind (wp_bind (wp_get (wp_modify (h _))))

end Htu21
