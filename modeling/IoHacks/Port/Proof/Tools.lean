import IoHacks.Lib.Check
import IoHacks.Mem.Proof.Gpio
import IoHacks.Port.IntrMap
import IoHacks.Port.Sio

/-!
# The register tools check before they access

What the arguments ask for is stated without the programs' own checks: `Valid` says which arguments
there are to be, and `Asked` which access they ask for. Each `parse` decides `Valid` and returns the
access (`parse_decides`), so a run opens its device exactly for valid arguments, and then makes that
access (`tools_validate`).
-/

namespace Port

open Lib
open Mem.Gpio (Mode setMode notParsed ulong ulong_toNat)

/-! ## What the arguments ask for -/

def options (args : List String) : List Char := (getopt ['r', 'w'] args).1

def operands (args : List String) : List String := (getopt ['r', 'w'] args).2

/-- The mode after some options: the last one counts. -/
def lastMode (mode : Mode) (chs : List Char) : Mode :=
  match chs.getLast? with
  | none => mode
  | some ch => if ch = 'w' then .wr else .rd

/-- The mode that the arguments select; it is the read mode without options. -/
def modeOf (args : List String) : Mode := lastMode .rd (options args)

/-- The word is a number that `strtoul` consumes as a whole, and the number is a byte. -/
structure IsByte (word : String) : Prop where
  nonempty : word ≠ ""
  consumed : (strtoul word).rest = []
  le : (strtoul word).value ≤ 255

def ByteAt (argv : List String) (i : Nat) : Prop := ∃ word, argv[i]? = some word ∧ IsByte word

def valueAt (argv : List String) (i : Nat) : Nat := (strtoul (argv[i]?.getD "")).value

/-- Every option is `-r` or `-w`, and the operands that the mode needs are bytes. -/
structure Valid (needed : Mode → Nat) (args : List String) : Prop where
  options : ∀ ch ∈ options args, ch = 'r' ∨ ch = 'w'
  operands : ∀ i < needed (modeOf args), ByteAt (operands args) i

def Sio.needed : Mode → Nat
  | .rd => 2
  | .wr => 3

def IntrMap.needed : Mode → Nat
  | .rd => 1
  | .wr => 2

/-- The accesses that the arguments of `sio_tool` ask for. -/
def Sio.Asked (args : List String) (ops : List Req) : Prop :=
  ∃ cmd : SuperioCmd, cmd.ldn.toNat = valueAt (operands args) 0 ∧
    cmd.cr.toNat = valueAt (operands args) 1 ∧
    match modeOf args with
    | .rd => ops = [.ioctl .crRead cmd]
    | .wr => cmd.val.toNat = valueAt (operands args) 2 ∧ ops = [.ioctl .crWrite cmd]

/-- The accesses that the arguments of `amd_intr_map_tool` ask for. -/
def IntrMap.Asked (args : List String) (ops : List Req) : Prop :=
  ∃ idx : BitVec 8, idx.toNat = valueAt (operands args) 0 ∧
    match modeOf args with
    | .rd => ops = [.outb addrPort idx, .inb dataPort]
    | .wr => ∃ val : BitVec 8, val.toNat = valueAt (operands args) 1 ∧
        ops = [.outb addrPort idx, .outb dataPort val]

/-! ## The checks -/

theorem lastMode_cons (mode : Mode) (ch : Char) (chs : List Char) :
    lastMode mode (ch :: chs) = lastMode (if ch = 'w' then .wr else .rd) chs := by
  cases chs with
  | nil => rfl
  | cons d ds =>
    rw [lastMode, lastMode, List.getLast?_cons_cons]
    cases hlast : (d :: ds).getLast? with
    | none => cases List.getLast?_eq_none_iff.1 hlast
    | some last => rfl

/-- The option loop. -/
theorem setMode_decides (mode : Mode) (cs : List Char) :
    Decides (setMode mode cs) (∀ ch ∈ cs.map (optChar ['r', 'w']), ch = 'r' ∨ ch = 'w')
      (· = lastMode mode (cs.map (optChar ['r', 'w']))) := by
  induction cs generalizing mode with
  | nil =>
    have hnil : Decides (setMode mode []) True (· = lastMode mode []) := .pure rfl
    exact hnil.congr (by simp)
  | cons c cs ih =>
    rw [List.map_cons, lastMode_cons]
    unfold setMode
    split
    · rename_i hch
      rw [hch]
      exact (ih .rd).congr (by simp)
    · rename_i hch
      rw [hch]
      exact (ih .wr).congr (by simp)
    · rename_i hr hw
      refine (Decides.throw _).congr (iff_of_false id fun h => ?_)
      rcases h _ List.mem_cons_self with hch | hch
      · exact hr hch
      · exact hw hch

theorem notParsed_iff (word : String) :
    notParsed word = true ↔ ¬(word ≠ "" ∧ (strtoul word).rest = []) := by
  have hempty : word.toList = [] ↔ word = "" := by simp
  simp only [notParsed, decide_eq_true_eq]
  by_cases hrest : (strtoul word).rest = []
  · simp only [hrest, ne_eq, not_true_eq_false, or_false, and_true, not_not, ← hempty, eq_comm]
  · simp [hrest]

/-- The checks of an operand. -/
theorem byteArg_decides (name : String) (argv : List String) (i : Nat) :
    Decides (byteArg name argv i) (ByteAt argv i) (·.toNat = valueAt argv i) := by
  unfold byteArg ByteAt valueAt
  split
  · rename_i hnone
    refine (Decides.throw _).congr (iff_of_false id ?_)
    rintro ⟨word, hword, -⟩
    rw [hnone] at hword
    cases hword
  · rename_i word hword
    have hvalue : (ulong word).toNat = (strtoul word).value := ulong_toNat word
    have hle : ¬uint8Max < ulong word ↔ (strtoul word).value ≤ 255 := by
      rw [BitVec.lt_def, hvalue, Nat.not_lt]
      exact Iff.rfl
    rw [hword]
    refine (Decides.guard fun _ => Decides.guard fun hmax => .pure ?_).congr ?_
    · have := hle.1 hmax
      rw [BitVec.toNat_setWidth, hvalue, Nat.mod_eq_of_lt (by omega)]
      rfl
    · rw [notParsed_iff, hle, not_not]
      constructor
      · rintro ⟨⟨hne, hrest⟩, hmax, -⟩
        exact ⟨word, rfl, hne, hrest, hmax⟩
      · rintro ⟨_, ⟨⟩, hbyte⟩
        exact ⟨⟨hbyte.nonempty, hbyte.consumed⟩, hbyte.le, trivial⟩

/-- The two parts of the arguments. -/
theorem options_decides (args : List String) :
    Decides (setMode .rd (optLetters args)) (∀ ch ∈ options args, ch = 'r' ∨ ch = 'w')
      (· = modeOf args) := by
  rw [modeOf, options, getopt_fst]
  exact setMode_decides .rd (optLetters args)

theorem valid_iff {needed : Mode → Nat} {args : List String} :
    Valid needed args ↔ (∀ ch ∈ options args, ch = 'r' ∨ ch = 'w') ∧
      ∀ i < needed (modeOf args), ByteAt (operands args) i :=
  ⟨fun h => ⟨h.options, h.operands⟩, fun h => ⟨h.1, h.2⟩⟩

/-- **`sio_tool` accepts the valid arguments**, as the ioctl that they ask for. -/
theorem Sio.parse_decides (val : BitVec 8) (args : List String) :
    Decides (Sio.parse val args) (Valid Sio.needed args)
      fun r => Sio.Asked args [.ioctl r.1 r.2] := by
  rw [valid_iff]
  refine (options_decides args).bind ?_
  rintro _ rfl
  cases hmode : modeOf args with
  | rd =>
    refine Decides.congr ((byteArg_decides "LDN" (operands args) 0).bind fun ldn hldn =>
      (byteArg_decides "CR" (operands args) 1).bind fun cr hcr =>
      .pure ⟨{ ldn, cr, val }, hldn, hcr, ?_⟩) ?_
    · rw [hmode]
    · simp only [needed, Nat.forall_lt_succ_right]
      simp
  | wr =>
    refine Decides.congr ((byteArg_decides "LDN" (operands args) 0).bind fun ldn hldn =>
      (byteArg_decides "CR" (operands args) 1).bind fun cr hcr =>
      (byteArg_decides "value" (operands args) 2).bind fun val hval =>
      .pure ⟨{ ldn, cr, val }, hldn, hcr, ?_⟩) ?_
    · rw [hmode]
      exact ⟨hval, rfl⟩
    · simp only [needed, Nat.forall_lt_succ_right]
      simp [and_assoc]

/-- The accesses of a register access. -/
def IntrMap.Access.ops : Access → List Req
  | .read idx => [.outb addrPort idx, .inb dataPort]
  | .write idx val => [.outb addrPort idx, .outb dataPort val]

/-- **`amd_intr_map_tool` accepts the valid arguments**, as the access that they ask for. -/
theorem IntrMap.parse_decides (args : List String) :
    Decides (IntrMap.parse args) (Valid IntrMap.needed args)
      fun a => IntrMap.Asked args a.ops := by
  rw [valid_iff]
  refine (options_decides args).bind ?_
  rintro _ rfl
  cases hmode : modeOf args with
  | rd =>
    refine Decides.congr ((byteArg_decides "index" (operands args) 0).bind fun idx hidx =>
      .pure ⟨idx, hidx, ?_⟩) ?_
    · rw [hmode]
      rfl
    · simp only [needed, Nat.forall_lt_succ_right]
      simp
  | wr =>
    refine Decides.congr ((byteArg_decides "index" (operands args) 0).bind fun idx hidx =>
      (byteArg_decides "value" (operands args) 1).bind fun val hval =>
      .pure ⟨idx, hidx, ?_⟩) ?_
    · rw [hmode]
      exact ⟨val, hval, rfl⟩
    · simp only [needed, Nat.forall_lt_succ_right]
      simp

/-! ## The runs -/

/-- An access to the hardware. -/
def Req.isAccess : Req → Bool
  | .ioctl .. => true
  | .outb .. => true
  | .inb _ => true
  | _ => false

/-- The accesses of a run. -/
def accesses (evs : List Event) : List Req := (evs.map (·.1)).filter Req.isAccess

/-- The run opens its device if and only if the arguments are valid, and before everything else.
When the device can be opened it goes on to the accesses that the arguments ask for; it makes no
others. A device that cannot be opened and invalid arguments end it with a message and the
status 1. -/
structure Validates (device : Req) (valid : Prop) (Asked : List Req → Prop) (evs : List Event)
    (status : Nat) : Prop where
  opens : device ∈ evs.map (·.1) ↔ valid
  first : valid → (evs.map (·.1)).head? = some device
  reaches : ∀ reply, (device, reply) ∈ evs → reply.failed = false → accesses evs ≠ []
  closed : ∀ reply, (device, reply) ∈ evs → reply.failed = true →
    status = 1 ∧ ∃ text answer, evs = [(device, reply), (.perror text, answer)]
  asked : accesses evs ≠ [] → Asked (accesses evs)
  refuses : ¬valid → status = 1 ∧ ∃ text reply, evs = [(.eprintf text, reply)]

section
variable {path : String} {write : Bool} {valid : Prop} {Asked : List Req → Prop}
  {evs : List Event} {status : Nat}

/-- A run that only prints a message. -/
theorem validates_refused (hv : ¬valid) {text : String}
    (h : Query.Runs (do let _ ← Query.request (.eprintf text); pure 1 : Io Nat) evs status) :
    Validates (.openDev path write) valid Asked evs status := by
  obtain ⟨reply, rfl, rfl⟩ := Query.runs_request_pure.1 h
  exact
    { opens := iff_of_false (by simp) hv
      first := fun hvalid => absurd hvalid hv
      reaches := by simp
      closed := by simp
      asked := fun hne => absurd rfl hne
      refuses := fun _ => ⟨rfl, text, reply, rfl⟩ }

/-- A run that opens the device and then makes the accesses, if it has got the device. -/
theorem validates_opened (hv : valid) {x : Reply}
    (hopen : ∀ reply, (.openDev path write, reply) ∉ evs)
    (hfail : x.failed = true → status = 1 ∧ ∃ text answer, evs = [(.perror text, answer)])
    (hok : x.failed = false → accesses evs ≠ [] ∧ Asked (accesses evs)) :
    Validates (.openDev path write) valid Asked ((.openDev path write, x) :: evs) status := by
  have hcons : accesses ((.openDev path write, x) :: evs) = accesses evs := rfl
  -- the opening is the first call and no other
  have hx : ∀ reply, (.openDev path write, reply) ∈ (.openDev path write, x) :: evs →
      reply = x := by
    intro reply hm
    rcases List.mem_cons.1 hm with heq | hm
    · cases heq
      rfl
    · exact absurd hm (hopen reply)
  refine ⟨iff_of_true List.mem_cons_self hv, fun _ => rfl, fun reply hm hr => ?_,
    fun reply hm hr => ?_, fun hne => ?_, fun hn => absurd hv hn⟩
  · rw [hx reply hm] at hr
    exact (hok hr).1
  · obtain rfl := hx reply hm
    obtain ⟨hstatus, text, answer, rfl⟩ := hfail hr
    exact ⟨hstatus, text, answer, rfl⟩
  · rw [hcons] at hne ⊢
    cases hr : x.failed with
    | false => exact (hok hr).2
    | true =>
      obtain ⟨-, text, answer, rfl⟩ := hfail hr
      exact absurd rfl hne

/-- A program that opens the device and, if it has got it, goes on to `p`. -/
theorem validates_accepted (hv : valid) {text : String} {p : Io Nat} {ops : List Req}
    (hne : ops ≠ []) (hasked : Asked ops)
    (hp : ∀ {evs status}, Query.Runs p evs status →
      accesses evs = ops ∧ ∀ reply, (.openDev path write, reply) ∉ evs)
    (h : Query.Runs (do
      if (← Query.request (.openDev path write)).failed then
        let _ ← Query.request (.perror text)
        pure 1
      else p : Io Nat) evs status) :
    Validates (.openDev path write) valid Asked evs status := by
  obtain ⟨x, evs, rfl, hopened⟩ := Query.runs_request_bind.1 h
  split at hopened
  · rename_i hfailed
    obtain ⟨y, rfl, rfl⟩ := Query.runs_request_pure.1 hopened
    refine validates_opened hv (by simp) (fun _ => ⟨rfl, text, y, rfl⟩) fun hok => ?_
    rw [hfailed] at hok
    cases hok
  · rename_i hok
    obtain ⟨hops, hopen⟩ := hp hopened
    refine validates_opened hv hopen (fun hfailed => absurd hfailed hok) fun _ => ?_
    rw [hops]
    exact ⟨hne, hasked⟩

end

theorem Sio.main_validates {val : BitVec 8} {args : List String} {evs : List Event} {status : Nat}
    (h : Query.Runs (Sio.main val args) evs status) :
    Validates (.openDev Sio.dev true) (Valid Sio.needed args) (Sio.Asked args) evs status := by
  unfold Sio.main at h
  cases Sio.parse_decides val args with
  | refuses hv text hx =>
    rw [hx] at h
    exact validates_refused hv h
  | accepts hv r hx hasked =>
    obtain ⟨req, cmd⟩ := r
    rw [hx] at h
    refine validates_accepted hv (List.cons_ne_nil _ _) hasked (fun hioctl => ?_) h
    obtain ⟨y, evs, rfl, hafter⟩ := Query.runs_request_bind.1 hioctl
    -- what follows the ioctl is a message, or a message and `close`
    have hquiet : accesses evs = [] ∧ ∀ reply, (.openDev Sio.dev true, reply) ∉ evs := by
      split at hafter
      · obtain ⟨z, rfl, -⟩ := Query.runs_request_pure.1 hafter
        exact ⟨rfl, by simp⟩
      · split at hafter
        · obtain ⟨z, evs, rfl, hclose⟩ := Query.runs_request_bind.1 hafter
          obtain ⟨w, rfl, -⟩ := Query.runs_request_pure.1 hclose
          exact ⟨rfl, by simp⟩
        · obtain ⟨z, rfl, -⟩ := Query.runs_request_pure.1 hafter
          exact ⟨rfl, by simp⟩
    exact ⟨congrArg (List.cons _) hquiet.1, by simpa using hquiet.2⟩

/-- A register access makes its accesses. -/
theorem IntrMap.access_runs {a : Access} {evs : List Event} {u : Unit}
    (h : Query.Runs (IntrMap.access a) evs u) :
    accesses evs = a.ops ∧ ∀ path write reply, (.openDev path write, reply) ∉ evs := by
  cases a with
  | read idx =>
    obtain ⟨x, evs, rfl, hin⟩ := Query.runs_request_bind.1 h
    obtain ⟨y, evs, rfl, hprint⟩ := Query.runs_request_bind.1 hin
    obtain ⟨z, rfl, -⟩ := Query.runs_request_pure.1 hprint
    exact ⟨rfl, by simp⟩
  | write idx val =>
    obtain ⟨x, evs, rfl, hout⟩ := Query.runs_request_bind.1 h
    obtain ⟨y, rfl, -⟩ := Query.runs_request_pure.1 hout
    exact ⟨rfl, by simp⟩

theorem IntrMap.Access.ops_ne_nil (a : Access) : a.ops ≠ [] := by
  cases a with
  | read idx => exact List.cons_ne_nil _ _
  | write idx val => exact List.cons_ne_nil _ _

theorem IntrMap.main_validates {args : List String} {evs : List Event} {status : Nat}
    (h : Query.Runs (IntrMap.main args) evs status) :
    Validates (.openDev "/dev/io" false) (Valid IntrMap.needed args) (IntrMap.Asked args) evs
      status := by
  unfold IntrMap.main at h
  cases IntrMap.parse_decides args with
  | refuses hv text hx =>
    rw [hx] at h
    exact validates_refused hv h
  | accepts hv a hx hasked =>
    rw [hx] at h
    refine validates_accepted hv a.ops_ne_nil hasked (fun hgot => ?_) h
    obtain ⟨u, evs₁, evs₂, rfl, haccess, hclose⟩ := Query.runs_bind.1 hgot
    obtain ⟨y, rfl, -⟩ := Query.runs_request_pure.1 hclose
    obtain ⟨hops, hopen⟩ := IntrMap.access_runs haccess
    refine ⟨?_, by simpa using hopen _ _⟩
    rw [accesses, List.map_append, List.filter_append, ← accesses, hops]
    exact List.append_nil _

/-- **The tools validate before they touch hardware**: for all arguments, on every run. -/
theorem tools_validate (args : List String) :
    (∀ val evs status, Query.Runs (Sio.main val args) evs status →
      Validates (.openDev Sio.dev true) (Valid Sio.needed args) (Sio.Asked args) evs status) ∧
    ∀ evs status, Query.Runs (IntrMap.main args) evs status →
      Validates (.openDev "/dev/io" false) (Valid IntrMap.needed args) (IntrMap.Asked args) evs
        status :=
  ⟨fun _ _ _ h => Sio.main_validates h, fun _ _ h => IntrMap.main_validates h⟩

/-- A write of the value 255, and a read where the write mode is not the last one. -/
theorem tools_validate_ready :
    Valid Sio.needed ["-w", "1", "0x30", "255"] ∧
    Sio.Asked ["-w", "1", "0x30", "255"] [.ioctl .crWrite ⟨1#8, 0x30#8, 255#8⟩] ∧
    IntrMap.Asked ["-wr", "010"] [.outb IntrMap.addrPort 8#8, .inb IntrMap.dataPort] := by
  have hsio := (tools_validate ["-w", "1", "0x30", "255"]).1 0#8 _ _ (Query.runs_eval ready _)
  have hmap := (tools_validate ["-wr", "010"]).2 _ _ (Query.runs_eval ready _)
  exact ⟨hsio.opens.1 (by decide), hsio.asked (by decide), hmap.asked (by decide)⟩

end Port
