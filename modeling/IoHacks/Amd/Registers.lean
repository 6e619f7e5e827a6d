import IoHacks.Amd.Decode

/-!
# The decoder as a function of the register contents

With every read succeeding, the decoder's reads are answered by the register contents `cfg`. This
file names the registers by their meaning (`rangeBase`, `nodeDct`, …) and evaluates the programs
of `Decode.lean` on them: an iteration of the range loop is `rangeStep` (`eval_dramRangeBody`), in
which a range either does not match (`rangeMatches`), or is located (`locatedAt`) and searched
(`csSearch`).
-/

namespace Amd

open Lib

section
variable (cfg : PciReg → BitVec 32)

/-! ## The registers of a range -/

def rangeBaseLow (r : Nat) : BitVec 32 := cfg ⟨bus0, device, func1, 0x40 + (r <<< 3)⟩

def rangeLimitLow (r : Nat) : BitVec 32 := cfg ⟨bus0, device, func1, 0x40 + (r <<< 3) + 4⟩

def rangeEn (r : Nat) : Bool := dramEn (rangeBaseLow cfg r)

def rangeIntlvEn (r : Nat) : BitVec 32 := intlvField (rangeBaseLow cfg r)

def rangeIntlvSel (r : Nat) : BitVec 32 := intlvField (rangeLimitLow cfg r)

def rangeNode (r : Nat) : Nat := (rangeLimitLow cfg r &&& 0x00000007#32).toNat

def rangeBase (r : Nat) : BitVec 64 :=
  dramBaseLong (rangeBaseLow cfg r)
    ((cfg ⟨bus0, device, func1, 0x40 + (r <<< 3) + 0x100⟩).setWidth 64)

def rangeLimit (r : Nat) : BitVec 64 :=
  dramLimitLong (rangeLimitLow cfg r)
    ((cfg ⟨bus0, device, func1, 0x40 + (r <<< 3) + 0x104⟩).setWidth 64)

/-- The three `continue` tests of an iteration pass. -/
def rangeMatches (r : Nat) (systemAddr : BitVec 64) : Bool :=
  rangeEn cfg r && inWindow (rangeBase cfg r) (rangeLimit cfg r) systemAddr &&
    intlvMatches (rangeIntlvEn cfg r) (rangeIntlvSel cfg r) systemAddr

/-! ## The registers of a node -/

def nodeSwap (node : Nat) : BitVec 32 := cfg ⟨bus0, dev24 + node, func2, 0x10C⟩

def nodeDct (node : Nat) : DctSel :=
  dctSel (cfg ⟨bus0, dev24 + node, func2, 0x110⟩)
    ((cfg ⟨bus0, dev24 + node, func2, 0x114⟩).setWidth 64)

def nodeHole (node : Nat) : BitVec 32 := cfg ⟨bus0, dev24 + node, func1, 0xF0⟩

def nodeCSBase (node channel cs : Nat) : BitVec 32 :=
  cfg ⟨bus0, dev24 + node, func2, f2Offset channel cs⟩

def nodeCSMask (node channel cs : Nat) : BitVec 32 :=
  cfg ⟨bus0, dev24 + node, func2, f2MaskOffset channel cs⟩

def nodeSpare (node : Nat) : BitVec 32 := cfg ⟨bus0, dev24 + node, func3, 0xB0⟩

/-! ## One iteration -/

/-- What a matching range locates for an address. -/
def locatedAt (r : Nat) (systemAddr : BitVec 64) : Located :=
  let nodeID := rangeNode cfg r
  let swapped := swapRegion (nodeSwap cfg nodeID) systemAddr
  let d := nodeDct cfg nodeID
  { systemAddr := swapped
    nodeID
    channel := channelSelect d (rangeIntlvEn cfg r) swapped
    channelAddrLong :=
      removeChannel d (hiRangeSelected d swapped) (removeNodeID (ilog (rangeIntlvEn cfg r))
        (normalize swapped (channelOffsetLong d (nodeHole cfg nodeID) (rangeBase cfg r) swapped))) }

/-- Chip select `cs` of a located address hits. -/
def csHits (l : Located) (cs : Nat) : Bool :=
  csHit (nodeCSBase cfg l.nodeID l.channel cs) (nodeCSMask cfg l.nodeID l.channel cs) l.inputAddr

/-- The first chip select that hits. -/
def csSearch (l : Located) : Option Nat := (List.range 8).find? (csHits cfg l)

/-- The locals after a located address was searched. -/
def searched (l : Located) : Locals :=
  match csSearch cfg l with
  | some c =>
    { systemAddr := l.systemAddr, nodeID := l.nodeID, channel := l.channel
      cs := spareRank l.channel c (nodeSpare cfg l.nodeID), csFound := true }
  | none =>
    { systemAddr := l.systemAddr, nodeID := l.nodeID, channel := l.channel
      cs := 8, csFound := false }

/-- One iteration of the range loop. -/
def rangeStep (r : Nat) (s : Locals) : Locals :=
  if rangeMatches cfg r s.systemAddr then searched cfg (locatedAt cfg r s.systemAddr) else s

end

/-! ## Evaluation -/

section
variable (cfg : PciReg → BitVec 32)

@[simp] theorem eval_getPCI (bus dev func reg : Nat) :
    (getPCI bus dev func reg).eval (DevPci.regs cfg).answer =
      (cfg ⟨bus, dev, func, reg⟩).setWidth 64 := rfl

theorem setWidth_setWidth (x : BitVec 32) : (x.setWidth 64).setWidth 32 = x := by
  rw [BitVec.setWidth_setWidth (by decide), BitVec.setWidth_eq]

theorem eval_locate (r : Nat) (systemAddr : BitVec 64) :
    (locate r systemAddr).eval (DevPci.regs cfg).answer =
      if rangeMatches cfg r systemAddr then some (locatedAt cfg r systemAddr) else none := by
  have hen : dramEn (cfg ⟨bus0, device, func1, 0x40 + (r <<< 3)⟩) = rangeEn cfg r := rfl
  have hw : inWindow
      (dramBaseLong (cfg ⟨bus0, device, func1, 0x40 + (r <<< 3)⟩)
        ((cfg ⟨bus0, device, func1, 0x40 + (r <<< 3) + 0x100⟩).setWidth 64))
      (dramLimitLong (cfg ⟨bus0, device, func1, 0x40 + (r <<< 3) + 4⟩)
        ((cfg ⟨bus0, device, func1, 0x40 + (r <<< 3) + 0x104⟩).setWidth 64)) systemAddr =
    inWindow (rangeBase cfg r) (rangeLimit cfg r) systemAddr := rfl
  unfold locate rangeMatches
  simp only [Query.eval_bind, eval_getPCI, setWidth_setWidth, Query.eval_ite, Query.eval_pure, hen]
  cases rangeEn cfg r with
  | false => rfl
  | true =>
    simp only [↓reduceIte, Query.eval_bind, eval_getPCI, setWidth_setWidth, Query.eval_ite,
      Query.eval_pure, hw, Bool.true_and]
    cases inWindow (rangeBase cfg r) (rangeLimit cfg r) systemAddr with
    | false => rfl
    | true =>
      simp only [↓reduceIte, Bool.true_and]
      rfl

/-- An iteration goes on to the search when its range matches. -/
theorem eval_locate_isSome (r : Nat) (systemAddr : BitVec 64) :
    ((locate r systemAddr).eval (DevPci.regs cfg).answer).isSome =
      rangeMatches cfg r systemAddr := by
  rw [eval_locate]
  cases rangeMatches cfg r systemAddr <;> rfl

theorem eval_locate_eq_some {r : Nat} {systemAddr : BitVec 64} {l : Located} :
    (locate r systemAddr).eval (DevPci.regs cfg).answer = some l ↔
      rangeMatches cfg r systemAddr = true ∧ locatedAt cfg r systemAddr = l := by
  rw [eval_locate]
  cases rangeMatches cfg r systemAddr <;> simp

theorem eval_csLoop (l : Located) (css : List Nat) :
    (csLoop l.nodeID l.channel l.inputAddr css).eval (DevPci.regs cfg).answer =
      match css.find? (csHits cfg l) with
      | some c => (spareRank l.channel c (nodeSpare cfg l.nodeID), true)
      | none => (8, false) := by
  induction css with
  | nil => rfl
  | cons c css ih =>
    have hc : csHit (cfg ⟨bus0, dev24 + l.nodeID, func2, f2Offset l.channel c⟩)
        (cfg ⟨bus0, dev24 + l.nodeID, func2, f2MaskOffset l.channel c⟩) l.inputAddr =
      csHits cfg l c := rfl
    simp only [csLoop, Query.eval_bind, Query.eval_ite, Query.eval_pure, eval_getPCI,
      setWidth_setWidth, List.find?_cons, hc, ih]
    cases csHits cfg l c <;> rfl

theorem eval_chipSelect (l : Located) :
    (chipSelect l).eval (DevPci.regs cfg).answer = searched cfg l := by
  simp only [chipSelect, Query.eval_bind, Query.eval_pure, eval_csLoop, searched, csSearch]
  split <;> rfl

theorem eval_dramRangeBody (r : Nat) (s : Locals) :
    (dramRangeBody r s).eval (DevPci.regs cfg).answer = rangeStep cfg r s := by
  simp only [dramRangeBody, Query.eval_bind, eval_locate, rangeStep]
  cases rangeMatches cfg r s.systemAddr with
  | false => rfl
  | true => exact eval_chipSelect cfg _

/-- The range loop on the register contents. -/
def rangeRun : List Nat → Locals → Locals
  | [], s => s
  | r :: rs, s =>
    let s := rangeStep cfg r s
    if s.csFound then s else rangeRun rs s

theorem eval_rangeLoop (rs : List Nat) (s : Locals) :
    (rangeLoop rs s).eval (DevPci.regs cfg).answer = rangeRun cfg rs s := by
  induction rs generalizing s with
  | nil => rfl
  | cons r rs ih =>
    simp only [rangeLoop, rangeRun, Query.eval_bind, Query.eval_ite, Query.eval_pure,
      eval_dramRangeBody, ih]

/-- The value of `TranslateSysAddrToCS` on the register contents. -/
def decode (u : Locals) (systemAddr : BitVec 64) : Result :=
  (translateSysAddrToCS u systemAddr).eval (DevPci.regs cfg).answer

/-- The locals at the start of the range loop. -/
def Locals.start (u : Locals) (systemAddr : BitVec 64) : Locals :=
  { u with systemAddr, csFound := false }

def Locals.result (s : Locals) : Result :=
  { found := s.csFound, node := s.nodeID, channel := s.channel, cs := s.cs }

theorem decode_eq (u : Locals) (systemAddr : BitVec 64) :
    decode cfg u systemAddr = (rangeRun cfg (List.range 8) (u.start systemAddr)).result := by
  simp only [decode, translateSysAddrToCS, Query.eval_bind, Query.eval_pure, eval_rangeLoop]
  rfl

end

theorem swapRegion_off {temp : BitVec 32} (h : temp &&& 0x1#32 = 0#32) (a : BitVec 64) :
    swapRegion temp a = a := if_neg fun hn => hn h

/-- Register contents given by a list of (device, function, register, value); all others are 0. -/
def regFile (l : List (Nat × Nat × Nat × BitVec 32)) (r : PciReg) : BitVec 32 :=
  match l.find? fun e => e.1 == r.dev && e.2.1 == r.func && e.2.2.1 == r.reg with
  | some e => e.2.2.2
  | none => 0#32

/-- One rank of memory at the bottom of the address space. -/
def oneRank : PciReg → BitVec 32 :=
  regFile [(24, 1, 0x40, 0x3#32), (24, 1, 0x44, 0x000F0000#32), (24, 2, 0x40, 0x1#32),
    (24, 2, 0x60, 0x1FF83FE0#32)]

end Amd
