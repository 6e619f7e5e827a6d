import IoHacks.Lib.Query

/-!
# The AMD address decoder (`amd-addr-decode.c`)

`translateSysAddrToCS` maps a system address to a node, a DRAM channel and a chip select by the
northbridge configuration registers. It is a `Query` program over `Get_PCI` reads, so that the
value and the sequence of registers read are both functions of the register contents.

The source is one function; it is cut here at its comments. Each stage is a pure function of the
register contents it reads (`dramBaseLong`, `swapRegion`, `dctSel`, `channelSelect`,
`channelOffsetLong`, `removeNodeID`, `removeChannel`); `locate` is the part of the range loop
before the chip-select search, `csLoop` the search, `rangeLoop` the loop over the eight ranges.
`uint32_t` and `uint64_t` variables are `BitVec`s; an `int` that only holds 0 or 1 is a `Bool`.
-/

namespace Amd

open Lib

/-- A configuration register: the arguments of `Get_PCI`. -/
structure PciReg where
  bus : Nat
  dev : Nat
  func : Nat
  reg : Nat
  deriving DecidableEq, Repr

/-- Programs that read configuration registers. -/
abbrev Pci := Query PciReg (BitVec 64)

/-- What `/dev/pci` gives: it cannot be opened, or it has register contents. -/
inductive DevPci where
  | missing
  | regs (cfg : PciReg → BitVec 32)

/-- The value of a `Get_PCI` call: `-1` when the device cannot be opened, else the 32-bit
register widened to the function's return type. -/
def DevPci.answer : DevPci → PciReg → BitVec 64
  | .missing, _ => BitVec.allOnes 64
  | .regs cfg, r => (cfg r).setWidth 64

def getPCI (bus dev func reg : Nat) : Pci (BitVec 64) := Query.request ⟨bus, dev, func, reg⟩

def popcount (v : BitVec 32) : Nat := (List.range 32).countP fun i => v.getLsbD i

/-- Odd parity. -/
def fUnaryXOR (v : BitVec 32) : Nat := popcount v &&& 1

/-! ## The constants -/

def bus0 : Nat := 0
def device : Nat := 24
def dev24 : Nat := 24
def func1 : Nat := 1
def func2 : Nat := 2
def func3 : Nat := 3
def ch0SpareRank : Int := -1
def ch1SpareRank : Int := -2

/-! ## The range registers -/

/-- `DramBaseLong`, from F1x40 and F1x140. -/
def dramBaseLong (low : BitVec 32) (high : BitVec 64) : BitVec 64 :=
  (((high &&& 0xFF#64) <<< 32) + (low &&& 0xFFFF0000#32).setWidth 64) <<< 8

/-- `DramLimitLong`, from F1x44 and F1x144. -/
def dramLimitLong (low : BitVec 32) (high : BitVec 64) : BitVec 64 :=
  (((high &&& 0xFF#64) <<< 32) + (low ||| 0x0000FFFF#32).setWidth 64) <<< 8 ||| 0xFF#64

def dramEn (dramBaseLow : BitVec 32) : Bool := dramBaseLow &&& 0x00000003#32 ≠ 0#32

/-- `IntlvEn` of a base register and `IntlvSel` of a limit register. -/
def intlvField (low : BitVec 32) : BitVec 32 := (low &&& 0x00000700#32) >>> 8

/-- The window test. -/
def inWindow (base limit systemAddr : BitVec 64) : Bool :=
  !(decide (systemAddr < base) || decide (limit < systemAddr))

/-- The node-interleave test. -/
def intlvMatches (intlvEn intlvSel : BitVec 32) (systemAddr : BitVec 64) : Bool :=
  !(decide (intlvEn ≠ 0#32) &&
    decide (intlvSel.setWidth 64 ≠ ((systemAddr >>> 12) &&& intlvEn.setWidth 64)))

/-- `Ilog`. -/
def ilog (intlvEn : BitVec 32) : Nat :=
  if intlvEn = 1#32 then 1
  else if intlvEn = 3#32 then 2
  else if intlvEn = 7#32 then 3
  else 0

/-! ## The region swap -/

/-- The swap of the interleaved region by F2x10C. The shifted base is a `uint32_t`. -/
def swapRegion (temp : BitVec 32) (systemAddr : BitVec 64) : BitVec 64 :=
  let intLvRgnSwapEn := temp &&& 0x1#32
  if intLvRgnSwapEn ≠ 0#32 then
    let intLvRgnBaseAddr := temp >>> 3 &&& 0x7F#32
    let intLvRgnLmtAddr := temp >>> 11 &&& 0x7F#32
    let intLvRgnSize := temp >>> 20 &&& 0x7F#32
    if systemAddr >>> 34 = 0#64 ∧
        ((intLvRgnBaseAddr.setWidth 64 ≤ systemAddr >>> 27 ∧
          systemAddr >>> 27 ≤ intLvRgnLmtAddr.setWidth 64) ∨
          systemAddr >>> 27 < intLvRgnSize.setWidth 64) then
      systemAddr ^^^ (intLvRgnBaseAddr <<< 27).setWidth 64
    else systemAddr
  else systemAddr

/-! ## The DRAM controller select -/

/-- The fields of F2x110 and F2x114. -/
structure DctSel where
  dctSelHiRngEn : Bool
  dctSelHi : BitVec 32
  dctSelIntLvEn : Bool
  dctGangEn : Bool
  dctSelIntLvAddr : BitVec 32
  dctSelBaseAddr : BitVec 32
  dctSelBaseOffsetLong : BitVec 64

def dctSel (temp : BitVec 32) (offset : BitVec 64) : DctSel where
  dctSelHiRngEn := temp &&& 1#32 ≠ 0#32
  dctSelHi := (temp >>> 1) &&& 1#32
  dctSelIntLvEn := temp &&& 4#32 ≠ 0#32
  dctGangEn := temp &&& 0x10#32 ≠ 0#32
  dctSelIntLvAddr := temp >>> 6 &&& 3#32
  dctSelBaseAddr := temp &&& 0xFFFFF800#32
  dctSelBaseOffsetLong := (offset &&& 0xFFFFFC00#64) <<< 16

/-- Determine if the high range is selected. -/
def hiRangeSelected (d : DctSel) (systemAddr : BitVec 64) : Bool :=
  d.dctSelHiRngEn && !d.dctGangEn &&
    decide ((d.dctSelBaseAddr >>> 11).setWidth 64 ≤ systemAddr >>> 27)

/-- One bit of the address. -/
def addrBit (systemAddr : BitVec 64) (i : Nat) : Nat := ((systemAddr >>> i) &&& 1#64).toNat

/-- Determine the channel. -/
def channelSelect (d : DctSel) (intlvEn : BitVec 32) (systemAddr : BitVec 64) : Nat :=
  if d.dctGangEn then 0
  else if hiRangeSelected d systemAddr then d.dctSelHi.toNat
  else if d.dctSelIntLvEn ∧ d.dctSelIntLvAddr = 0#32 then addrBit systemAddr 6
  else if d.dctSelIntLvEn ∧ (d.dctSelIntLvAddr >>> 1) &&& 1#32 ≠ 0#32 then
    let temp := fUnaryXOR (((systemAddr >>> 16) &&& 0x1F#64).setWidth 32)
    if d.dctSelIntLvAddr &&& 1#32 ≠ 0#32 then addrBit systemAddr 9 ^^^ temp
    else addrBit systemAddr 6 ^^^ temp
  else if d.dctSelIntLvEn ∧ intlvEn &&& 4#32 ≠ 0#32 then addrBit systemAddr 15
  else if d.dctSelIntLvEn ∧ intlvEn &&& 2#32 ≠ 0#32 then addrBit systemAddr 14
  else if d.dctSelIntLvEn ∧ intlvEn &&& 1#32 ≠ 0#32 then addrBit systemAddr 13
  else if d.dctSelIntLvEn then addrBit systemAddr 12
  else if d.dctSelHiRngEn then (~~~d.dctSelHi &&& 1#32).toNat
  else 0

/-! ## The channel address -/

/-- Determine the base address offset to use; `hole` is F1xF0. -/
def channelOffsetLong (d : DctSel) (hole : BitVec 32) (base systemAddr : BitVec 64) : BitVec 64 :=
  let holeOffset := hole &&& 0x0000FF80#32
  let holeEn := hole &&& 0x00000003#32
  if hiRangeSelected d systemAddr then
    if d.dctSelBaseAddr &&& 0xFFFF0000#32 = 0#32 ∧ holeEn &&& 1#32 ≠ 0#32 ∧
        0x100000000#64 ≤ systemAddr then
      (holeOffset <<< 16).setWidth 64
    else d.dctSelBaseOffsetLong
  else if holeEn &&& 1#32 ≠ 0#32 ∧ 0x100000000#64 ≤ systemAddr then
    (holeOffset <<< 16).setWidth 64
  else base &&& 0xFFFFF8000000#64

/-- Remove the hoisting offset and normalize to DRAM bus addresses. -/
def normalize (systemAddr offset : BitVec 64) : BitVec 64 :=
  (systemAddr &&& 0x0000FFFFFFFFFFC0#64) - (offset &&& 0x0000FFFFFF800000#64)

/-- Remove the node ID (in case of processor interleaving). -/
def removeNodeID (ilog : Nat) (channelAddrLong : BitVec 64) : BitVec 64 :=
  let temp := (channelAddrLong &&& 0xFC0#64).setWidth 32
  ((channelAddrLong >>> ilog) &&& 0xFFFFFFFFF000#64) ||| temp.setWidth 64

/-- Remove the channel interleave and hash. -/
def removeChannel (d : DctSel) (hi : Bool) (channelAddrLong : BitVec 64) : BitVec 64 :=
  if d.dctSelIntLvEn ∧ hi = false ∧ d.dctGangEn = false then
    if d.dctSelIntLvAddr &&& 1#32 = 0#32 then
      (channelAddrLong >>> 1) &&& 0xFFFFFFFFFFFFFFC0#64
    else if d.dctSelIntLvAddr = 1#32 then
      let temp := (channelAddrLong &&& 0xFC0#64).setWidth 32
      ((channelAddrLong &&& 0xFFFFFFFFFFFFE000#64) >>> 1) ||| temp.setWidth 64
    else
      let temp := (channelAddrLong &&& 0x1C0#64).setWidth 32
      ((channelAddrLong &&& 0xFFFFFFFFFFFFFC00#64) >>> 1) ||| temp.setWidth 64
  else channelAddrLong

/-- The locals of an iteration when it starts the chip-select search. -/
structure Located where
  /-- `SystemAddr` after the region swap. -/
  systemAddr : BitVec 64
  nodeID : Nat
  channel : Nat
  channelAddrLong : BitVec 64

/-- An iteration of the range loop up to the chip-select search; `none` is a `continue`. -/
def locate (dramRange : Nat) (systemAddr : BitVec 64) : Pci (Option Located) := do
  let f1Offset := 0x40 + (dramRange <<< 3)
  let dramBaseLow := (← getPCI bus0 device func1 f1Offset).setWidth 32
  if dramEn dramBaseLow then
    let intlvEn := intlvField dramBaseLow
    let base := dramBaseLong dramBaseLow (← getPCI bus0 device func1 (f1Offset + 0x100))
    let dramLimitLow := (← getPCI bus0 device func1 (f1Offset + 4)).setWidth 32
    let intlvSel := intlvField dramLimitLow
    let nodeID := (dramLimitLow &&& 0x00000007#32).toNat
    let limit := dramLimitLong dramLimitLow (← getPCI bus0 device func1 (f1Offset + 0x104))
    if inWindow base limit systemAddr then
      if intlvMatches intlvEn intlvSel systemAddr then
        let temp := (← getPCI bus0 (dev24 + nodeID) func2 0x10C).setWidth 32
        let systemAddr := swapRegion temp systemAddr
        let temp := (← getPCI bus0 (dev24 + nodeID) func2 0x110).setWidth 32
        let d := dctSel temp (← getPCI bus0 (dev24 + nodeID) func2 0x114)
        let hi := hiRangeSelected d systemAddr
        let channel := channelSelect d intlvEn systemAddr
        let hole := (← getPCI bus0 (dev24 + nodeID) func1 0xF0).setWidth 32
        let offset := channelOffsetLong d hole base systemAddr
        let channelAddrLong :=
          removeChannel d hi (removeNodeID (ilog intlvEn) (normalize systemAddr offset))
        pure (some { systemAddr, nodeID, channel, channelAddrLong })
      else pure none
    else pure none
  else pure none

/-! ## The chip-select search -/

/-- The chip-select test. -/
def csHit (csBase csMask inputAddr : BitVec 32) : Bool :=
  let csEn := csBase &&& 0x00000001#32 ≠ 0#32
  let csBase := csBase &&& 0x1FF83FE0#32
  let csMask := (csMask ||| 0x0007C01F#32) &&& 0x1FFFFFFF#32
  csEn && decide (inputAddr &&& ~~~csMask = csBase &&& ~~~csMask)

/-- `CS` after a hit: the spare rank when F3xB0 says the chip select was swapped. -/
def spareRank (channel cs : Nat) (onlineSpareCTL : BitVec 32) : Int :=
  if channel > 0 then
    let swapDone := (onlineSpareCTL >>> 3) &&& 0x00000001#32
    let badDramCs := (onlineSpareCTL >>> 8) &&& 0x00000007#32
    if swapDone ≠ 0#32 ∧ cs = badDramCs.toNat then ch1SpareRank else cs
  else
    let swapDone := (onlineSpareCTL >>> 1) &&& 0x00000001#32
    let badDramCs := (onlineSpareCTL >>> 4) &&& 0x00000007#32
    if swapDone ≠ 0#32 ∧ cs = badDramCs.toNat then ch0SpareRank else cs

def f2Offset (channel cs : Nat) : Nat := 0x40 + channel * 0x100 + (cs <<< 2)

def f2MaskOffset (channel cs : Nat) : Nat := 0x60 + channel * 0x100 + ((cs >>> 1) <<< 2)

/-- The search over the remaining chip selects: `CS` and `CSFound` after the loop. -/
def csLoop (nodeID channel : Nat) (inputAddr : BitVec 32) : List Nat → Pci (Int × Bool)
  | [] => pure (8, false)
  | cs :: rest => do
    let csBase := (← getPCI bus0 (dev24 + nodeID) func2 (f2Offset channel cs)).setWidth 32
    let csMask := (← getPCI bus0 (dev24 + nodeID) func2 (f2MaskOffset channel cs)).setWidth 32
    if csHit csBase csMask inputAddr then
      let onlineSpareCTL := (← getPCI bus0 (dev24 + nodeID) func3 0xB0).setWidth 32
      pure (spareRank channel cs onlineSpareCTL, true)
    else csLoop nodeID channel inputAddr rest

/-! ## The range loop -/

/-- The locals that one iteration of the range loop hands to the next. -/
structure Locals where
  systemAddr : BitVec 64
  nodeID : Int
  channel : Int
  cs : Int
  csFound : Bool
  deriving DecidableEq, Inhabited

/-- `InputAddr`: the channel address without its low byte, narrowed to a `uint32_t`. -/
def Located.inputAddr (l : Located) : BitVec 32 := (l.channelAddrLong >>> 8).setWidth 32

/-- Search the chip selects for a located address. -/
def chipSelect (l : Located) : Pci Locals := do
  let (cs, csFound) ← csLoop l.nodeID l.channel l.inputAddr (List.range 8)
  pure { systemAddr := l.systemAddr, nodeID := l.nodeID, channel := l.channel, cs, csFound }

/-- One iteration of the range loop. The source assigns `NodeID` before the two tests that end an
iteration early, here it is only known of a located address: the two differ in the node of a result
that says that nothing was found. -/
def dramRangeBody (dramRange : Nat) (s : Locals) : Pci Locals := do
  match ← locate dramRange s.systemAddr with
  | none => pure s
  | some l => chipSelect l

def rangeLoop : List Nat → Locals → Pci Locals
  | [], s => pure s
  | dramRange :: rest, s => do
    let s ← dramRangeBody dramRange s
    if s.csFound then pure s else rangeLoop rest s

structure Result where
  found : Bool
  node : Int
  channel : Int
  cs : Int
  deriving DecidableEq, Repr

/-- `TranslateSysAddrToCS`; `u` holds what is on the stack in the uninitialised `NodeID`,
`Channel` and `CS`. -/
def translateSysAddrToCS (u : Locals) (systemAddr : BitVec 64) : Pci Result := do
  let s ← rangeLoop (List.range 8) { u with systemAddr, csFound := false }
  pure { found := s.csFound, node := s.nodeID, channel := s.channel, cs := s.cs }

end Amd
