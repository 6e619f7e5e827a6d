import IoHacks.Amd.Main
import IoHacks.Amd.Proof.Channel

/-!
# A missing `/dev/pci` maps nothing

When `/dev/pci` cannot be opened every read gives -1, and nothing checks for it. The decoder only
looks at the low 32 bits of an answer (`eval_narrow`), so it runs as on registers that are all
ones: every range is the top 16 MiB below `2 ^ 48`, all interleaving is on and every chip select is
enabled. `missing_unmapped`: the channel address of every address there ends in ones where every
chip select has zeros that it compares, so nothing is found.
-/

namespace Amd

open Lib

/-! ## The low half of an answer -/

/-- The register contents that a device seems to have. -/
def narrowed (env : PciReg → BitVec 64) (r : PciReg) : BitVec 32 := (env r).setWidth 32

section
variable (env : PciReg → BitVec 64)

/-- The two evaluations of a read that are compared. They are no `rfl` lemmas: `simp` rewrites
under the conditions of a program with them. -/
theorem eval_getPCI_env (bus dev func reg : Nat) :
    (getPCI bus dev func reg).eval env = env ⟨bus, dev, func, reg⟩ := by
  rw [getPCI, Query.request, Query.eval, Query.eval]

theorem answer_narrowed (r : PciReg) :
    (DevPci.regs (narrowed env)).answer r = ((env r).setWidth 32).setWidth 64 := by
  rw [DevPci.answer, narrowed]

theorem dramBaseLong_narrow (low : BitVec 32) (high : BitVec 64) :
    dramBaseLong low ((high.setWidth 32).setWidth 64) = dramBaseLong low high := by
  apply BitVec.eq_of_toNat_eq
  rw [dramBaseLong_toNat, dramBaseLong_toNat, BitVec.toNat_setWidth, BitVec.toNat_setWidth]
  omega

theorem dramLimitLong_narrow (low : BitVec 32) (high : BitVec 64) :
    dramLimitLong low ((high.setWidth 32).setWidth 64) = dramLimitLong low high := by
  have h := dramLimitLong_toNat low high
  have h' := dramLimitLong_toNat low ((high.setWidth 32).setWidth 64)
  rw [BitVec.toNat_setWidth, BitVec.toNat_setWidth] at h'
  apply BitVec.eq_of_toNat_eq
  omega

theorem dctSel_narrow (temp : BitVec 32) (offset : BitVec 64) :
    dctSel temp ((offset.setWidth 32).setWidth 64) = dctSel temp offset := by
  have hm : (offset.setWidth 32).setWidth 64 &&& 0xFFFFFC00#64 = offset &&& 0xFFFFFC00#64 := by
    have h : ∀ x : BitVec 64, (x &&& 0xFFFFFC00#64).toNat = x.toNat % 2 ^ 32 / 2 ^ 10 * 2 ^ 10 :=
      fun x => toNat_and_mask x (by omega) (by rfl)
    apply BitVec.eq_of_toNat_eq
    rw [h, h, BitVec.toNat_setWidth, BitVec.toNat_setWidth]
    omega
  rw [dctSel, dctSel, hm]

theorem locate_narrow (r : Nat) (a : BitVec 64) :
    (locate r a).eval env = (locate r a).eval (DevPci.regs (narrowed env)).answer := by
  simp only [locate, Query.eval_bind, Query.eval_ite, Query.eval_pure, eval_getPCI_env,
    answer_narrowed, setWidth_setWidth, dramBaseLong_narrow, dramLimitLong_narrow, dctSel_narrow]

theorem csLoop_narrow (node channel : Nat) (inputAddr : BitVec 32) (css : List Nat) :
    (csLoop node channel inputAddr css).eval env =
      (csLoop node channel inputAddr css).eval (DevPci.regs (narrowed env)).answer := by
  induction css with
  | nil => rfl
  | cons c css ih =>
    simp only [csLoop, Query.eval_bind, Query.eval_ite, Query.eval_pure, eval_getPCI_env,
      answer_narrowed, setWidth_setWidth, ih]

theorem dramRangeBody_narrow (r : Nat) (s : Locals) :
    (dramRangeBody r s).eval env =
      (dramRangeBody r s).eval (DevPci.regs (narrowed env)).answer := by
  simp only [dramRangeBody, Query.eval_bind, locate_narrow env]
  cases (locate r s.systemAddr).eval (DevPci.regs (narrowed env)).answer with
  | none => rfl
  | some l => simp only [chipSelect, Query.eval_bind, Query.eval_pure, csLoop_narrow env]

theorem rangeLoop_narrow (rs : List Nat) (s : Locals) :
    (rangeLoop rs s).eval env = (rangeLoop rs s).eval (DevPci.regs (narrowed env)).answer := by
  induction rs generalizing s with
  | nil => rfl
  | cons r rs ih =>
    simp only [rangeLoop, Query.eval_bind, Query.eval_ite, Query.eval_pure,
      dramRangeBody_narrow env, ih]

/-- **The decoder only looks at the low 32 bits** of what `Get_PCI` returns. -/
theorem eval_narrow (u : Locals) (a : BitVec 64) :
    (translateSysAddrToCS u a).eval env = decode (narrowed env) u a := by
  simp only [decode, translateSysAddrToCS, Query.eval_bind, Query.eval_pure, rangeLoop_narrow env]

end

/-! ## Registers of all ones -/

/-- What the error value -1 is taken for. -/
def allOnesRegs : PciReg → BitVec 32 := narrowed DevPci.missing.answer

theorem allOnesRegs_eq (r : PciReg) : allOnesRegs r = 0xFFFFFFFF#32 := by
  rw [allOnesRegs, narrowed, DevPci.answer]
  decide

/-- Every range is the window from `0xFFFFFF000000` on. -/
theorem allOnes_window {r : Nat} {a : BitVec 64} (hm : rangeMatches allOnesRegs r a = true) :
    0xFFFFFF000000 ≤ a.toNat ∧ a.toNat < 2 ^ 48 := by
  have hb : rangeBase allOnesRegs r = 0xFFFFFF000000#64 := by
    rw [rangeBase, rangeBaseLow, allOnesRegs_eq, allOnesRegs_eq]
    decide
  have hl : rangeLimit allOnesRegs r = 0xFFFFFFFFFFFF#64 := by
    rw [rangeLimit, rangeLimitLow, allOnesRegs_eq, allOnesRegs_eq]
    decide
  obtain ⟨hbase, hlimit⟩ := rangeMatches_window hm
  rw [hb] at hbase
  rw [hl] at hlimit
  exact ⟨hbase, Nat.lt_succ_of_le hlimit⟩

/-- The window is above the region that can be swapped. -/
theorem swapRegion_high (temp : BitVec 32) {a : BitVec 64} (ha : 2 ^ 34 ≤ a.toNat) :
    swapRegion temp a = a := by
  have h34 : a >>> 34 ≠ 0#64 := by
    intro hz
    have hn := congrArg BitVec.toNat hz
    rw [BitVec.toNat_ushiftRight, Nat.shiftRight_eq_div_pow, BitVec.toNat_ofNat] at hn
    omega
  unfold swapRegion
  simp only [h34, false_and, ↓reduceIte, ite_self]

/-- The channel address: the controllers are ganged, so only the node's three bits are removed. -/
theorem allOnes_channelAddr {r : Nat} {a : BitVec 64} (ha : 2 ^ 34 ≤ a.toNat) :
    (locatedAt allOnesRegs r a).channelAddrLong =
      removeNodeID 3 (normalize a (channelOffsetLong (nodeDct allOnesRegs 7)
        (nodeHole allOnesRegs 7) (rangeBase allOnesRegs r) a)) := by
  have hnode : rangeNode allOnesRegs r = 7 := by
    rw [rangeNode, rangeLimitLow, allOnesRegs_eq]
    rfl
  have hlog : ilog (rangeIntlvEn allOnesRegs r) = 3 := by
    rw [rangeIntlvEn, rangeBaseLow, allOnesRegs_eq]
    rfl
  have hgang : (nodeDct allOnesRegs 7).dctGangEn = true := rfl
  simp only [locatedAt, hnode, hlog, swapRegion_high _ ha, removeChannel, hgang, Bool.true_eq_false,
    and_false, ↓reduceIte]

/-- The three bits that every chip select compares are ones. -/
theorem allOnes_inputAddr {r : Nat} {a : BitVec 64} (hm : rangeMatches allOnesRegs r a = true) :
    2 ^ 31 + 2 ^ 30 + 2 ^ 29 ≤ (locatedAt allOnesRegs r a).inputAddr.toNat := by
  obtain ⟨hlo, hhi⟩ := allOnes_window hm
  have hsel : hiRangeSelected (nodeDct allOnesRegs 7) a = false := rfl
  have hoff : (channelOffsetLong (nodeDct allOnesRegs 7) (nodeHole allOnesRegs 7)
      (rangeBase allOnesRegs r) a).toNat = 0xFF800000 :=
    channelOffsetLong_hole hsel (by decide) (by omega)
  rw [Located.inputAddr, BitVec.toNat_setWidth, BitVec.toNat_ushiftRight,
    Nat.shiftRight_eq_div_pow, allOnes_channelAddr (by omega)]
  generalize channelOffsetLong (nodeDct allOnesRegs 7) (nodeHole allOnesRegs 7)
    (rangeBase allOnesRegs r) a = off at hoff ⊢
  have hn := @normalize_toNat a off hhi (by omega) (by omega) (by omega)
  rw [removeNodeID_toNat 3 (by omega) (by omega), hn, squeeze]
  generalize hq : ((a.toNat / 64 * 64 - off.toNat) / 2 ^ (12 + 3) * 2 ^ 12 +
    (a.toNat / 64 * 64 - off.toNat) % 2 ^ 12) / 2 ^ 8 = q
  have hlow : 0x1FFFDFF000 ≤ q := by omega
  have hhigh : q < 0x1FFFE01000 := by omega
  omega

/-- No chip select compares the three bits as ones. -/
theorem allOnes_csHit {inputAddr : BitVec 32} (h : 2 ^ 29 ≤ inputAddr.toNat) :
    csHit 0xFFFFFFFF#32 0xFFFFFFFF#32 inputAddr = false := by
  have hm : (inputAddr &&& 0xE0000000#32).toNat = inputAddr.toNat % 2 ^ 32 / 2 ^ 29 * 2 ^ 29 :=
    toNat_and_mask inputAddr (by omega) (by rfl)
  have hne : inputAddr &&& 0xE0000000#32 ≠ 0#32 := by
    intro hz
    rw [hz, BitVec.toNat_ofNat] at hm
    have := inputAddr.isLt
    omega
  have hmask : ~~~((0xFFFFFFFF#32 ||| 0x0007C01F#32) &&& 0x1FFFFFFF#32) = 0xE0000000#32 := by
    decide
  have hbase : 0xFFFFFFFF#32 &&& 0x1FF83FE0#32 &&& 0xE0000000#32 = 0#32 := by decide
  simp only [csHit, hmask, hbase, hne, decide_false, Bool.and_false]

/-! ## The run -/

theorem allOnes_csSearch {r : Nat} {a : BitVec 64} (hm : rangeMatches allOnesRegs r a = true) :
    csSearch allOnesRegs (locatedAt allOnesRegs r a) = none := by
  have hi := allOnes_inputAddr hm
  refine List.find?_eq_none.2 fun c _ => ?_
  rw [csHits, nodeCSBase, nodeCSMask, allOnesRegs_eq, allOnesRegs_eq, allOnes_csHit (by omega)]
  exact Bool.false_ne_true

theorem allOnes_step (r : Nat) {s : Locals} (h : s.csFound = false) :
    (rangeStep allOnesRegs r s).csFound = false := by
  rw [rangeStep]
  split
  · rename_i hm
    rw [searched, allOnes_csSearch hm]
  · exact h

theorem allOnes_run (rs : List Nat) {s : Locals} (h : s.csFound = false) :
    (rangeRun allOnesRegs rs s).csFound = false := by
  induction rs generalizing s with
  | nil => exact h
  | cons r rs ih =>
    have hstep := allOnes_step r h
    simp only [rangeRun, hstep, Bool.false_eq_true, ↓reduceIte]
    exact ih hstep

theorem missing_notFound (u : Locals) (a : BitVec 64) :
    ((translateSysAddrToCS u a).eval DevPci.missing.answer).found = false := by
  rw [eval_narrow, decode_eq]
  exact allOnes_run (List.range 8) rfl

/-- **A missing `/dev/pci` never produces a mapping**: no address is found, and the program says so
and exits with status 1 whatever its arguments are. -/
theorem missing_unmapped :
    (∀ u a, ((translateSysAddrToCS u a).eval DevPci.missing.answer).found = false) ∧
    ∀ u prog args, ((main u prog args).eval DevPci.missing.answer).status = 1 ∧
      ((main u prog args).eval DevPci.missing.answer).stdout =
        match args with
        | [] => ""
        | arg :: _ =>
          "could not map address 0x" ++ lx (BitVec.ofNat 64 (strtoull arg).value) ++ "\n" := by
  refine ⟨missing_notFound, fun u prog args => ?_⟩
  cases args with
  | nil => exact ⟨rfl, rfl⟩
  | cons arg rest =>
    have hnf := missing_notFound u (BitVec.ofNat 64 (strtoull arg).value)
    simp only [main, Query.eval_bind, hnf, Bool.not_false, ↓reduceIte, Query.eval_pure, and_self]

end Amd
