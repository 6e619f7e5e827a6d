import IoHacks.Amd.EccInfo
import IoHacks.Amd.Proof.Arith
import IoHacks.Amd.Proof.RangeLoop
import IoHacks.Lib.Script

/-!
# The ECC report and the address decoder

Both programs read the chip-select registers of node 0. `decoded_reported`: whatever the registers
hold, an address that the decoder maps to node 0 is mapped to a chip select that the report lists
for the controller of its channel, unless it says that this controller is disabled; and a channel
other than 0 is used only where the report says that the controllers are not ganged.
-/

namespace Amd.EccInfo

open Lib

/-! ## The report -/

section
variable (cfg : PciReg → BitVec 32)

/-- A request where every read succeeds. -/
def step (req : Req) (u : Unit) : BitVec 64 × Unit := (answer (.regs cfg) req, u)

/-- The texts that a part of the program prints. -/
def texts {α : Type} (p : Report α) : List String := (Query.run (step cfg) Req.stdout p ()).1.1

/-- The value that it returns. -/
def value {α : Type} (p : Report α) : α := (Query.run (step cfg) Req.stdout p ()).1.2

end

section
variable {cfg : PciReg → BitVec 32} {α β : Type}

@[simp] theorem texts_bind (p : Report α) (f : α → Report β) :
    texts cfg (p >>= f) = texts cfg p ++ texts cfg (f (value cfg p)) := by
  simp only [texts, value, Query.run_bind]

@[simp] theorem texts_pure (a : α) : texts cfg (pure a) = [] := rfl

@[simp] theorem texts_printf (text : String) : texts cfg (printf text) = [text] := by
  simp [texts, printf, Req.stdout]

@[simp] theorem texts_getPci (bus dev func reg : Nat) :
    texts cfg (getPci bus dev func reg) = [] := by
  simp [texts, getPci, Req.stdout]

@[simp] theorem value_getPci (bus dev func reg : Nat) :
    value cfg (getPci bus dev func reg) = cfg ⟨bus, dev, func, reg⟩ := by
  simp [value, getPci, step, answer, DevPci.answer]

/-- The base register of a chip select. -/
def csBase (cfg : PciReg → BitVec 32) (i c : Nat) : BitVec 32 :=
  cfg ⟨0, 24, 2, 0x40 + (if i ≠ 0 then 0x100 else 0) + c * 4⟩

/-- The chip selects of a controller that are present. -/
def csPresent (cfg : PciReg → BitVec 32) (i : Nat) (cs : List Nat) : List Nat :=
  cs.filter fun c => csBase cfg i c &&& 1#32 ≠ 0#32

theorem texts_csLoop (i : Nat) (cs : List Nat) :
    texts cfg (csLoop i cs) = (csPresent cfg i cs).map fun c => " " ++ d c := by
  have hread : ∀ c, texts cfg (getCsCfg i c) = [] ∧ value cfg (getCsCfg i c) = csBase cfg i c :=
    fun c => ⟨texts_getPci .., value_getPci ..⟩
  induction cs with
  | nil => rfl
  | cons c cs ih =>
    obtain ⟨htexts, hvalue⟩ := hread c
    rw [csLoop, texts_bind, htexts, hvalue, List.nil_append]
    by_cases hcs : csBase cfg i c &&& 1#32 ≠ 0#32
    · have hcons : csPresent cfg i (c :: cs) = c :: csPresent cfg i cs :=
        List.filter_cons_of_pos (by simpa using hcs)
      rw [if_pos hcs, texts_bind, texts_printf, ih, hcons]
      rfl
    · have hcons : csPresent cfg i (c :: cs) = csPresent cfg i cs :=
        List.filter_cons_of_neg (by simpa using hcs)
      rw [if_neg hcs, ih, hcons]

/-- The part of the report about a controller that is enabled. -/
def dctTexts (i : Nat) (settings : List String) (cs : List Nat) : List String :=
  ("DCT" ++ d i ++ ": enabled\n") ::
    (settings ++ "CS present:" :: (cs.map (fun c => " " ++ d c) ++ ["\n"]))

/-- What the report says about a controller. -/
theorem texts_printDct (cfg : PciReg → BitVec 32) (i : Nat) :
    texts cfg (printDct i) = ["DCT" ++ d i ++ ": disabled\n"] ∨
      texts cfg (printDct i) =
        dctTexts i (texts cfg (printSettings i)) (csPresent cfg i (List.range 8)) := by
  have hread : texts cfg (getDctXCfg i 1) = [] := texts_getPci ..
  have habled : ∀ enabled, "DCT" ++ d i ++ ": " ++ abled enabled =
      "DCT" ++ d i ++ (if enabled then ": enabled\n" else ": disabled\n") := fun enabled => by
    rw [String.append_assoc]
    cases enabled <;> rfl
  unfold printDct
  rw [texts_bind, hread, List.nil_append, texts_bind, texts_printf, habled]
  cases hbit : bit (value cfg (getDctXCfg i 1)) 14 with
  | true =>
    refine .inl ?_
    rw [if_pos rfl, texts_pure, Bool.not_true, if_neg Bool.false_ne_true, List.append_nil,
      String.append_assoc]
  | false =>
    refine .inr ?_
    rw [if_neg Bool.false_ne_true, texts_bind, texts_bind, texts_bind, texts_printf, texts_csLoop,
      texts_printf, Bool.not_false, if_pos rfl]
    simp only [dctTexts, List.cons_append, List.nil_append]

/-- The parts of the report about the controllers. -/
theorem texts_main (humanizeNumber : Nat → String) (cfg : PciReg → BitVec 32) :
    ∃ pre mid, texts cfg (main humanizeNumber) =
      pre ++ ("Ganged mode enabled: " ++ yesNo (bit (cfg ⟨0, 24, 2, 0x110⟩) 4)) :: mid ++
        (texts cfg (printDct 0) ++ texts cfg (printDct 1)) := by
  have hread : texts cfg getDctCfg = [] ∧ value cfg getDctCfg = cfg ⟨0, 24, 2, 0x110⟩ :=
    ⟨texts_getPci .., value_getPci ..⟩
  refine ⟨texts cfg printNbCap ++ texts cfg (printNbMcaCfg humanizeNumber) ++
      texts cfg (if bit (cfg ⟨0, 24, 2, 0x110⟩) 10 then printf "Memory cleared since reboot\n"
        else pure ()),
    ["Data interleave (128-bit ECC word is formed from two " ++ "consecutive 64-bit lines): " ++
        yesNo (bit (cfg ⟨0, 24, 2, 0x110⟩) 5),
      "Controller interleave enabled: " ++ yesNo (bit (cfg ⟨0, 24, 2, 0x110⟩) 2)], ?_⟩
  unfold main printDctCfg
  simp only [texts_bind, texts_pure, texts_printf, hread, List.nil_append, List.append_nil,
    List.append_assoc, List.cons_append]

/-! ## The decoder -/

theorem addrBit_le (a : BitVec 64) (i : Nat) : addrBit a i ≤ 1 := by
  rw [addrBit_eq, field]
  omega

theorem xor_le {m n : Nat} (hm : m ≤ 1) (hn : n ≤ 1) : m ^^^ n ≤ 1 :=
  Nat.le_of_lt_succ (Nat.xor_lt_two_pow (n := 1) (by omega) (by omega))

theorem and_one_le (v : BitVec 32) : (v &&& 1#32).toNat ≤ 1 := by
  rw [BitVec.toNat_and]
  exact Nat.and_le_right

theorem channelSelect_le {s : DctSel} (hs : s.dctSelHi.toNat ≤ 1) (intlvEn : BitVec 32)
    (a : BitVec 64) : channelSelect s intlvEn a ≤ 1 := by
  have hxor : ∀ i, addrBit a i ^^^ fUnaryXOR (((a >>> 16) &&& 0x1F#64).setWidth 32) ≤ 1 :=
    fun i => xor_le (addrBit_le a i) (Nat.le_of_lt_succ (fUnaryXOR_lt _))
  unfold channelSelect
  split
  · exact Nat.zero_le 1
  split
  · exact hs
  split
  · exact addrBit_le a 6
  split
  · -- the hash
    dsimp only
    split
    · exact hxor 9
    · exact hxor 6
  split
  · exact addrBit_le a 15
  split
  · exact addrBit_le a 14
  split
  · exact addrBit_le a 13
  split
  · exact addrBit_le a 12
  split
  · exact and_one_le _
  · exact Nat.zero_le 1

theorem channel_le (cfg : PciReg → BitVec 32) (r : Nat) (a : BitVec 64) :
    (locatedAt cfg r a).channel ≤ 1 :=
  channelSelect_le (and_one_le _) _ _

/-- Ganged controllers are one channel. -/
theorem unganged {cfg : PciReg → BitVec 32} {r : Nat} {a : BitVec 64}
    (h : (locatedAt cfg r a).channel ≠ 0) : (nodeDct cfg (rangeNode cfg r)).dctGangEn = false := by
  refine Bool.eq_false_iff.2 fun hgang => h ?_
  show channelSelect _ _ _ = 0
  rw [channelSelect, if_pos hgang]

/-- A run that finds something found it in a matching range. -/
theorem rangeRun_found (rs : List Nat) {s : Locals} (hs : s.csFound = false)
    (h : (rangeRun cfg rs s).csFound = true) :
    ∃ r a, rangeRun cfg rs s = searched cfg (locatedAt cfg r a) ∧
      (searched cfg (locatedAt cfg r a)).csFound = true := by
  induction rs generalizing s with
  | nil =>
    rw [rangeRun, hs] at h
    cases h
  | cons r rs ih =>
    unfold rangeRun at h ⊢
    by_cases hstep : (rangeStep cfg r s).csFound = true
    · simp only [hstep, if_true] at h ⊢
      unfold rangeStep at hstep ⊢
      split at hstep
      · rename_i hmatch
        rw [if_pos hmatch]
        exact ⟨r, s.systemAddr, rfl, hstep⟩
      · rw [hs] at hstep
        cases hstep
    · rw [Bool.not_eq_true] at hstep
      simp only [hstep, Bool.false_eq_true, if_false] at h ⊢
      exact ih hstep h

theorem searched_channel (l : Located) : (searched cfg l).channel = l.channel := by
  unfold searched
  cases csSearch cfg l <;> rfl

/-- What the report `out` says about the controller and the chip select of an address: the list
follows the header and the settings of that controller. -/
structure Reported (cfg : PciReg → BitVec 32) (out : List String) (dct cs : Nat) : Prop where
  unganged : dct ≠ 0 → "Ganged mode enabled: no\n" ∈ out
  listed : "DCT" ++ d dct ++ ": disabled\n" ∈ out ∨
    ∃ present, cs ∈ present ∧ dctTexts dct (texts cfg (printSettings dct)) present <:+: out

/-- The base register that the decoder reads for a chip select is the one of the report. -/
theorem csBase_eq (cfg : PciReg → BitVec 32) {channel : Nat} (h : channel ≤ 1) (c : Nat) :
    nodeCSBase cfg 0 channel c = csBase cfg channel c := by
  have hoff : f2Offset channel c = 0x40 + (if channel ≠ 0 then 0x100 else 0) + c * 4 := by
    rw [f2Offset, Nat.shiftLeft_eq]
    obtain rfl | rfl : channel = 0 ∨ channel = 1 := by omega
    · rfl
    · rfl
  rw [nodeCSBase, hoff]
  rfl

/-- A chip select that hits is present. -/
theorem mem_csPresent {cfg : PciReg → BitVec 32} {l : Located} {c : Nat} (hnode : l.nodeID = 0)
    (hchannel : l.channel ≤ 1) (hc : c < 8) (hit : csHits cfg l c = true) :
    c ∈ csPresent cfg l.channel (List.range 8) := by
  rw [csHits, hnode, csBase_eq cfg hchannel, csHit_iff, ← flag_iff] at hit
  exact List.mem_filter.2 ⟨List.mem_range.2 hc, decide_eq_true hit.1⟩

/-- The report on the controllers: whether they are ganged, and each of the two. -/
theorem reported (humanizeNumber : Nat → String) {dct c : Nat} (hdct : dct ≤ 1)
    (hgang : dct ≠ 0 → (nodeDct cfg 0).dctGangEn = false)
    (hc : c ∈ csPresent cfg dct (List.range 8)) :
    Reported cfg (texts cfg (main humanizeNumber)) dct c := by
  obtain ⟨pre, mid, hmain⟩ := texts_main humanizeNumber cfg
  have hpart : texts cfg (printDct dct) <:+: texts cfg (main humanizeNumber) := by
    rw [hmain]
    obtain rfl | rfl : dct = 0 ∨ dct = 1 := by omega
    · exact ⟨_, _, by rw [List.append_assoc]⟩
    · exact ⟨_, [], by rw [List.append_nil, List.append_assoc]⟩
  refine ⟨fun h => ?_, ?_⟩
  · have hno : bit (cfg ⟨0, 24, 2, 0x110⟩) 4 = false := hgang h
    rw [hmain, hno]
    exact List.mem_append_left _ (List.mem_append_right _ (List.mem_cons_self ..))
  · rcases texts_printDct cfg dct with hdisabled | hlisted
    · refine .inl (hpart.subset ?_)
      rw [hdisabled]
      exact List.mem_cons_self ..
    · refine .inr ⟨_, hc, ?_⟩
      rw [← hlisted]
      exact hpart

/-- **The report lists what the decoder finds**: an address that is mapped to node 0 is mapped to a
channel and a chip select that the report has. `cs` is the chip select of the result, or that whose
spare rank is the result. -/
theorem decoded_reported (humanizeNumber : Nat → String) (cfg : PciReg → BitVec 32) (u : Locals)
    (a : BitVec 64) (hfound : (decode cfg u a).found = true) (hnode : (decode cfg u a).node = 0) :
    ∃ dct cs : Nat, (decode cfg u a).channel = dct ∧ dct ≤ 1 ∧ cs < 8 ∧
      (decode cfg u a).cs = spareRank dct cs (nodeSpare cfg 0) ∧
      Reported cfg (texts cfg (main humanizeNumber)) dct cs := by
  rw [decode_eq] at hfound hnode ⊢
  obtain ⟨r, b, hrun, hf⟩ := rangeRun_found (List.range 8) rfl hfound
  rw [hrun] at hnode ⊢
  obtain ⟨c, hc, hit, -, hcs⟩ := searched_cs hf
  have hnode : rangeNode cfg r = 0 := by
    rw [Locals.result, searched_nodeID] at hnode
    exact Int.ofNat_inj.1 hnode
  have hchannel := channel_le cfg r b
  refine ⟨(locatedAt cfg r b).channel, c, searched_channel _, hchannel, hc, ?_, ?_⟩
  · rw [← hnode]
    exact hcs
  · refine reported humanizeNumber hchannel (fun h => ?_) (mem_csPresent hnode hchannel hc hit)
    rw [← hnode]
    exact unganged h

theorem decoded_reported_oneRank :
    (decode oneRank default 0#64).found = true ∧ (decode oneRank default 0#64).node = 0 ∧
      ∃ dct cs : Nat, (decode oneRank default 0#64).channel = dct ∧ dct ≤ 1 ∧ cs < 8 ∧
        (decode oneRank default 0#64).cs = spareRank dct cs (nodeSpare oneRank 0) ∧
        Reported oneRank (texts oneRank (main d)) dct cs := by
  have hfound : (decode oneRank default 0#64).found = true := by decide
  have hnode : (decode oneRank default 0#64).node = 0 := by decide
  exact ⟨hfound, hnode, decoded_reported d oneRank default 0#64 hfound hnode⟩

end

end Amd.EccInfo
