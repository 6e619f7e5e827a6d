import IoHacks.Amd.Proof.ChipSelect

/-!
# The loop over the DRAM ranges

The reference for `TranslateSysAddrToCS` looks at every range on its own: range `r` decodes an
address when it is enabled, its window holds the address, the interleave test passes and its body
hits a chip select (`Decodes`). The loop agrees with the reference as long as every iteration
starts from the original address. An iteration that matches, swaps and finds no chip select leaves
the swapped address to the next one, so the loop agrees (`Agrees`) exactly when no such iteration
changes the address (`agrees_iff`).
-/

namespace Amd

/-! ## The reference -/

/-- Range `r` decodes the address. -/
def Decodes (cfg : PciReg → BitVec 32) (r : Nat) (systemAddr : BitVec 64) : Prop :=
  rangeEn cfg r = true ∧ rangeBase cfg r ≤ systemAddr ∧ systemAddr ≤ rangeLimit cfg r ∧
    (rangeIntlvEn cfg r = 0#32 ∨
      (rangeIntlvSel cfg r).setWidth 64 =
        (systemAddr >>> 12) &&& (rangeIntlvEn cfg r).setWidth 64) ∧
    ∃ c < 8, csHits cfg (locatedAt cfg r systemAddr) c = true

instance (cfg : PciReg → BitVec 32) (r : Nat) (systemAddr : BitVec 64) :
    Decidable (Decodes cfg r systemAddr) := inferInstanceAs (Decidable (_ ∧ _ ∧ _ ∧ _ ∧ _))

/-- The locals before the iteration for range `n`, if the loop gets there. -/
def before (cfg : PciReg → BitVec 32) (u : Locals) (systemAddr : BitVec 64) (n : Nat) : Locals :=
  rangeRun cfg (List.range n) (u.start systemAddr)

/-- The decoder agrees with the reference: it finds what some range decodes, it reports what the
body of the least such range yields, no iteration depends on an earlier one that found nothing,
and a reported node is that of an enabled range whose window holds the address. -/
structure Agrees (cfg : PciReg → BitVec 32) (u : Locals) (systemAddr : BitVec 64) : Prop where
  found_iff : (decode cfg u systemAddr).found = true ↔ ∃ r < 8, Decodes cfg r systemAddr
  least : ∀ r < 8, Decodes cfg r systemAddr → (∀ r' < r, ¬Decodes cfg r' systemAddr) →
    decode cfg u systemAddr = (rangeStep cfg r (u.start systemAddr)).result
  noInfluence : ∀ n < 8, (before cfg u systemAddr n).csFound = false →
    (before cfg u systemAddr n).systemAddr = systemAddr
  node_eq : (decode cfg u systemAddr).found = true →
    ∃ r < 8, rangeEn cfg r = true ∧ rangeBase cfg r ≤ systemAddr ∧
      systemAddr ≤ rangeLimit cfg r ∧ (decode cfg u systemAddr).node = rangeNode cfg r

/-- Range `r` keeps the address if the loop passes it: when it matches the address, and no range
up to it decodes the address, its node's region swap leaves the address alone. -/
def KeepsAddress (cfg : PciReg → BitVec 32) (systemAddr : BitVec 64) (r : Nat) : Prop :=
  (∀ r' ≤ r, ¬Decodes cfg r' systemAddr) → rangeMatches cfg r systemAddr = true →
    swapRegion (nodeSwap cfg (rangeNode cfg r)) systemAddr = systemAddr

/-- No range but the last, after which there is no other, changes the address in passing. -/
def NoPassedSwap (cfg : PciReg → BitVec 32) (systemAddr : BitVec 64) : Prop :=
  ∀ r < 7, KeepsAddress cfg systemAddr r

/-! ## One iteration -/

section
variable {cfg : PciReg → BitVec 32} {r : Nat} {a : BitVec 64} {s : Locals}

theorem rangeMatches_iff_tests : rangeMatches cfg r a = true ↔
    rangeEn cfg r = true ∧ rangeBase cfg r ≤ a ∧ a ≤ rangeLimit cfg r ∧
      (rangeIntlvEn cfg r = 0#32 ∨
        (rangeIntlvSel cfg r).setWidth 64 = (a >>> 12) &&& (rangeIntlvEn cfg r).setWidth 64) := by
  simp only [rangeMatches, inWindow, intlvMatches, Bool.and_eq_true, Bool.not_eq_true',
    Bool.or_eq_false_iff, Bool.and_eq_false_iff, decide_eq_false_iff_not, BitVec.not_lt, ne_eq,
    not_not, and_assoc]

theorem decodes_iff : Decodes cfg r a ↔
    rangeMatches cfg r a = true ∧ (searched cfg (locatedAt cfg r a)).csFound = true := by
  rw [rangeMatches_iff_tests, searched_found_iff]
  simp only [Decodes, and_assoc]

/-- **What an iteration does**: a range that does not match leaves the locals alone, a range that
decodes the address ends the loop, and a range that matches without decoding it leaves the swapped
address. -/
theorem rangeStep_cases (cfg : PciReg → BitVec 32) (r : Nat) (s : Locals) :
    (rangeMatches cfg r s.systemAddr = false ∧ ¬Decodes cfg r s.systemAddr ∧
      rangeStep cfg r s = s) ∨
    (Decodes cfg r s.systemAddr ∧ (rangeStep cfg r s).csFound = true ∧
      rangeStep cfg r s = searched cfg (locatedAt cfg r s.systemAddr)) ∨
    (rangeMatches cfg r s.systemAddr = true ∧ ¬Decodes cfg r s.systemAddr ∧
      (rangeStep cfg r s).csFound = false ∧
      (rangeStep cfg r s).systemAddr =
        swapRegion (nodeSwap cfg (rangeNode cfg r)) s.systemAddr) := by
  unfold rangeStep
  simp only [decodes_iff]
  cases hm : rangeMatches cfg r s.systemAddr with
  | false => exact .inl ⟨rfl, by simp, rfl⟩
  | true =>
    refine .inr ?_
    simp only [↓reduceIte, true_and]
    cases hf : (searched cfg (locatedAt cfg r s.systemAddr)).csFound with
    | true => exact .inl ⟨rfl, rfl, trivial⟩
    | false =>
      refine .inr ⟨by simp, rfl, ?_⟩
      unfold searched
      cases csSearch cfg (locatedAt cfg r s.systemAddr) <;> rfl

end

/-! ## The run -/

theorem rangeRun_concat (cfg : PciReg → BitVec 32) (rs : List Nat) (r : Nat) {s : Locals}
    (hs : s.csFound = false) :
    rangeRun cfg (rs ++ [r]) s =
      if (rangeRun cfg rs s).csFound then rangeRun cfg rs s
      else rangeStep cfg r (rangeRun cfg rs s) := by
  induction rs generalizing s with
  | nil => simp [rangeRun, hs]
  | cons r' rs ih =>
    simp only [List.cons_append, rangeRun]
    by_cases hf : (rangeStep cfg r' s).csFound = true
    · simp only [if_pos hf]
    · simp only [if_neg hf]
      exact ih (Bool.eq_false_iff.2 hf)

section
variable {cfg : PciReg → BitVec 32} {u : Locals} {a : BitVec 64}

theorem before_succ (n : Nat) : before cfg u a (n + 1) =
    if (before cfg u a n).csFound then before cfg u a n
    else rangeStep cfg n (before cfg u a n) := by
  unfold before
  rw [List.range_succ]
  exact rangeRun_concat cfg _ n rfl

/-- What holds before iteration `n` when no passed swap changed the address: the loop is still
searching from the original address, or it ended with the least range that decodes it. -/
def LoopInv (cfg : PciReg → BitVec 32) (u : Locals) (a : BitVec 64) (n : Nat) : Prop :=
  ((before cfg u a n).csFound = false ∧ (∀ r < n, ¬Decodes cfg r a) ∧
    (n < 8 → (before cfg u a n).systemAddr = a)) ∨
  ((before cfg u a n).csFound = true ∧ ∃ r < n, Decodes cfg r a ∧
    (∀ r' < r, ¬Decodes cfg r' a) ∧ before cfg u a n = searched cfg (locatedAt cfg r a))

theorem loopInv_succ {n : Nat} (hn : n < 8) (h : n < 7 → KeepsAddress cfg a n)
    (hi : LoopInv cfg u a n) : LoopInv cfg u a (n + 1) := by
  unfold LoopInv
  rw [before_succ]
  rcases hi with ⟨hf, hnone, haddr⟩ | ⟨hf, r, hr, hdec, hleast, heq⟩
  · rw [hf]
    simp only [Bool.false_eq_true, ↓reduceIte]
    have hstep := rangeStep_cases cfg n (before cfg u a n)
    rw [haddr hn] at hstep
    have hupto : ¬Decodes cfg n a → ∀ r < n + 1, ¬Decodes cfg r a := fun hnd r hr => by
      rcases Nat.lt_succ_iff_lt_or_eq.1 hr with hlt | rfl
      · exact hnone r hlt
      · exact hnd
    rcases hstep with ⟨-, hnd, heq⟩ | ⟨hdec, hfound, heq⟩ | ⟨hm, hnd, hfalse, hswap⟩
    · rw [heq]
      exact .inl ⟨hf, hupto hnd, fun _ => haddr hn⟩
    · exact .inr ⟨hfound, n, Nat.lt_succ_self n, hdec, hnone, heq⟩
    · refine .inl ⟨hfalse, hupto hnd, fun h8 => hswap.trans ?_⟩
      exact h (by omega) (fun r hr => hupto hnd r (Nat.lt_succ_of_le hr)) hm
  · rw [if_pos hf]
    exact .inr ⟨hf, r, Nat.lt_succ_of_lt hr, hdec, hleast, heq⟩

/-- **The run lemma**: as long as the ranges before it keep the address, the invariant holds
before an iteration. -/
theorem loopInv {n : Nat} (hn : n ≤ 8) (h : ∀ r < n, r < 7 → KeepsAddress cfg a r) :
    LoopInv cfg u a n := by
  induction n with
  | zero => exact .inl ⟨rfl, fun r hr => absurd hr (Nat.not_lt_zero r), fun _ => rfl⟩
  | succ n ih =>
    exact loopInv_succ (by omega) (h n (Nat.lt_succ_self n))
      (ih (by omega) fun r hr => h r (Nat.lt_succ_of_lt hr))

theorem searched_nodeID (l : Located) : (searched cfg l).nodeID = l.nodeID := by
  unfold searched
  cases csSearch cfg l <;> rfl

theorem decode_before : decode cfg u a = (before cfg u a 8).result := decode_eq cfg u a

theorem agrees_of_noPassedSwap (h : NoPassedSwap cfg a) : Agrees cfg u a := by
  have hmatch : ∀ r, Decodes cfg r a →
      (rangeStep cfg r (u.start a)).result = (searched cfg (locatedAt cfg r a)).result :=
    fun r hdec => by
      rw [rangeStep, if_pos (show rangeMatches cfg r (u.start a).systemAddr = true from
        (decodes_iff.1 hdec).1)]
      rfl
  have hstart : ∀ n < 8, (before cfg u a n).csFound = false →
      (before cfg u a n).systemAddr = a := by
    intro n hn hf
    rcases loopInv (u := u) (Nat.le_of_lt hn) (fun r _ => h r) with ⟨-, -, haddr⟩ | ⟨hfound, -⟩
    · exact haddr hn
    · rw [hf] at hfound
      cases hfound
  rcases loopInv (u := u) (Nat.le_refl 8) (fun r _ => h r) with
    ⟨hf, hnone, -⟩ | ⟨hf, r, hr, hdec, hleast, heq⟩
  · have hfound : (decode cfg u a).found = false := by rw [decode_before]; exact hf
    refine ⟨?_, fun r hr hdec => absurd hdec (hnone r hr), hstart, fun ht => ?_⟩
    · rw [hfound]
      refine iff_of_false (by simp) ?_
      rintro ⟨r, hr, hdec⟩
      exact hnone r hr hdec
    · rw [hfound] at ht
      cases ht
  · have hfound : (decode cfg u a).found = true := by rw [decode_before]; exact hf
    refine ⟨iff_of_true hfound ⟨r, hr, hdec⟩, fun r' _ hdec' hleast' => ?_, hstart, fun _ => ?_⟩
    · -- two least ranges are the same
      have hrr : r = r' := Nat.le_antisymm
        (Nat.le_of_not_lt fun hlt => hleast r' hlt hdec')
        (Nat.le_of_not_lt fun hlt => hleast' r hlt hdec)
      rw [decode_before, heq, hmatch r' hdec', hrr]
    · obtain ⟨hen, hb, hl, -⟩ := hdec
      refine ⟨r, hr, hen, hb, hl, ?_⟩
      rw [decode_before, heq]
      exact searched_nodeID _

/-- While no range decodes the address and every iteration starts from it, the loop goes on. -/
theorem before_csFound (hs : ∀ n < 8, (before cfg u a n).csFound = false →
    (before cfg u a n).systemAddr = a) {n : Nat} (hn : n ≤ 8) (hnone : ∀ r < n, ¬Decodes cfg r a) :
    (before cfg u a n).csFound = false := by
  induction n with
  | zero => rfl
  | succ n ih =>
    have hf := ih (by omega) fun r hr => hnone r (by omega)
    have hstep := rangeStep_cases cfg n (before cfg u a n)
    rw [hs n (by omega) hf] at hstep
    rw [before_succ, hf]
    simp only [Bool.false_eq_true, ↓reduceIte]
    rcases hstep with ⟨-, -, heq⟩ | ⟨hdec, -⟩ | ⟨-, -, hfalse, -⟩
    · rw [heq]
      exact hf
    · exact absurd hdec (hnone n (Nat.lt_succ_self n))
    · exact hfalse

theorem noPassedSwap_of_agrees (h : Agrees cfg u a) : NoPassedSwap cfg a := by
  intro r hr hnone hm
  have hf := before_csFound h.noInfluence (show r ≤ 8 by omega) fun r' hr' =>
    hnone r' (Nat.le_of_lt hr')
  have hf' := before_csFound h.noInfluence (show r + 1 ≤ 8 by omega) fun r' hr' =>
    hnone r' (Nat.le_of_lt_succ hr')
  have haddr := h.noInfluence (r + 1) (by omega) hf'
  have hstep := rangeStep_cases cfg r (before cfg u a r)
  rw [h.noInfluence r (by omega) hf] at hstep
  rw [before_succ, hf] at haddr
  simp only [Bool.false_eq_true, ↓reduceIte] at haddr
  rcases hstep with ⟨hno, -⟩ | ⟨hdec, -⟩ | ⟨-, -, -, hswap⟩
  · rw [hm] at hno
    cases hno
  · exact absurd hdec (hnone r (Nat.le_refl r))
  · exact hswap.symm.trans haddr

end

/-- **The range loop agrees with its reference** if and only if no range that the loop passes
rewrites the address. -/
theorem agrees_iff (cfg : PciReg → BitVec 32) (u : Locals) (systemAddr : BitVec 64) :
    Agrees cfg u systemAddr ↔ NoPassedSwap cfg systemAddr :=
  ⟨noPassedSwap_of_agrees, agrees_of_noPassedSwap⟩

/-- Range 0 covers the first 256 MiB on node 0, which swaps the first two blocks of 128 MiB and
has no chip select; range 1 covers the second block on node 1. -/
def passedSwap : PciReg → BitVec 32 :=
  regFile [(24, 1, 0x40, 0x3#32), (24, 1, 0x44, 0x000F0000#32), (24, 1, 0x48, 0x00080003#32),
    (24, 1, 0x4C, 0x000F0001#32), (24, 2, 0x10C, 0x00100809#32), (25, 2, 0x40, 0x1#32),
    (25, 2, 0x60, 0x1FF83FE0#32)]

/-- The address 0 is found on node 1, whose range does not hold it; no range decodes it. -/
theorem passedSwap_misleads :
    (decode passedSwap default 0#64).found = true ∧ (decode passedSwap default 0#64).node = 1 ∧
      ¬rangeBase passedSwap 1 ≤ 0#64 ∧ (∀ r < 8, ¬Decodes passedSwap r 0#64) ∧
      ¬Agrees passedSwap default 0#64 := by
  have hnone : ∀ r < 8, ¬Decodes passedSwap r 0#64 := by decide
  have hfound : (decode passedSwap default 0#64).found = true := by decide
  refine ⟨hfound, by decide, by decide, hnone, fun h => ?_⟩
  obtain ⟨r, hr, hdec⟩ := h.found_iff.1 hfound
  exact hnone r hr hdec

end Amd
