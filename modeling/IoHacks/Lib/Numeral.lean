import IoHacks.Lib.Strtoul

/-!
# Printed numbers, read back

A program prints a number by `printf`, and another one reads it from its command line by `strtoul`.
`IsNumeral base cs n` says that `cs` are digits with the value `n`; the digits of a number are a
numeral of it, also with leading zeros. `strtoul_hex`: what `printf` writes after `0x` is read back
as the number. `words` are the words that a shell makes of a text.
-/

namespace Lib

/-! ## Numerals -/

/-- The characters are one or more digits with the value `n`. -/
def IsNumeral (base : Nat) (cs : List Char) (n : Nat) : Prop :=
  cs ≠ [] ∧ ∃ ds, cs.map (digitIn base) = ds.map some ∧ ofDigits base ds = n

section
variable {base : Nat} {cs rest : List Char} {n : Nat}

theorem digitVal_digitChar {d : Nat} (hd : d < 16) : digitVal (Nat.digitChar d) = some d := by
  have h : ∀ d < 16, digitVal (Nat.digitChar d) = some d := by decide
  exact h d hd

theorem digitIn_digitChar (hb : base ≤ 16) {d : Nat} (hd : d < base) :
    digitIn base (Nat.digitChar d) = some d := by
  rw [digitIn, digitVal_digitChar (Nat.lt_of_lt_of_le hd hb), Option.filter_some,
    if_pos (by simpa using hd)]

theorem ofDigits_append (ds ds' : List Nat) :
    ofDigits base (ds ++ ds') = ds'.foldl (fun acc d => acc * base + d) (ofDigits base ds) := by
  rw [ofDigits, List.foldl_append]
  rfl

theorem ofDigits_replicate (k : Nat) : ofDigits base (List.replicate k 0) = 0 := by
  induction k with
  | zero => rfl
  | succ k ih => rw [List.replicate_succ', ofDigits_append, ih]; simp

/-- A numeral and one digit after it. -/
theorem IsNumeral.concat (h : IsNumeral base cs n) (hb : base ≤ 16) {d : Nat} (hd : d < base) :
    IsNumeral base (cs ++ [Nat.digitChar d]) (n * base + d) := by
  obtain ⟨-, ds, hds, rfl⟩ := h
  refine ⟨by simp, ds ++ [d], ?_, ?_⟩
  · rw [List.map_append, hds, List.map_append, List.map_singleton, digitIn_digitChar hb hd]
    rfl
  · rw [ofDigits_append]
    rfl

/-- The digits of a number. -/
theorem isNumeral_toDigits (hb : 1 < base) (hb' : base ≤ 16) (n : Nat) :
    IsNumeral base (Nat.toDigits base n) n := by
  induction n using Nat.strongRecOn with
  | ind n ih =>
    rcases Nat.lt_or_ge n base with hn | hn
    · rw [Nat.toDigits_of_lt_base hn]
      exact ⟨by simp, [n], by simp [digitIn_digitChar hb' hn], by simp [ofDigits]⟩
    · rw [Nat.toDigits_of_base_le hb hn]
      have hrest := (ih (n / base) (Nat.div_lt_self (by omega) hb)).concat hb'
        (Nat.mod_lt n (by omega))
      rwa [Nat.div_add_mod'] at hrest

/-- Leading zeros. -/
theorem IsNumeral.pad (h : IsNumeral base cs n) (hb : 1 < base) (hb' : base ≤ 16) (k : Nat) :
    IsNumeral base (List.replicate k '0' ++ cs) n := by
  obtain ⟨hne, ds, hds, hn⟩ := h
  refine ⟨by simp [hne], List.replicate k 0 ++ ds, ?_, ?_⟩
  · have hzero : digitIn base '0' = some 0 := digitIn_digitChar (d := 0) hb' (by omega)
    rw [List.map_append, hds, List.map_append, List.map_replicate, List.map_replicate, hzero]
  · rw [ofDigits_append, ofDigits_replicate]
    exact hn

/-! ## Reading -/

theorem takeDigits_append {ds : List Nat} (h : cs.map (digitIn base) = ds.map some)
    (hrest : ∀ c ∈ rest.head?, digitIn base c = none) :
    takeDigits base (cs ++ rest) = (ds, rest) := by
  induction cs generalizing ds with
  | nil =>
    cases ds with
    | cons d ds => cases h
    | nil =>
      cases rest with
      | nil => rfl
      | cons c rest =>
        rw [List.nil_append, takeDigits, hrest c rfl]
  | cons c cs ih =>
    cases ds with
    | nil => cases h
    | cons d ds =>
      obtain ⟨hd, hds⟩ := List.cons.inj h
      rw [List.cons_append, takeDigits, hd, ih hds]

/-- **A hexadecimal numeral is read back** as its number, up to the text after it. -/
theorem strtoul_hex (h : IsNumeral 16 cs n) (hn : n < 2 ^ 64)
    (hrest : ∀ c ∈ rest.head?, digitIn 16 c = none) :
    strtoul (String.ofList ('0' :: 'x' :: (cs ++ rest))) = { value := n, rest, error := 0 } := by
  obtain ⟨hne, ds, hds, rfl⟩ := h
  obtain ⟨c, cs, rfl⟩ := List.exists_cons_of_ne_nil hne
  have htake := takeDigits_append hds hrest
  obtain ⟨d, ds, rfl⟩ : ∃ d ds', ds = d :: ds' := by
    cases ds with
    | nil => cases hds
    | cons d ds => exact ⟨d, ds, rfl⟩
  have hc : digitIn 16 c = some d := (List.cons.inj hds).1
  have hsign : takeSign (('0' :: 'x' :: (c :: cs ++ rest)).dropWhile isSpace) =
      (false, '0' :: 'x' :: (c :: cs ++ rest)) := rfl
  have hprefix : takePrefix ('0' :: 'x' :: (c :: cs ++ rest)) = (16, c :: cs ++ rest) := by
    rw [List.cons_append, takePrefix, if_pos ⟨.inl rfl, by rw [hc]; rfl⟩]
  have hmax : ¬ulongMax < ofDigits 16 (d :: ds) := by
    unfold ulongMax
    omega
  simp only [strtoul, String.toList_ofList, hsign, hprefix, htake, if_neg hmax]
  rfl

theorem strtoul_0x {s : String} (h : IsNumeral 16 s.toList n) (hn : n < 2 ^ 64) :
    strtoul ("0x" ++ s) = { value := n, rest := [], error := 0 } := by
  have htext : "0x" ++ s = String.ofList ('0' :: 'x' :: (s.toList ++ [])) := by
    simp [← String.toList_inj]
  rw [htext]
  exact strtoul_hex h hn (by simp)

end

/-! ## Words -/

/-- The words of a text, as a shell splits it. -/
def words (text : String) : List String :=
  ((text.toList.splitOnP isSpace).filter (· ≠ [])).map String.ofList

section
variable {cs rest : List Char} {c : Char}

@[simp] theorem words_nil : words (String.ofList []) = [] := rfl

/-- A word, and white space after it. -/
theorem words_append (hne : cs ≠ []) (hcs : ∀ x ∈ cs, isSpace x = false)
    (hc : isSpace c = true) :
    words (String.ofList (cs ++ c :: rest)) = String.ofList cs :: words (String.ofList rest) := by
  rw [words, words, String.toList_ofList, String.toList_ofList,
    List.splitOnP_append_cons_of_forall_mem hcs c hc, List.filter_cons_of_pos (by simpa using hne),
    List.map_cons]

/-- A numeral is one word. -/
theorem IsNumeral.not_space {base n : Nat} (h : IsNumeral base cs n) :
    ∀ x ∈ cs, isSpace x = false := by
  obtain ⟨-, ds, hds, -⟩ := h
  intro x hx
  by_contra hspace
  have hsome : (digitIn base x).isSome = true := by
    have hmem := List.mem_map_of_mem (f := digitIn base) hx
    rw [hds] at hmem
    obtain ⟨d, -, hd⟩ := List.mem_map.1 hmem
    rw [← hd]
    rfl
  rw [Bool.not_eq_false, isSpace, decide_eq_true_eq] at hspace
  simp only [List.mem_cons, List.not_mem_nil, or_false] at hspace
  rcases hspace with rfl | rfl | rfl | rfl | rfl | rfl <;> cases hsome

/-- The characters are a word. -/
def IsWord (cs : List Char) : Prop := cs ≠ [] ∧ ∀ x ∈ cs, isSpace x = false

/-- The first word of a text. -/
theorem words_cons {w : String} (hw : IsWord w.toList) (rest : String) :
    words (w ++ (" " ++ rest)) = w :: words rest := by
  have htext : w ++ (" " ++ rest) = String.ofList (w.toList ++ ' ' :: rest.toList) := by
    simp
  rw [htext, words_append hw.1 hw.2 rfl, String.ofList_toList, String.ofList_toList]

/-- The last word of a line. -/
theorem words_last {w : String} (hw : IsWord w.toList) : words (w ++ "\n") = [w] := by
  have htext : w ++ "\n" = String.ofList (w.toList ++ '\n' :: []) := by
    simp
  rw [htext, words_append hw.1 hw.2 rfl, String.ofList_toList, words_nil]

theorem IsNumeral.isWord {base n : Nat} (h : IsNumeral base cs n) : IsWord cs := ⟨h.1, h.not_space⟩

theorem isWord_0x {base n : Nat} {s : String} (h : IsNumeral base s.toList n) :
    IsWord ("0x" ++ s).toList := by
  rw [String.toList_append]
  refine ⟨by simp, fun x hx => ?_⟩
  rcases List.mem_append.1 hx with hx | hx
  · have hprefix : ∀ x ∈ "0x".toList, isSpace x = false := by simp [isSpace]
    exact hprefix x hx
  · exact h.not_space x hx

end

end Lib
