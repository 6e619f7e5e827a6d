import Mathlib.Tactic.Common

/-!
# Option parsing by `getopt`

`getopt` as the POSIX function works on options without arguments: it reads the leading words that
start with `-`, one letter after the other, and stops at `--`, which it skips, or at the first
word that is no option (a solitary `-` is none). What it does not know it returns as `?`.
-/

namespace Lib

/-- The value of `getopt` at an option letter. -/
def optChar (optstring : List Char) (c : Char) : Char :=
  if c ∈ optstring ∧ c ≠ ':' then c else '?'

/-- The successive values of `getopt` before it returns -1, and the words it leaves. -/
def getopt (optstring : List Char) : List String → List Char × List String
  | [] => ([], [])
  | word :: rest =>
    match word.toList with
    | '-' :: c :: cs =>
      if c = '-' ∧ cs = [] then ([], rest)
      else
        ((c :: cs).map (optChar optstring) ++ (getopt optstring rest).1,
          (getopt optstring rest).2)
    | _ => ([], word :: rest)

/-- The option letters in the leading words; `optopt` has an unknown one. -/
def optLetters : List String → List Char
  | [] => []
  | word :: rest =>
    match word.toList with
    | '-' :: c :: cs => if c = '-' ∧ cs = [] then [] else (c :: cs) ++ optLetters rest
    | _ => []

section
variable {optstring optstring' : List Char} {word : String} {rest : List String} {c : Char}
  {cs : List Char}

/-- A word of option letters. -/
theorem getopt_letters (hw : word.toList = '-' :: c :: cs) (hn : ¬(c = '-' ∧ cs = [])) :
    getopt optstring (word :: rest) =
      ((c :: cs).map (optChar optstring) ++ (getopt optstring rest).1,
        (getopt optstring rest).2) := by
  rw [getopt, hw]
  simp only
  rw [if_neg hn]

/-- The word `--` ends the options. -/
theorem getopt_dashes (hw : word.toList = ['-', '-']) :
    getopt optstring (word :: rest) = ([], rest) := by
  rw [getopt, hw]
  simp

/-- The first word that is no option ends them too. -/
theorem getopt_operand (hw : ∀ c cs, word.toList ≠ '-' :: c :: cs) :
    getopt optstring (word :: rest) = ([], word :: rest) := by
  rw [getopt]
  split
  · rename_i c cs h
    exact absurd h (hw c cs)
  · rfl

/-- The values of `getopt` are those of the option letters. -/
theorem getopt_fst (optstring : List Char) (args : List String) :
    (getopt optstring args).1 = (optLetters args).map (optChar optstring) := by
  induction args with
  | nil => rfl
  | cons word rest ih =>
    rw [getopt, optLetters]
    split
    · split
      · rfl
      · rw [List.map_append, ih]
    · rfl

theorem optChar_mono (hsub : optstring ⊆ optstring') (h : optChar optstring c ≠ '?') :
    optChar optstring' c = optChar optstring c := by
  unfold optChar at h ⊢
  by_cases hc : c ∈ optstring ∧ c ≠ ':'
  · rw [if_pos hc, if_pos ⟨hsub hc.1, hc.2⟩]
  · exact absurd (if_neg hc) h

/-- **More options** change nothing for words that `getopt` already knows. -/
theorem getopt_mono (hsub : optstring ⊆ optstring') {args : List String}
    (h : '?' ∉ (getopt optstring args).1) : getopt optstring' args = getopt optstring args := by
  induction args with
  | nil => rfl
  | cons word rest ih =>
    by_cases hw : ∃ c cs, word.toList = '-' :: c :: cs
    · obtain ⟨c, cs, hw⟩ := hw
      by_cases hn : c = '-' ∧ cs = []
      · obtain ⟨rfl, rfl⟩ := hn
        rw [getopt_dashes hw, getopt_dashes hw]
      · rw [getopt_letters hw hn, List.mem_append, not_or] at h
        rw [getopt_letters hw hn, getopt_letters hw hn, ih h.2]
        have hmap : (c :: cs).map (optChar optstring') = (c :: cs).map (optChar optstring) :=
          List.map_congr_left fun x hx => optChar_mono hsub fun hq =>
            h.1 (List.mem_map.2 ⟨x, hx, hq⟩)
        rw [hmap]
    · have ho : ∀ c cs, word.toList ≠ '-' :: c :: cs := fun c cs h => hw ⟨c, cs, h⟩
      rw [getopt_operand ho, getopt_operand ho]

/-- Any number of words with one known letter, and then the operands. -/
theorem getopt_replicate (hc : c ∈ optstring) (hcolon : c ≠ ':') (hdash : c ≠ '-')
    (hw : word.toList = ['-', c]) (n : Nat) {operands : List String}
    (ho : ∀ w ∈ operands.head?, ∀ c cs, w.toList ≠ '-' :: c :: cs) :
    getopt optstring (List.replicate n word ++ operands) = (List.replicate n c, operands) := by
  induction n with
  | zero =>
    cases operands with
    | nil => rfl
    | cons w ws => exact getopt_operand (ho w rfl)
  | succ n ih =>
    rw [List.replicate_succ, List.cons_append, getopt_letters hw (fun h => hdash h.1), ih]
    simp [optChar, hc, hcolon, List.replicate_succ]

end

end Lib
