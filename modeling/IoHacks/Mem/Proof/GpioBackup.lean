import IoHacks.Lib.Backup
import IoHacks.Mem.Gpio
import IoHacks.Mem.Proof.Restore

/-!
# GPIO registers saved and restored

What `amd_gpio_tool` prints about a register has its offset and its value as the option `-w` takes
them. So the words of the window can be saved by runs of the program and restored by others
(`window_restored`).
-/

namespace Mem.Gpio

open Lib
open Ioapic (hex_numeral)

/-! ## The window -/

/-- The words of the window. -/
abbrev Window := Nat → BitVec 32

def Window.step : Req → Window → Reply × Window
  | .load index, w => ({ failed := false, word := w index }, w)
  | .store index value, w =>
    (ready (.store index value), Function.update w index value)
  | req, w => (ready req, w)

/-- A run that prints the word with the index `i`. -/
def readRun (i : Fin 0xc0) : Io Nat := main ["0x" ++ hex 2 (4 * i)]

/-- The line that it prints. -/
def line (i : Fin 0xc0) (val : BitVec 32) : String :=
  "offset 0x" ++ hex 2 (4 * i) ++ " has value 0x" ++ hex 8 val.toNat ++ "\n"

/-- A run that writes what stands in a line. -/
def writeRun (text : String) : Io Nat :=
  match words text with
  | [_, off, _, _, val] => main ["-w", off, val]
  | _ => main []

/-! ## The arguments -/

/-- An operand that is a hexadecimal numeral. -/
theorem toList_0x (s : String) : ("0x" ++ s).toList = '0' :: 'x' :: s.toList := by
  rw [String.toList_append]
  rfl

theorem hex_no_option (s : String) (c : Char) (cs : List Char) :
    ("0x" ++ s).toList ≠ '-' :: c :: cs := by
  rw [toList_0x]
  intro h
  cases (List.cons.inj h).1

theorem optLetters_hex (s : String) (rest : List String) :
    optLetters (("0x" ++ s) :: rest) = [] := by
  rw [optLetters, toList_0x]
  rfl

/-- The words with numerals after no option, and after `-w`. -/
theorem setMode_read (s : String) (rest : List String) :
    setMode .rd (optLetters (("0x" ++ s) :: rest)) = .ok .rd := by
  rw [optLetters_hex]
  rfl

theorem setMode_write (s : String) (rest : List String) :
    setMode .rd (optLetters ("-w" :: ("0x" ++ s) :: rest)) = .ok .wr := by
  have hletters : optLetters ("-w" :: ("0x" ++ s) :: rest) = ['w'] := by
    rw [optLetters]
    show ['w'] ++ optLetters (("0x" ++ s) :: rest) = ['w']
    rw [optLetters_hex]
    rfl
  rw [hletters]
  rfl

theorem operands_read (s : String) (rest : List String) :
    (getopt ['r', 'w'] (("0x" ++ s) :: rest)).2 = ("0x" ++ s) :: rest := by
  rw [getopt_operand (hex_no_option s)]

theorem operands_write (s : String) (rest : List String) :
    (getopt ['r', 'w'] ("-w" :: ("0x" ++ s) :: rest)).2 = ("0x" ++ s) :: rest := by
  have hrun : getopt ['r', 'w'] (List.replicate 1 "-w" ++ ("0x" ++ s) :: rest) =
      (List.replicate 1 'w', ("0x" ++ s) :: rest) :=
    getopt_replicate (by simp) (by simp) (by simp) rfl 1 fun w hw => by
      cases hw
      exact hex_no_option s
  exact congrArg Prod.snd hrun

/-- What the checks make of a numeral. -/
theorem ulong_hex {width n : Nat} (hn : n < 2 ^ 64) :
    ulong ("0x" ++ hex width n) = BitVec.ofNat 64 n := by
  rw [ulong, strtoul_0x (hex_numeral width n) hn]

theorem notParsed_hex {width n : Nat} (hn : n < 2 ^ 64) :
    notParsed ("0x" ++ hex width n) = false := by
  rw [notParsed, strtoul_0x (hex_numeral width n) hn, toList_0x]
  rfl

/-- The checks of an offset. -/
theorem offset_checks (i : Fin 0xc0) : ¬gpioSize < BitVec.ofNat 64 (4 * i) + 4#64 ∧
    BitVec.ofNat 32 (4 * i) % 4#32 = 0#32 ∧
    (BitVec.ofNat 64 (4 * i)).setWidth 32 = BitVec.ofNat 32 (4 * i) := by
  have hi := i.isLt
  refine ⟨?_, ?_, ?_⟩
  · rw [BitVec.lt_def, BitVec.toNat_add, BitVec.toNat_ofNat]
    simp only [gpioSize, BitVec.toNat_ofNat]
    omega
  · apply BitVec.eq_of_toNat_eq
    rw [BitVec.toNat_umod, BitVec.toNat_ofNat, BitVec.toNat_ofNat, BitVec.toNat_ofNat,
      Nat.mod_eq_of_lt (by omega : 4 * i.val < 2 ^ 32)]
    exact Nat.mul_mod_right 4 i
  · apply BitVec.eq_of_toNat_eq
    simp

section
variable {i : Fin 0xc0} {val : BitVec 32} {word valWord : String}

theorem parseOperands_rd (hp : notParsed word = false)
    (hx : ulong word = BitVec.ofNat 64 (4 * i)) :
    parseOperands .rd [word] = .ok (.read (BitVec.ofNat 32 (4 * i))) := by
  obtain ⟨hsize, halign, hoff⟩ := offset_checks i
  simp only [parseOperands, hp, hx, hoff]
  rw [if_neg Bool.false_ne_true, if_neg hsize, if_neg (not_not_intro halign)]
  rfl

theorem parseOperands_wr (hp : notParsed word = false)
    (hx : ulong word = BitVec.ofNat 64 (4 * i)) (hp' : notParsed valWord = false)
    (hx' : ulong valWord = BitVec.ofNat 64 val.toNat) :
    parseOperands .wr [word, valWord] = .ok (.write (BitVec.ofNat 32 (4 * i)) val) := by
  obtain ⟨hsize, halign, hoff⟩ := offset_checks i
  have hlt := val.isLt
  have hmax : ¬uint32Max < BitVec.ofNat 64 val.toNat := by
    rw [BitVec.lt_def]
    simp only [uint32Max, BitVec.toNat_ofNat]
    omega
  have hval : (BitVec.ofNat 64 val.toNat).setWidth 32 = val := by
    apply BitVec.eq_of_toNat_eq
    simp only [BitVec.toNat_setWidth, BitVec.toNat_ofNat]
    omega
  simp only [parseOperands, parseValue, hp, hx, hp', hx', hoff, hval]
  rw [if_neg Bool.false_ne_true, if_neg hsize, if_neg (not_not_intro halign),
    if_neg Bool.false_ne_true, if_neg hmax]
  rfl

end

theorem parse_of_mode {mode : Mode} {args words : List String}
    (hmode : setMode .rd (optLetters args) = .ok mode)
    (hwords : (getopt ['r', 'w'] args).2 = words) : parse args = parseOperands mode words := by
  rw [parse, hmode, hwords]
  rfl

theorem parse_read (i : Fin 0xc0) :
    parse ["0x" ++ hex 2 (4 * i)] = .ok (.read (BitVec.ofNat 32 (4 * i))) := by
  have hi : 4 * i.val < 2 ^ 64 := by omega
  rw [parse_of_mode (setMode_read _ _) (operands_read _ _)]
  exact parseOperands_rd (notParsed_hex hi) (ulong_hex hi)

theorem parse_write (i : Fin 0xc0) (val : BitVec 32) :
    parse ["-w", "0x" ++ hex 2 (4 * i), "0x" ++ hex 8 val.toNat] =
      .ok (.write (BitVec.ofNat 32 (4 * i)) val) := by
  have hi : 4 * i.val < 2 ^ 64 := by omega
  have hval : val.toNat < 2 ^ 64 := by omega
  rw [parse_of_mode (setMode_write _ _) (operands_write _ _)]
  exact parseOperands_wr (notParsed_hex hi) (ulong_hex hi) (notParsed_hex hval) (ulong_hex hval)

/-- The words of a text about a value. -/
theorem words_hasValue {name key val : String} (hname : IsWord name.toList)
    (hkey : IsWord key.toList) (hval : IsWord val.toList) :
    words (name ++ (" " ++ (key ++ (" has value " ++ (val ++ "\n"))))) =
      [name, key, "has", "value", val] := by
  have hplain : IsWord "has".toList ∧ IsWord "value".toList := by simp [IsWord, isSpace]
  have hmiddle : " has value " ++ (val ++ "\n") =
      " " ++ ("has" ++ (" " ++ ("value" ++ (" " ++ (val ++ "\n"))))) := by
    simp [← String.toList_inj]
  rw [words_cons hname, hmiddle, words_cons hkey, words_cons hplain.1, words_cons hplain.2,
    words_last hval]

theorem words_line (i : Fin 0xc0) (val : BitVec 32) :
    words (line i val) = ["offset", "0x" ++ hex 2 (4 * i), "has", "value",
      "0x" ++ hex 8 val.toNat] := by
  have hline : line i val = "offset" ++ (" " ++ (("0x" ++ hex 2 (4 * i)) ++ (" has value " ++
      (("0x" ++ hex 8 val.toNat) ++ "\n")))) := by
    unfold line
    simp [← String.toList_inj]
  have hname : IsWord "offset".toList := by simp [IsWord, isSpace]
  rw [hline, words_hasValue hname (isWord_0x (hex_numeral _ _)) (isWord_0x (hex_numeral _ _))]

/-! ## Runs -/

theorem run_read (i : Fin 0xc0) (w : Window) :
    Query.run Window.step Req.stdout (readRun i) w = (([line i (w i)], 0), w) := by
  have hi := i.isLt
  have hoff : (BitVec.ofNat 32 (4 * i)).toNat = 4 * i.val := by
    rw [BitVec.toNat_ofNat]
    omega
  have hindex : (BitVec.ofNat 32 (4 * i) / 4#32).toNat = i.val := by
    rw [BitVec.toNat_udiv, hoff]
    show 4 * i.val / 4 = i.val
    omega
  rw [readRun, main, parse_read]
  unfold line
  simp [withWindow, access, load, call, Window.step, ready, Req.stdout, hindex, hoff]

theorem exec_write (i : Fin 0xc0) (val : BitVec 32) (w : Window) :
    (writeRun (line i val)).exec Window.step w = (0, Function.update w i val) := by
  have hi := i.isLt
  have hindex : (BitVec.ofNat 32 (4 * i) / 4#32).toNat = i.val := by
    rw [BitVec.toNat_udiv, BitVec.toNat_ofNat]
    show 4 * i.val % 2 ^ 32 / 4 = i.val
    omega
  rw [writeRun, words_line]
  show (main ["-w", "0x" ++ hex 2 (4 * i), "0x" ++ hex 8 val.toNat]).exec Window.step w = _
  rw [main, parse_write]
  simp [withWindow, access, store, call, Window.step, ready, hindex]

/-- **GPIO registers are restored**: the words of the window that were printed are written back by
the lines, and the others stay. -/
theorem window_restored (is : List (Fin 0xc0)) (w w' : Window) :
    ((Query.restore writeRun ((Query.save Req.stdout readRun is).exec Window.step w).1).exec
        Window.step w').1 = List.replicate is.length 0 ∧
      ∀ index, ((Query.restore writeRun ((Query.save Req.stdout readRun is).exec
        Window.step w).1).exec Window.step w').2 index =
          if index ∈ is.map Fin.val then w index else w' index := by
  have hrestorable : Query.Restorable Window.step Req.stdout readRun writeRun id Fin.val line :=
    { read := fun i w => by
        rw [run_read]
        exact ⟨rfl, rfl⟩
      write := fun i val w => by
        rw [exec_write]
        exact ⟨rfl, rfl⟩ }
  exact hrestorable.restore_save is w w'

end Mem.Gpio
