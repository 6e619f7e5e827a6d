import Mathlib.Algebra.Group.Nat.Defs
import Mathlib.Tactic.Common

/-!
# Numbers on the command line

`strtoul` of the C library with base 0 and a 64-bit `unsigned long`: white space, an optional sign,
an optional prefix `0x` or `0` for base 16 or 8, and digits. A minus sign negates the value modulo
`2 ^ 64`, a numeral that is too large converts to `ULONG_MAX`, and text without a numeral converts
to 0 and consumes nothing.
-/

namespace Lib

def einval : Nat := 22
def erange : Nat := 34

def ulongMax : Nat := 2 ^ 64 - 1

/-- What a conversion returns, the text that `endptr` is set to, and the error it sets in `errno`
(0 when `errno` is left alone). -/
structure Converted where
  value : Nat
  rest : List Char
  error : Nat
  deriving DecidableEq

/-- `isspace` in the C locale. -/
def isSpace (c : Char) : Bool := c ∈ [' ', '\t', '\n', '\x0b', '\x0c', '\r']

/-- The value of a letter or digit as a digit. -/
def digitVal (c : Char) : Option Nat :=
  if c.isDigit then some (c.toNat - 48)
  else if c.isLower then some (c.toNat - 87)
  else if c.isUpper then some (c.toNat - 55)
  else none

def digitIn (base : Nat) (c : Char) : Option Nat := (digitVal c).filter (· < base)

/-- Whether the text has a minus sign, and what follows the sign. -/
def takeSign : List Char → Bool × List Char
  | '-' :: cs => (true, cs)
  | '+' :: cs => (false, cs)
  | cs => (false, cs)

/-- The base of a numeral by its prefix, and its digits. The prefix `0x` needs a digit after it. -/
def takePrefix : List Char → Nat × List Char
  | '0' :: x :: d :: cs =>
    if (x = 'x' ∨ x = 'X') ∧ (digitIn 16 d).isSome then (16, d :: cs) else (8, '0' :: x :: d :: cs)
  | '0' :: cs => (8, '0' :: cs)
  | cs => (10, cs)

/-- The leading digits and the text after them. -/
def takeDigits (base : Nat) : List Char → List Nat × List Char
  | [] => ([], [])
  | c :: cs =>
    match digitIn base c with
    | some d => (d :: (takeDigits base cs).1, (takeDigits base cs).2)
    | none => ([], c :: cs)

def ofDigits (base : Nat) (digits : List Nat) : Nat :=
  digits.foldl (fun acc d => acc * base + d) 0

def strtoul (s : String) : Converted :=
  let (neg, cs) := takeSign (s.toList.dropWhile isSpace)
  let (base, cs) := takePrefix cs
  let (digits, rest) := takeDigits base cs
  let n := ofDigits base digits
  if digits = [] then { value := 0, rest := s.toList, error := einval }
  else if ulongMax < n then { value := ulongMax, rest, error := erange }
  else { value := if neg then (2 ^ 64 - n) % 2 ^ 64 else n, rest, error := 0 }

/-- `unsigned long long` is an `unsigned long`. -/
def strtoull (s : String) : Converted := strtoul s

/-- `uintmax_t` is an `unsigned long`. -/
def strtoumax (s : String) : Converted := strtoul s

theorem strtoul_lt (s : String) : (strtoul s).value < 2 ^ 64 := by
  unfold strtoul ulongMax
  simp only
  split
  · exact Nat.two_pow_pos 64
  · split
    · show 2 ^ 64 - 1 < 2 ^ 64
      omega
    · split
      · exact Nat.mod_lt _ (by decide)
      · simp only
        omega

example : strtoul " -0x4z" = { value := 2 ^ 64 - 4, rest := ['z'], error := 0 } := by decide

end Lib
