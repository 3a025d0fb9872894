/-!
# Counts that fit a machine word

Counts are natural numbers below `Word.size`. This file has the sums of such
counts and the way they are written on a command line.
-/

namespace HalfDuplex.Word

/-- One more than the largest count that 64 bits hold. -/
def size : Nat := UInt64.size

def largest : Nat := size - 1

/-- The sum, or the largest count if the sum is larger. -/
def addClamped (a b : Nat) : Nat := min (a + b) largest

def digitsValue (cs : List Char) : Nat :=
  cs.foldl (fun n c => 10 * n + (c.toNat - '0'.toNat)) 0

def afterPlus : List Char → List Char
  | '+' :: rest => rest
  | cs => cs

def parseDigits? (cs : List Char) : Option Nat :=
  if cs.isEmpty || !cs.all Char.isDigit then none
  else if digitsValue cs < size then some (digitsValue cs)
  else none

/-- Reads an optional plus sign and a number in digits. -/
def parse? (cs : List Char) : Option Nat := parseDigits? (afterPlus cs)

theorem parseDigits?_eq_some_iff {cs : List Char} {n : Nat} :
    parseDigits? cs = some n ↔
      cs ≠ [] ∧ cs.all Char.isDigit ∧ digitsValue cs = n ∧ n < size := by
  unfold parseDigits?
  split
  · next h => simp only [Bool.or_eq_true, List.isEmpty_iff, Bool.not_eq_true'] at h; simp; grind
  · next h =>
    simp only [Bool.or_eq_true, List.isEmpty_iff, Bool.not_eq_true'] at h
    split <;> simp <;> grind

end HalfDuplex.Word
