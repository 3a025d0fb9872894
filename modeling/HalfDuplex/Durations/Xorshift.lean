import HalfDuplex.Word

/-!
# A generator of 64-bit words

The generator goes from one non-zero word to the next by three shifts. To draw
a number below a bound that is not a power of two, a word is multiplied by the
bound: the high half is the number, and a word whose low half is too small is
passed over, so that every number has equally many words.
-/

namespace HalfDuplex

structure Xorshift where
  word : UInt64
deriving DecidableEq

namespace Xorshift

/-- The word that stands in for the seed 0, from which no other word follows. -/
def zeroSeed : UInt64 := 0x9E3779B97F4A7C15

def ofSeed (seed : Nat) : Xorshift :=
  let word := UInt64.ofNat seed
  ⟨if word = 0 then zeroSeed else word⟩

def advance (w : UInt64) : UInt64 :=
  let w := w ^^^ (w <<< 13)
  let w := w ^^^ (w >>> 7)
  w ^^^ (w <<< 17)

def next (g : Xorshift) : Xorshift := ⟨advance g.word⟩

def after (g : Xorshift) : Nat → Xorshift
  | 0 => g
  | k + 1 => g.next.after k

def isPowerOfTwo (n : Nat) : Bool := 1 <<< n.log2 == n

def threshold (upper : Nat) : Nat := (Word.size - upper) % upper

/-- The number below `upper` that a word stands for; none if the word is to be
passed over. -/
def pick (upper : Nat) (word : Nat) : Option Nat :=
  if isPowerOfTwo upper then some (word % upper)
  else
    let product := word * upper
    if product % Word.size < threshold upper then none else some (product / Word.size)

def drawWithin (upper : Nat) : Nat → Xorshift → Option (Nat × Xorshift)
  | 0, _ => none
  | fuel + 1, g =>
    match pick upper g.next.word.toNat with
    | some v => some (v, g.next)
    | none => drawWithin upper fuel g.next

/-- Draws a number below `upper`. The words repeat after fewer than `Word.size`
steps, so if that many of them are passed over then all would be. -/
def below (g : Xorshift) (upper : Nat) : Nat × Xorshift :=
  (drawWithin upper Word.size g).getD (0, g)

@[simp] theorem after_zero (g : Xorshift) : g.after 0 = g := rfl

theorem after_succ (g : Xorshift) (k : Nat) : g.after (k + 1) = g.next.after k := rfl

theorem drawWithin_eq_some {upper fuel v : Nat} {g h : Xorshift}
    (hd : drawWithin upper fuel g = some (v, h)) :
    ∃ k < fuel, h = g.after (k + 1) ∧ pick upper h.word.toNat = some v ∧
      ∀ j < k, pick upper (g.after (j + 1)).word.toNat = none := by
  induction fuel generalizing g with
  | zero => simp [drawWithin] at hd
  | succ fuel ih =>
    simp only [drawWithin] at hd
    split at hd
    · next w hw =>
      simp only [Option.some.injEq, Prod.mk.injEq] at hd
      obtain ⟨rfl, rfl⟩ := hd
      exact ⟨0, Nat.succ_pos fuel, rfl, hw, fun j hj => absurd hj (Nat.not_lt_zero j)⟩
    · next hw =>
      obtain ⟨k, hk, hg, hp, hall⟩ := ih hd
      refine ⟨k + 1, Nat.succ_lt_succ hk, ?_, hp, ?_⟩
      · rw [hg, ← after_succ]
      · intro j hj
        cases j with
        | zero => exact hw
        | succ j => exact hall j (Nat.lt_of_succ_lt_succ hj)

end Xorshift

end HalfDuplex
