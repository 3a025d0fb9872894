import HalfDuplex.Proofs.Durations.Rejection
import Mathlib.Algebra.Order.Floor.Div
import Mathlib.Data.FinEnum
import Mathlib.Data.Int.CardIntervalMod
import Mathlib.Order.Interval.Finset.Nat

/-!
# How often a number is drawn

For a bound that is a power of two the words are masked; for any other, those that are
too many are passed over. Either way each number below the bound is left with the same
count of words, the quotient of `2 ^ 64` by the bound.
-/

namespace HalfDuplex.Durations

open Xorshift

variable {upper v x m n a q : Nat}

theorem pick_eq_masked {upper : UInt64} (hupper : 0 < upper.toNat)
    (hpow : upper.toNat.isPowerOfTwo) (w : UInt64) :
    pick upper.toNat w.toNat = some (w &&& (upper - 1)).toNat := by
  obtain ⟨k, hk⟩ := hpow
  have hone : (upper - 1).toNat = upper.toNat - 1 :=
    UInt64.toNat_sub_of_le _ _ (UInt64.le_iff_toNat_le.mpr hupper)
  rw [UInt64.toNat_and, hone, hk, Nat.and_two_pow_sub_one_eq_mod, pick,
    isPowerOfTwo_iff.mpr ⟨k, rfl⟩, if_pos rfl]

theorem pick_eq_multiplied {upper : UInt64} (hupper : 0 < upper.toNat)
    (hpow : ¬ upper.toNat.isPowerOfTwo) (w : UInt64) : pick upper.toNat w.toNat =
      if w * upper < -upper % upper then none
      else some (w.toNat * upper.toNat / Word.size) := by
  have hrest : (-upper % upper).toNat = threshold upper.toNat := by
    rw [UInt64.toNat_mod, UInt64.toNat_neg, Nat.mod_eq_of_lt (Nat.sub_lt (by decide) hupper)]
    rfl
  rw [pick, if_neg (mt isPowerOfTwo_iff.mp hpow)]
  simp only [UInt64.lt_iff_toNat_lt, UInt64.toNat_mul, hrest]
  rfl

theorem card_multiples (hm : 0 < m) (hfit : a + q * m ≤ n * m) :
    {x ∈ Finset.range n | a ≤ x * m ∧ x * m < a + q * m}.card = q := by
  have hshift : (a + q * m) ⌈/⌉ m = a ⌈/⌉ m + q := by
    rw [Nat.ceilDiv_eq_add_pred_div, Nat.ceilDiv_eq_add_pred_div, ← Nat.add_mul_div_right _ _ hm]
    congr 1
    omega
  have hfrom : ∀ x, a ≤ x * m ↔ a ⌈/⌉ m ≤ x := by
    intro x
    rw [ceilDiv_le_iff_le_mul hm, Nat.mul_comm m x]
  have hpast : ∀ x, a + q * m ≤ x * m ↔ a ⌈/⌉ m + q ≤ x := by
    intro x
    rw [← hshift, ceilDiv_le_iff_le_mul hm, Nat.mul_comm m x]
  have hstretch : {x ∈ Finset.range n | a ≤ x * m ∧ x * m < a + q * m} =
      Finset.Ico (a ⌈/⌉ m) (a ⌈/⌉ m + q) := by
    ext x
    have hx := hpast x
    have hend := (hpast n).mp hfit
    rw [Finset.mem_filter, Finset.mem_range, Finset.mem_Ico, hfrom]
    omega
  rw [hstretch, Nat.card_Ico, Nat.add_sub_cancel_left]

theorem pick_eq_some_iff_stretch (hword : upper < Word.size) (hpow : isPowerOfTwo upper = false) :
    pick upper x = some v ↔ v * Word.size + Word.size % upper ≤ x * upper ∧
      x * upper < v * Word.size + Word.size % upper + Word.size / upper * upper := by
  have hsize : Word.size % upper + Word.size / upper * upper = Word.size := Nat.mod_add_div' _ _
  have hsplit : x * upper / Word.size * Word.size + x * upper % Word.size = x * upper :=
    Nat.div_add_mod' _ _
  have hlow : x * upper % Word.size < Word.size := Nat.mod_lt _ (by decide)
  rw [pick_eq_some_iff hword, number, hpow, if_neg Bool.false_ne_true, Nat.add_assoc, hsize]
  constructor
  · rintro ⟨hle, rfl⟩
    omega
  · rintro ⟨hle, hlt⟩
    have hv : x * upper / Word.size = v :=
      Nat.div_eq_of_lt_le (by omega) (by rw [Nat.succ_mul]; omega)
    rw [hv] at hsplit
    exact ⟨by omega, hv.symm⟩

theorem card_pick (hword : upper < Word.size) (hv : v < upper) :
    {x ∈ Finset.range Word.size | pick upper x = some v}.card = Word.size / upper := by
  have hupper : 0 < upper := by omega
  cases hpow : isPowerOfTwo upper with
  | false =>
    have hfit : v * Word.size + Word.size % upper + Word.size / upper * upper ≤
        Word.size * upper := by
      rw [Nat.add_assoc, Nat.mod_add_div', ← Nat.succ_mul, Nat.mul_comm Word.size]
      exact Nat.mul_le_mul_right _ hv
    simp only [pick_eq_some_iff_stretch hword hpow]
    exact card_multiples hupper hfit
  | true =>
    have hpick : ∀ x, pick upper x = some v ↔ x ≡ v [MOD upper] := by
      intro x
      rw [pick, hpow, if_pos rfl, Option.some.injEq, Nat.ModEq, Nat.mod_eq_of_lt hv]
    have hrest := size_mod_of_isPowerOfTwo hpow hword
    simp only [hpick]
    rw [← Nat.count_eq_card_filter_range, Nat.count_modEq_card Word.size hupper, hrest,
      if_neg (Nat.not_lt_zero _), Nat.add_zero]

/-- The words on which a draw below `upper` is accepted and yields `v`. -/
def wordsFor (upper : UInt64) (v : Nat) : Finset UInt64 :=
  {w | pick upper.toNat w.toNat = some v}

theorem card_wordsFor (upper : UInt64) (v : Nat) : (wordsFor upper v).card =
    {x ∈ Finset.range Word.size | pick upper.toNat x = some v}.card := by
  have hback : ∀ x ∈ Finset.range Word.size, (UInt64.ofNat x).toNat = x :=
    fun x hx => UInt64.toNat_ofNat_of_lt' (Finset.mem_range.mp hx)
  unfold wordsFor
  apply Finset.card_nbij' UInt64.toNat UInt64.ofNat
  · intro w hw
    have hpick : pick upper.toNat w.toNat = some v := by simpa using hw
    simp [hpick, Word.size, w.toNat_lt]
  · intro x hx
    have hx' := Finset.mem_filter.mp hx
    simp [hback x hx'.1, hx'.2]
  · intro w _
    exact UInt64.ofNat_toNat
  · intro x hx
    exact hback x (Finset.mem_filter.mp hx).1

/-- Draws are not biased: of all words, as many are accepted for one number below the
bound as for any other, namely the whole quotient of `2 ^ 64` by the bound. For a power
of two a word is masked. For any other bound its product with the bound is halved, and
it is accepted unless the low half is less than the remainder of `2 ^ 64`. -/
theorem numbers_equally_frequent (upper : UInt64) (v : Nat) (hv : v < upper.toNat) :
    (wordsFor upper v).card = Word.size / upper.toNat ∧
    (upper.toNat.isPowerOfTwo → ∀ w, pick upper.toNat w.toNat = some (w &&& (upper - 1)).toNat) ∧
    (¬ upper.toNat.isPowerOfTwo → ∀ w, pick upper.toNat w.toNat =
      if w * upper < -upper % upper then none
      else some (w.toNat * upper.toNat / Word.size)) := by
  have hupper : 0 < upper.toNat := by omega
  refine ⟨?_, pick_eq_masked hupper, pick_eq_multiplied hupper⟩
  rw [card_wordsFor]
  exact card_pick upper.toNat_lt hv

/-- Below three a third of the words is left for each number and the word 0 is passed
over; below `2 ^ 40` no word is. -/
theorem numbers_equally_frequent_below_three :
    (2 < (3 : UInt64).toNat ∧ (wordsFor 3 2).card = 6148914691236517205 ∧
      pick 3 0 = none) ∧
    (5 < (0x10000000000 : UInt64).toNat ∧ (wordsFor 0x10000000000 5).card = 0x1000000 ∧
      pick 0x10000000000 0 = some 0) := by
  have hthree : ¬ (3 : UInt64).toNat.isPowerOfTwo := mt isPowerOfTwo_iff.mpr (by decide)
  have hwide : (0x10000000000 : UInt64).toNat.isPowerOfTwo := isPowerOfTwo_iff.mp (by decide)
  obtain ⟨hcard, -, hpick⟩ := numbers_equally_frequent 3 2 (by decide)
  obtain ⟨hcard', hpick', -⟩ := numbers_equally_frequent 0x10000000000 5 (by decide)
  exact ⟨⟨by decide, hcard, hpick hthree 0⟩, by decide, hcard', hpick' hwide 0⟩

end HalfDuplex.Durations
