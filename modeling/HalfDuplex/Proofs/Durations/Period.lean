import HalfDuplex.Durations.Source
import Mathlib.Data.List.Prime
import Mathlib.Data.UInt
import Mathlib.Dynamics.PeriodicPts.Lemmas
import Mathlib.Tactic.NormNum.Prime
import Mathlib.Tactic.Ring

/-!
# The period of the generator

A step of the generator is linear over the field with two elements, and a
polynomial of degree 64 takes it to zero. So a power of the step is a polynomial of
degree below 64 in it, which a number holds bit by bit: computing with these numbers
shows that `2 ^ 64 - 1` steps lead back to every word and that no proper divisor of
that number does. From a word that is not zero the generator therefore comes to every
other such word.
-/

namespace HalfDuplex.Xorshift

open Function

variable {n q k : Nat} {w v : UInt64}

theorem xor_shiftLeft_xor (v w s : UInt64) :
    v ^^^ w ^^^ ((v ^^^ w) <<< s) = v ^^^ (v <<< s) ^^^ (w ^^^ (w <<< s)) := by
  rw [UInt64.shiftLeft_xor]
  ac_rfl

theorem xor_shiftRight_xor (v w s : UInt64) :
    v ^^^ w ^^^ ((v ^^^ w) >>> s) = v ^^^ (v >>> s) ^^^ (w ^^^ (w >>> s)) := by
  rw [UInt64.shiftRight_xor]
  ac_rfl

theorem advance_xor (v w : UInt64) : advance (v ^^^ w) = advance v ^^^ advance w := by
  unfold advance
  dsimp only
  rw [xor_shiftLeft_xor v w 13, xor_shiftRight_xor (v ^^^ v <<< 13) (w ^^^ w <<< 13) 7,
    xor_shiftLeft_xor _ _ 17]

theorem advance_zero : advance 0 = 0 := by decide

/-- The sum of those of `a`, `f a`, `f (f a)`, … that the lowest `n` bits of `q` pick. -/
def combine {α : Type} [XorOp α] [Zero α] (f : α → α) : Nat → Nat → α → α
  | 0, _, _ => 0
  | n + 1, q, a =>
    if q.testBit 0 then a ^^^ combine f n (q / 2) (f a) else combine f n (q / 2) (f a)

/-- A polynomial in the step, applied to a word; the bits of `q` are its coefficients. -/
def apply (q : Nat) (w : UInt64) : UInt64 := combine advance 64 q w

theorem combine_xor_left (n q r : Nat) (w : UInt64) :
    combine advance n (q ^^^ r) w = combine advance n q w ^^^ combine advance n r w := by
  induction n generalizing q r w with
  | zero => exact UInt64.xor_self.symm
  | succ n ih =>
    simp only [combine, Nat.testBit_xor, Nat.xor_div_two, ih]
    cases hq : q.testBit 0 <;> cases hr : r.testBit 0 <;>
      simp only [Bool.xor_false, Bool.xor_true, Bool.not_false, Bool.not_true, reduceIte,
        Bool.false_eq_true]
    · ac_rfl
    · ac_rfl
    · rw [UInt64.xor_assoc, ← UInt64.xor_assoc (combine advance n (q / 2) (advance w)) w,
        UInt64.xor_comm _ w, UInt64.xor_assoc w, ← UInt64.xor_assoc w w, UInt64.xor_self,
        UInt64.zero_xor]

theorem combine_xor (n q : Nat) (v w : UInt64) :
    combine advance n q (v ^^^ w) = combine advance n q v ^^^ combine advance n q w := by
  induction n generalizing q v w with
  | zero => exact UInt64.xor_self.symm
  | succ n ih =>
    simp only [combine, advance_xor, ih]
    split
    · ac_rfl
    · rfl

theorem combine_zero (n q : Nat) : combine advance n q 0 = 0 := by
  have h := combine_xor n q 0 0
  rwa [UInt64.xor_self, UInt64.xor_self] at h

theorem combine_zero_left (n : Nat) (w : UInt64) : combine advance n 0 w = 0 := by
  have h := combine_xor_left n 0 0 w
  rwa [Nat.xor_self, UInt64.xor_self] at h

theorem combine_one (n : Nat) (w : UInt64) : combine advance (n + 1) 1 w = w := by
  simp [combine, combine_zero_left]

theorem advance_combine (n q : Nat) (w : UInt64) :
    advance (combine advance n q w) = combine advance n q (advance w) := by
  induction n generalizing q w with
  | zero => exact advance_zero
  | succ n ih =>
    simp only [combine]
    split
    · rw [advance_xor, ih]
    · rw [ih]

theorem combine_succ_of_testBit (h : q.testBit n = false) :
    combine advance (n + 1) q w = combine advance n q w := by
  induction n generalizing q w with
  | zero => simp [combine, h]
  | succ n ih =>
    rw [Nat.testBit_succ] at h
    rw [combine, ih h]
    rfl

theorem combine_double (n q : Nat) (w : UInt64) :
    combine advance (n + 1) (2 * q) w = combine advance n q (advance w) := by
  simp [combine]

theorem lt_two_pow_of_testBit (h : q < 2 ^ (n + 1)) (hbit : q.testBit n = false) :
    q < 2 ^ n := by
  apply Nat.lt_pow_two_of_testBit
  intro i hi
  obtain rfl | hlt := Nat.eq_or_lt_of_le hi
  · exact hbit
  · exact Nat.testBit_lt_two_pow (h.trans_le (Nat.pow_le_pow_right Nat.two_pos hlt))

/-- Words that agree on all powers of two as linear functions of them do agree. -/
theorem eq_zero_of_bits {f : UInt64 → UInt64} (hadd : ∀ v w, f (v ^^^ w) = f v ^^^ f w)
    (hbits : ∀ i < 64, f (UInt64.ofNat (2 ^ i)) = 0) (w : UInt64) : f w = 0 := by
  suffices h : ∀ n ≤ 64, ∀ w : UInt64, w.toNat < 2 ^ n → f w = 0 from
    h 64 le_rfl w w.toNat_lt
  intro n
  induction n with
  | zero =>
    intro _ w hw
    obtain rfl : w = 0 := UInt64.toNat_inj.mp (by simpa using hw)
    have hzero := hadd 0 0
    rwa [UInt64.xor_self, UInt64.xor_self] at hzero
  | succ n ih =>
    intro hn w hw
    cases hbit : w.toNat.testBit n with
    | false => exact ih (by omega) w (lt_two_pow_of_testBit hw hbit)
    | true =>
      let b := UInt64.ofNat (2 ^ n)
      have hb : b.toNat = 2 ^ n :=
        UInt64.toNat_ofNat_of_lt' (Nat.pow_lt_pow_right (by decide) hn)
      have hlow : (w ^^^ b).toNat < 2 ^ n := by
        rw [UInt64.toNat_xor, hb]
        apply lt_two_pow_of_testBit
        · exact Nat.xor_lt_two_pow hw (Nat.pow_lt_pow_right (by decide) n.lt_succ_self)
        · rw [Nat.testBit_xor, hbit, Nat.testBit_two_pow_self, Bool.xor_self]
      have hsplit := hadd (w ^^^ b) b
      rwa [UInt64.xor_assoc, UInt64.xor_self, UInt64.xor_zero, ih (by omega) _ hlow,
        hbits n hn, UInt64.xor_self] at hsplit

/-- The characteristic polynomial of the step. -/
def vanishing : Nat := 0x1013ed4a358913201

theorem combine_vanishing_bit :
    ∀ i < 64, combine advance 65 vanishing (UInt64.ofNat (2 ^ i)) = 0 := by
  decide +kernel

theorem combine_vanishing (w : UInt64) : combine advance 65 vanishing w = 0 :=
  eq_zero_of_bits (combine_xor 65 vanishing) combine_vanishing_bit w

/-- The product with the step. -/
def timesStep (q : Nat) : Nat := if q.testBit 63 then 2 * q ^^^ vanishing else 2 * q

theorem testBit_timesStep (q : Nat) : (timesStep q).testBit 64 = false := by
  have hdouble : (2 * q).testBit 64 = q.testBit 63 := by
    rw [Nat.testBit_succ, Nat.mul_div_cancel_left q Nat.two_pos]
  unfold timesStep
  cases h : q.testBit 63 with
  | false => rw [if_neg Bool.false_ne_true, hdouble, h]
  | true => rw [if_pos rfl, Nat.testBit_xor, hdouble, h]; rfl

theorem apply_timesStep (q : Nat) (w : UInt64) : apply (timesStep q) w = apply q (advance w) := by
  rw [apply, ← combine_succ_of_testBit (testBit_timesStep q), apply, ← combine_double, timesStep]
  split
  · rw [combine_xor_left, combine_vanishing, UInt64.xor_zero]
  · rfl

def times (q r : Nat) : Nat := combine timesStep 64 q r

theorem apply_xor_left (q r : Nat) (w : UInt64) : apply (q ^^^ r) w = apply q w ^^^ apply r w :=
  combine_xor_left 64 q r w

theorem advance_apply (q : Nat) (w : UInt64) : advance (apply q w) = apply q (advance w) :=
  advance_combine 64 q w

theorem apply_combine (n q r : Nat) (w : UInt64) :
    apply (combine timesStep n q r) w = combine advance n q (apply r w) := by
  induction n generalizing q r with
  | zero => exact combine_zero_left 64 w
  | succ n ih =>
    have hstep := ih (q / 2) (timesStep r)
    rw [apply_timesStep, ← advance_apply] at hstep
    simp only [combine]
    split
    · rw [apply_xor_left, hstep]
    · exact hstep

theorem apply_times (q r : Nat) (w : UInt64) : apply (times q r) w = apply q (apply r w) :=
  apply_combine 64 q r w

/-- The power of a polynomial to `n`, an exponent of at most `k` bits. -/
def power (q : Nat) : Nat → Nat → Nat
  | 0, _ => 1
  | k + 1, n =>
    if n.testBit 0 then times q (power (times q q) k (n / 2)) else power (times q q) k (n / 2)

theorem apply_one (w : UInt64) : apply 1 w = w := combine_one 63 w

theorem apply_two : apply 2 = advance :=
  funext fun w => (combine_double 63 1 w).trans (combine_one 62 (advance w))

theorem apply_power (h : n < 2 ^ k) (q : Nat) (w : UInt64) :
    apply (power q k n) w = (apply q)^[n] w := by
  induction k generalizing n q with
  | zero =>
    obtain rfl : n = 0 := by omega
    exact apply_one w
  | succ k ih =>
    have hsquare : apply (times q q) = (apply q)^[2] := funext (apply_times q q)
    have hhalf := ih (n := n / 2) (by omega) (times q q)
    rw [hsquare, ← iterate_mul] at hhalf
    rw [power]
    split
    · next hbit =>
      have hodd : n = 2 * (n / 2) + 1 := by
        rw [Nat.testBit_zero, decide_eq_true_eq] at hbit
        omega
      rw [apply_times, hhalf, ← iterate_succ_apply' (apply q), Nat.succ_eq_add_one, ← hodd]
    · next hbit =>
      have heven : n = 2 * (n / 2) := by
        rw [Nat.testBit_zero, decide_eq_true_eq] at hbit
        omega
      rw [hhalf, ← heven]

theorem apply_power_step (h : n < 2 ^ 64) (w : UInt64) :
    apply (power 2 64 n) w = advance^[n] w := by
  rw [apply_power h, apply_two]

def period : Nat := Word.size - 1

/-- The prime factors of the period, each with a polynomial whose product with
`advance^[period / p] - 1` is one. -/
def cofactors : List (Nat × Nat) :=
  [(3, 0xd742ca58f5d785e2), (5, 0xa3f64d1fb612f669), (17, 0x63f43995a1b49645),
    (257, 0x7d573a75b5260c4d), (641, 0x1ead61508d13286), (65537, 0xed7248a2317d33b1),
    (6700417, 0x483b08aa5d3741b5)]

theorem power_period : power 2 64 period = 1 := by decide +kernel

theorem times_cofactor :
    ∀ c ∈ cofactors, times c.2 (power 2 64 (period / c.1) ^^^ 1) = 1 := by
  decide +kernel

theorem iterate_period (w : UInt64) : advance^[period] w = w := by
  rw [← apply_power_step (by decide), power_period, apply_one]

theorem eq_zero_of_iterate_div {c : Nat × Nat} (hc : c ∈ cofactors)
    (h : advance^[period / c.1] w = w) : w = 0 := by
  have hle : period / c.1 < 2 ^ 64 := (Nat.div_le_self _ _).trans_lt (by decide)
  rw [← apply_power_step hle] at h
  have hcancel : apply (times c.2 (power 2 64 (period / c.1) ^^^ 1)) w = 0 := by
    rw [apply_times, apply_xor_left, h, apply_one, UInt64.xor_self]
    exact combine_zero 64 c.2
  rwa [times_cofactor c hc, apply_one] at hcancel

theorem period_eq_prod : period = (cofactors.map Prod.fst).prod := by decide

theorem prime_of_mem_cofactors : ∀ p ∈ cofactors.map Prod.fst, p.Prime := by
  simp [cofactors]; norm_num

theorem minimalPeriod_eq (hw : w ≠ 0) : minimalPeriod advance w = period := by
  have hdvd : minimalPeriod advance w ∣ period := IsPeriodicPt.minimalPeriod_dvd (iterate_period w)
  obtain ⟨m, hm⟩ := hdvd
  by_contra hne
  have hm1 : m ≠ 1 := by
    rintro rfl
    exact hne (by rw [hm, Nat.mul_one])
  obtain ⟨p, hp, k, rfl⟩ := Nat.exists_prime_and_dvd hm1
  have hmem : p ∈ cofactors.map Prod.fst := by
    apply mem_list_primes_of_dvd_prod hp.prime fun q hq => (prime_of_mem_cofactors q hq).prime
    rw [← period_eq_prod, hm]
    exact ⟨minimalPeriod advance w * k, by ring⟩
  obtain ⟨c, hc, rfl⟩ := List.mem_map.mp hmem
  have hdiv : period / c.1 = minimalPeriod advance w * k := by
    rw [hm, Nat.mul_left_comm, Nat.mul_div_cancel_left _ hp.pos]
  refine hw (eq_zero_of_iterate_div hc ?_)
  rw [hdiv]
  exact (isPeriodicPt_minimalPeriod advance w).mul_const k

theorem advance_injective : Injective advance := by
  have hround : advance^[period] = id := funext iterate_period
  obtain ⟨n, hn⟩ : ∃ n, period = n + 1 := ⟨Word.size - 2, by decide⟩
  rw [hn, iterate_succ] at hround
  exact LeftInverse.injective (congrFun hround)

theorem iterate_ne_zero (hw : w ≠ 0) (k : Nat) : advance^[k] w ≠ 0 := by
  rw [← iterate_fixed advance_zero k]
  exact fun h => hw (advance_injective.iterate k h)

theorem toNat_mem_Ico (hw : w ≠ 0) : w.toNat ∈ Finset.Ico 1 Word.size := by
  rw [Finset.mem_Ico]
  exact ⟨Nat.pos_of_ne_zero fun h => hw (UInt64.toNat_inj.mp h), w.toNat_lt⟩

/-- From a word that is not zero the step leads to all such words before it comes
round. -/
theorem exists_iterate (hw : w ≠ 0) (hv : v ≠ 0) : ∃ k < period, advance^[k] w = v := by
  obtain ⟨k, hk, hkv⟩ := Finset.surj_on_of_inj_on_of_card_le
    (fun k (_ : k ∈ Finset.range period) => (advance^[k] w).toNat)
    (fun k _ => toNat_mem_Ico (iterate_ne_zero hw k))
    (fun j k hj hk h => by
      rw [Finset.mem_range, ← minimalPeriod_eq hw] at hj hk
      exact iterate_injOn_Iio_minimalPeriod hj hk (UInt64.toNat_inj.mp h))
    (by rw [Nat.card_Ico, Finset.card_range, period]) v.toNat (toNat_mem_Ico hv)
  exact ⟨k, Finset.mem_range.mp hk, (UInt64.toNat_inj.mp hkv).symm⟩

end HalfDuplex.Xorshift
