import HalfDuplex.Proofs.Durations.Draws

/-!
# Words that are passed over

A draw below a bound passes words over as long as the low half of their product with
the bound is less than the remainder of `2 ^ 64` by the bound. From every seed, and
whatever was drawn before, it comes to a word that it need not pass over.
-/

namespace HalfDuplex.Durations

open Xorshift

variable {g : Xorshift} {upper fuel k v x : Nat}

/-- What may have been drawn from a generator before: a word, or a number below a
bound. -/
inductive Draw where
  | word
  | below (upper : UInt64)

/-- The generator that a draw leaves. The bound 0 is a fault, and then it is the one
that was drawn from. -/
def Draw.leave (g : Xorshift) : Draw → Xorshift
  | .word => g.next
  | .below upper =>
    match ((Source.seeded g).next upper.toNat).state with
    | .seeded g' => g'
    | .fixed _ => g

/-- The generator of a seed after some draws. -/
def drawnFrom (seed : Nat) (earlier : List Draw) : Xorshift :=
  earlier.foldl Draw.leave (ofSeed seed)

theorem threshold_eq (hword : upper < Word.size) : threshold upper = Word.size % upper :=
  (Nat.mod_eq_sub_mod hword.le).symm

theorem isPowerOfTwo_iff {n : Nat} : isPowerOfTwo n = true ↔ n.isPowerOfTwo := by
  unfold isPowerOfTwo
  rw [beq_iff_eq, Nat.one_shiftLeft]
  constructor
  · intro h
    exact ⟨n.log2, h.symm⟩
  · rintro ⟨k, rfl⟩
    rw [Nat.log2_two_pow]

theorem size_mod_of_isPowerOfTwo (h : isPowerOfTwo upper = true) (hword : upper < Word.size) :
    Word.size % upper = 0 := by
  obtain ⟨k, rfl⟩ := isPowerOfTwo_iff.mp h
  have hk : k < 64 := (Nat.pow_lt_pow_iff_right (by decide)).mp hword
  exact Nat.mod_eq_zero_of_dvd (Nat.pow_dvd_pow 2 hk.le)

/-- The number that a word stands for unless it is passed over. -/
def number (upper x : Nat) : Nat := if isPowerOfTwo upper then x % upper else x * upper / Word.size

theorem pick_eq (hword : upper < Word.size) : pick upper x =
    if x * upper % Word.size < Word.size % upper then none else some (number upper x) := by
  unfold pick number
  dsimp only
  rw [threshold_eq hword]
  split
  · next hpow => rw [size_mod_of_isPowerOfTwo hpow hword, if_neg (Nat.not_lt_zero _)]
  · rfl

theorem pick_eq_none_iff (hword : upper < Word.size) :
    pick upper x = none ↔ x * upper % Word.size < Word.size % upper := by
  rw [pick_eq hword]
  split <;> simp_all

theorem pick_eq_some_iff (hword : upper < Word.size) : pick upper x = some v ↔
    Word.size % upper ≤ x * upper % Word.size ∧ v = number upper x := by
  rw [pick_eq hword]
  split
  · next h => simp [Nat.not_le_of_lt h]
  · next h => simp [Nat.le_of_not_lt h, eq_comm]

theorem drawWithin_eq_of_first (hk : k < fuel)
    (hpassed : ∀ j < k, pick upper (g.after (j + 1)).word.toNat = none)
    (haccepted : pick upper (g.after (k + 1)).word.toNat = some v) :
    drawWithin upper fuel g = some (v, g.after (k + 1)) := by
  induction fuel generalizing g k with
  | zero => exact absurd hk (Nat.not_lt_zero k)
  | succ fuel ih =>
    rw [drawWithin]
    cases k with
    | zero =>
      change pick upper g.next.word.toNat = some v at haccepted
      rw [haccepted]
      rfl
    | succ k =>
      have hfirst : pick upper g.next.word.toNat = none := hpassed 0 (Nat.succ_pos k)
      rw [hfirst]
      exact ih (Nat.lt_of_succ_lt_succ hk) (fun j hj => hpassed (j + 1) (Nat.succ_lt_succ hj))
        haccepted

theorem Draw.exists_after_leave (hg : g.word ≠ 0) (d : Draw) : ∃ k, d.leave g = g.after k := by
  cases d with
  | word => exact ⟨1, rfl⟩
  | below upper =>
    dsimp only [Draw.leave]
    obtain hzero | hpos := Nat.eq_zero_or_pos upper.toNat
    · rw [hzero]
      exact ⟨0, rfl⟩
    · obtain ⟨-, k, hk⟩ := below_spec hg hpos upper.toNat_lt
      rw [Source.next_seeded g hpos]
      exact ⟨k, hk⟩

theorem Draw.word_leave_ne_zero (hg : g.word ≠ 0) (d : Draw) : (d.leave g).word ≠ 0 := by
  obtain ⟨k, hk⟩ := d.exists_after_leave hg
  rw [hk]
  exact word_after_ne_zero hg k

theorem word_foldl_leave_ne_zero (hg : g.word ≠ 0) (earlier : List Draw) :
    (earlier.foldl Draw.leave g).word ≠ 0 := by
  induction earlier generalizing g with
  | nil => exact hg
  | cons d earlier ih => exact ih (d.word_leave_ne_zero hg)

theorem word_drawnFrom_ne_zero (seed : Nat) (earlier : List Draw) :
    (drawnFrom seed earlier).word ≠ 0 :=
  word_foldl_leave_ne_zero (word_ofSeed_ne_zero seed) earlier

/-- The low half of the product of a bound with the word that comes after `j` others. -/
def lowHalf (upper : Nat) (g : Xorshift) (j : Nat) : Nat :=
  (g.after (j + 1)).word.toNat * upper % Word.size

theorem exists_first_accepted (hg : g.word ≠ 0) (hupper : 0 < upper) (hword : upper < Word.size) :
    ∃ k < Word.size, (∀ j < k, pick upper (g.after (j + 1)).word.toNat = none) ∧
      pick upper (g.after (k + 1)).word.toNat = some (g.below upper).1 ∧
      (g.below upper).2 = g.after (k + 1) := by
  obtain ⟨k, hk, hafter, haccepted, hpassed⟩ :=
    drawWithin_eq_some (drawWithin_eq_below hg hupper hword)
  rw [hafter] at haccepted
  exact ⟨k, hk, hpassed, haccepted, hafter⟩

/-- A draw ends, from every seed and whatever was drawn before. Some words are passed
over, and there comes one whose low half is large enough; the draw then yields the
number it stands for, with any fuel that reaches it. -/
theorem draw_comes_to_accepted_word (seed : Nat) (earlier : List Draw) (upper : UInt64)
    (hupper : 0 < upper) :
    ∃ k < Word.size,
      (∀ j < k, lowHalf upper.toNat (drawnFrom seed earlier) j < Word.size % upper.toNat) ∧
      Word.size % upper.toNat ≤ lowHalf upper.toNat (drawnFrom seed earlier) k ∧
      (∀ fuel > k, drawWithin upper.toNat fuel (drawnFrom seed earlier) =
        some ((drawnFrom seed earlier).below upper.toNat)) ∧
      (drawnFrom seed earlier).below upper.toNat =
        (number upper.toNat ((drawnFrom seed earlier).after (k + 1)).word.toNat,
          (drawnFrom seed earlier).after (k + 1)) := by
  have hword : upper.toNat < Word.size := upper.toNat_lt
  have hpos : 0 < upper.toNat := UInt64.lt_iff_toNat_lt.mp hupper
  obtain ⟨k, hk, hpassed, haccepted, hafter⟩ :=
    exists_first_accepted (word_drawnFrom_ne_zero seed earlier) hpos hword
  obtain ⟨hlow, hnumber⟩ := (pick_eq_some_iff hword).mp haccepted
  refine ⟨k, hk, fun j hj => (pick_eq_none_iff hword).mp (hpassed j hj), hlow,
    fun fuel hfuel => ?_, Prod.ext hnumber hafter⟩
  rw [drawWithin_eq_of_first hfuel hpassed haccepted, ← hafter]

def worn : Xorshift := drawnFrom 0 [.word, .below 0, .below 10, .below 0x10000000000]

/-- Nearly half of all words are too low for this bound; here the first four are. -/
theorem draw_comes_to_accepted_word_after_four :
    (0 : UInt64) < 0x8000000000000001 ∧
      (∀ j < 4, lowHalf 0x8000000000000001 worn j < Word.size % 0x8000000000000001) ∧
      worn.below 0x8000000000000001 = (7842240945599428725, worn.after 5) := by
  have hupper : (0 : UInt64) < 0x8000000000000001 := by decide
  have hpassed : ∀ j < 4, lowHalf 0x8000000000000001 worn j < Word.size % 0x8000000000000001 := by
    decide +kernel
  have haccepted : ¬ lowHalf 0x8000000000000001 worn 4 < Word.size % 0x8000000000000001 := by
    decide +kernel
  obtain ⟨k, -, hbefore, hat, -, hbelow⟩ := draw_comes_to_accepted_word 0
    [.word, .below 0, .below 10, .below 0x10000000000] 0x8000000000000001 hupper
  -- The word that is promised is the fifth: no earlier one is accepted, and that one is.
  have hle : k ≤ 4 := Nat.le_of_not_lt fun h => haccepted (hbefore 4 h)
  have hge : 4 ≤ k := Nat.le_of_not_lt fun h => Nat.not_lt_of_le hat (hpassed k h)
  obtain rfl : k = 4 := Nat.le_antisymm hle hge
  have hnumber : number 0x8000000000000001 (worn.after 5).word.toNat = 7842240945599428725 := by
    decide +kernel
  exact ⟨hupper, hpassed, hnumber ▸ hbelow⟩

end HalfDuplex.Durations
