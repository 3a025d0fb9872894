import HalfDuplex.Proofs.Durations.Rejection
import Mathlib.Data.Set.Function

/-!
# Streams of words

The step permutes the words other than 0. So a generator never comes to the word from
which no other follows, and two generators that start at different words are at
different words for ever.
-/

namespace HalfDuplex.Durations

open Function Xorshift

variable {g h : Xorshift} {k : Nat}

theorem bijOn_advance : Set.BijOn advance {0}ᶜ {0}ᶜ := by
  refine ⟨fun w hw => iterate_ne_zero hw 1, advance_injective.injOn, fun v hv => ?_⟩
  -- The word before `v` is the one that a whole round less one step leads to.
  obtain ⟨n, hn⟩ : ∃ n, period = n + 1 := ⟨Word.size - 2, by decide⟩
  refine ⟨advance^[n] v, iterate_ne_zero hv n, ?_⟩
  rw [← iterate_succ_apply' advance, Nat.succ_eq_add_one, ← hn, iterate_period]

theorem word_after_eq_iff : (g.after k).word = (h.after k).word ↔ g.word = h.word := by
  rw [word_after, word_after]
  exact (advance_injective.iterate k).eq_iff

theorem word_ofSeed (seed : UInt64) :
    (ofSeed seed.toNat).word = if seed = 0 then zeroSeed else seed := by
  rw [ofSeed, UInt64.ofNat_toNat]

/-- The step is a bijection of the words other than 0, and no seed starts at 0: another
word stands in for the seed 0. So whatever was drawn from a generator, it neither is nor
comes to the word 0; and the words drawn from two generators differ one by one if the
words that they start at do. -/
theorem streams_never_meet :
    Set.BijOn advance {0}ᶜ {0}ᶜ ∧
    (∀ seed : UInt64,
      (ofSeed seed.toNat).word = if seed = 0 then 0x9E3779B97F4A7C15 else seed) ∧
    (∀ (seed : UInt64) (earlier : List Draw) (k : Nat),
      ((drawnFrom seed.toNat earlier).after k).word ≠ 0) ∧
    ∀ seed other : UInt64, (ofSeed seed.toNat).word ≠ (ofSeed other.toNat).word →
      ∀ k, ((ofSeed seed.toNat).after (k + 1)).word ≠
        ((ofSeed other.toNat).after (k + 1)).word := by
  refine ⟨bijOn_advance, word_ofSeed, fun seed earlier k => ?_, fun seed other hstart k => ?_⟩
  · exact word_after_ne_zero (word_drawnFrom_ne_zero seed.toNat earlier) k
  · exact mt word_after_eq_iff.mp hstart

/-- The seed 0 starts at the word of another seed, and never draws the word that the
seed 1 draws in its place. -/
theorem streams_never_meet_from_zero :
    (ofSeed 0).word = (ofSeed 0x9E3779B97F4A7C15).word ∧ (ofSeed 0).word ≠ (ofSeed 1).word ∧
      ∀ k, ((ofSeed 0).after (k + 1)).word ≠ ((ofSeed 1).after (k + 1)).word := by
  obtain ⟨-, -, -, hdiffer⟩ := streams_never_meet
  exact ⟨by decide, by decide, hdiffer 0 1 (by decide)⟩

end HalfDuplex.Durations
