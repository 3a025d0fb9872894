import HalfDuplex.Batch.Config

/-!
# How long a transfer lasts

The ticks of a transfer are cut off at 32 bits and its seconds at 64, and between the two
the nanoseconds carry into the seconds. What comes out is the exact product of the tick and
of the ticks that are counted, or the longest span there is.
-/

namespace HalfDuplex

namespace Span

variable {s t : Span} {k n : Nat}

/-- The seconds fit a word, and the nanoseconds make up no second. -/
structure Normal (s : Span) : Prop where
  seconds_lt : s.seconds < Word.size
  nanos_lt : s.nanos < nanosPerSecond

instance : LE Span := ⟨fun s t => s.seconds < t.seconds ∨ s.seconds = t.seconds ∧ s.nanos ≤ t.nanos⟩

theorem nanosPerSecond_pos : 0 < nanosPerSecond := by decide

theorem toNanos_longest : longest.toNanos = Word.size * nanosPerSecond - 1 := rfl

theorem toNanos_ofNanos (n : Nat) : (ofNanos n).toNanos = n := by
  unfold toNanos ofNanos
  dsimp only
  rw [Nat.mul_comm]
  exact Nat.div_add_mod n nanosPerSecond

theorem normal_longest : longest.Normal := ⟨by decide, by decide⟩

theorem normal_ofNanos (h : n < Word.size * nanosPerSecond) : (ofNanos n).Normal :=
  ⟨(Nat.div_lt_iff_lt_mul nanosPerSecond_pos).mpr h, Nat.mod_lt n nanosPerSecond_pos⟩

theorem Normal.toNanos_eq_zero_iff (h : s.Normal) : s.toNanos = 0 ↔ s = zero := by
  obtain ⟨seconds, nanos⟩ := s
  have hpos := nanosPerSecond_pos
  unfold toNanos zero
  dsimp only
  constructor
  · intro hzero
    obtain ⟨hseconds, rfl⟩ := Nat.add_eq_zero_iff.mp hzero
    obtain rfl | hnone := Nat.mul_eq_zero.mp hseconds
    · rfl
    · omega
  · rintro ⟨⟩
    rfl

theorem Normal.le_iff (hs : s.Normal) (ht : t.Normal) : s ≤ t ↔ s.toNanos ≤ t.toNanos := by
  have hsn := hs.nanos_lt
  have htn := ht.nanos_lt
  change s.seconds < t.seconds ∨ s.seconds = t.seconds ∧ s.nanos ≤ t.nanos ↔ _
  unfold toNanos
  unfold nanosPerSecond at *
  omega

theorem toNanos_mul_div (s : Span) (k : Nat) :
    s.toNanos * k / nanosPerSecond = s.seconds * k + s.nanos * k / nanosPerSecond := by
  unfold toNanos
  rw [Nat.add_mul, Nat.mul_right_comm, Nat.add_comm, Nat.add_mul_div_right _ _ nanosPerSecond_pos,
    Nat.add_comm]

theorem toNanos_mul_mod (s : Span) (k : Nat) :
    s.toNanos * k % nanosPerSecond = s.nanos * k % nanosPerSecond := by
  unfold toNanos
  rw [Nat.add_mul, Nat.mul_right_comm, Nat.add_comm, Nat.add_mul_mod_self_right]

/-- The carry belongs to the seconds before they are held against a word. -/
theorem times_eq (s : Span) (k : Nat) : s.times k =
    if s.toNanos * k < Word.size * nanosPerSecond then ofNanos (s.toNanos * k) else longest := by
  unfold times ofNanos
  dsimp only
  rw [← toNanos_mul_div, ← toNanos_mul_mod]
  simp only [Nat.div_lt_iff_lt_mul nanosPerSecond_pos]

theorem normal_times (s : Span) (k : Nat) : (s.times k).Normal := by
  rw [times_eq]
  split
  · next h => exact normal_ofNanos h
  · exact normal_longest

theorem toNanos_times (s : Span) (k : Nat) :
    (s.times k).toNanos = min (s.toNanos * k) longest.toNanos := by
  have hlongest := toNanos_longest
  rw [times_eq]
  split
  · rw [toNanos_ofNanos]
    omega
  · omega

theorem times_le_times (hst : s.toNanos ≤ t.toNanos) {j : Nat} (hjk : j ≤ k) :
    s.times j ≤ t.times k := by
  rw [(normal_times s j).le_iff (normal_times t k), toNanos_times, toNanos_times]
  have hmul := Nat.mul_le_mul hst hjk
  omega

theorem Normal.times_eq_zero_iff (h : s.Normal) : s.times k = zero ↔ s = zero ∨ k = 0 := by
  have hlongest : 0 < longest.toNanos := by decide
  rw [← (normal_times s k).toNanos_eq_zero_iff, toNanos_times, ← h.toNanos_eq_zero_iff,
    ← Nat.mul_eq_zero]
  omega

end Span

namespace Batch.Config

variable {c : Config}

theorem nanos_mul_lt (hn : c.tick.Normal) (ticks : Nat) :
    c.tick.nanos * min ticks longestTicks < Word.size :=
  calc c.tick.nanos * min ticks longestTicks
      ≤ Span.nanosPerSecond * longestTicks :=
        Nat.mul_le_mul (Nat.le_of_lt hn.nanos_lt) (Nat.min_le_right ..)
    _ < Word.size := by decide

/-- A transfer lasts the product of the tick and of its ticks, of which no more count than
32 bits hold, or as long as a span can if that is shorter: for every tick and every number
of ticks, to the nanosecond. So more ticks never last shorter, nor does a longer tick, and
a transfer takes no time only if it has no ticks or its ticks take none. -/
theorem transfer_time_is_clamped_product (hn : c.tick.Normal) (ticks : Nat) :
    (c.transferTime ticks).Normal ∧
    c.tick.nanos * min ticks (UInt32.size - 1) < Word.size ∧
    (c.transferTime ticks).toNanos =
      min (c.tick.toNanos * min ticks (UInt32.size - 1)) (Word.size * 1000000000 - 1) ∧
    (∀ more, ticks ≤ more → c.transferTime ticks ≤ c.transferTime more) ∧
    (∀ d : Config, d.tick.Normal → c.tick ≤ d.tick → c.transferTime ticks ≤ d.transferTime ticks) ∧
    (c.transferTime ticks = Span.zero ↔ c.tick = Span.zero ∨ ticks = 0) := by
  refine ⟨Span.normal_times _ _, nanos_mul_lt hn ticks, Span.toNanos_times _ _,
    fun more hle => ?_, fun d hd hle => ?_, ?_⟩
  · exact Span.times_le_times (Nat.le_refl _) (by omega)
  · exact Span.times_le_times ((hn.le_iff hd).mp hle) (Nat.le_refl _)
  · have hlongest : 0 < longestTicks := by decide
    have hcounted : min ticks longestTicks = 0 ↔ ticks = 0 := by omega
    unfold transferTime
    rw [hn.times_eq_zero_iff, hcounted]

/-- The seconds of the product fit a word, and those with the carry do not. One tick less
is exact. -/
theorem transfer_time_is_clamped_product_by_carry :
    let c : Config := { tick := ⟨UInt32.size + 1, 1⟩ }
    c.tick.Normal ∧ c.tick.seconds * (UInt32.size - 1) + 1 = Word.size ∧
      c.transferTime (2 * UInt32.size) = Span.longest ∧
      (c.transferTime (2 * UInt32.size)).toNanos = Word.size * 1000000000 - 1 ∧
      (c.transferTime (UInt32.size - 2)).toNanos = c.tick.toNanos * (UInt32.size - 2) := by
  intro c
  have hn : c.tick.Normal := ⟨by decide, by decide⟩
  obtain ⟨-, -, hlong, -⟩ := transfer_time_is_clamped_product hn (2 * UInt32.size)
  obtain ⟨-, -, hexact, -⟩ := transfer_time_is_clamped_product hn (UInt32.size - 2)
  exact ⟨hn, by decide, by decide, hlong.trans (by decide), hexact.trans (by decide)⟩

end Batch.Config

end HalfDuplex
