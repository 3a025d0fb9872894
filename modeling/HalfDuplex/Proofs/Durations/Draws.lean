import HalfDuplex.Proofs.Durations.Period

/-!
# Drawing durations

The largest word is accepted for every bound, and the generator comes to it from
every seed before its words repeat. So a draw ends, whatever was drawn before it,
and the number drawn is below the bound.
-/

namespace HalfDuplex.Durations

open Function Xorshift

variable {g : Xorshift} {s rest : Source} {upper fuel k v x ticks : Nat}

theorem word_after (g : Xorshift) (k : Nat) : (g.after k).word = advance^[k] g.word := by
  induction k generalizing g with
  | zero => rfl
  | succ k ih => rw [after_succ, ih, iterate_succ_apply]; rfl

theorem word_ofSeed_ne_zero (seed : Nat) : (ofSeed seed).word ≠ 0 := by
  unfold ofSeed
  dsimp only
  split
  · decide
  · assumption

theorem word_after_ne_zero (hg : g.word ≠ 0) (k : Nat) : (g.after k).word ≠ 0 := by
  rw [word_after]
  exact iterate_ne_zero hg k

theorem pick_lt (hupper : 0 < upper) (hx : x < Word.size) (h : pick upper x = some v) :
    v < upper := by
  unfold pick at h
  dsimp only at h
  split at h
  · cases h
    exact Nat.mod_lt x hupper
  · split at h
    · cases h
    · cases h
      exact Nat.div_lt_of_lt_mul (Nat.mul_lt_mul_of_pos_right hx hupper)

theorem largest_mul_mod (hupper : 0 < upper) (hword : upper < Word.size) :
    Word.largest * upper % Word.size = Word.size - upper := by
  obtain ⟨d, hd⟩ := Nat.exists_eq_add_of_lt hword
  have hlargest : Word.largest = upper + d := by rw [Word.largest, hd, Nat.add_sub_cancel]
  have hrest : Word.size - upper = d + 1 := by omega
  obtain ⟨n, rfl⟩ := Nat.exists_eq_add_one.mpr hupper
  have hsplit : (n + 1 + d) * (n + 1) = Word.size * n + (d + 1) := by
    rw [hd]
    ring
  rw [hlargest, hsplit, Nat.mul_add_mod, hrest]
  exact Nat.mod_eq_of_lt (by omega)

theorem pick_largest (hupper : 0 < upper) (hword : upper < Word.size) :
    pick upper Word.largest ≠ none := by
  unfold pick
  dsimp only
  split
  · exact Option.some_ne_none _
  · rw [largest_mul_mod hupper hword, threshold, if_neg (Nat.not_lt_of_le (Nat.mod_le _ _))]
    exact Option.some_ne_none _

theorem exists_drawWithin (hk : k < fuel)
    (haccepted : pick upper (g.after (k + 1)).word.toNat ≠ none) :
    ∃ drawn, drawWithin upper fuel g = some drawn := by
  induction fuel generalizing g k with
  | zero => exact absurd hk (Nat.not_lt_zero k)
  | succ fuel ih =>
    rw [drawWithin]
    split
    · exact ⟨_, rfl⟩
    · next hpassed =>
      cases k with
      | zero => exact absurd hpassed haccepted
      | succ k => exact ih (Nat.lt_of_succ_lt_succ hk) haccepted

/-- The generator comes to the largest word before it has gone all the way round. -/
theorem exists_after_eq_largest (hg : g.word ≠ 0) :
    ∃ k < Word.size, (g.after (k + 1)).word.toNat = Word.largest := by
  obtain ⟨k, hk, hlargest⟩ :=
    exists_iterate (w := advance g.word) (v := UInt64.ofNat Word.largest)
      (iterate_ne_zero hg 1) (by decide)
  refine ⟨k, hk.trans (by decide), ?_⟩
  rw [word_after, iterate_succ_apply, hlargest]
  rfl

theorem drawWithin_eq_below (hg : g.word ≠ 0) (hupper : 0 < upper) (hword : upper < Word.size) :
    drawWithin upper Word.size g = some (g.below upper) := by
  obtain ⟨k, hk, hlargest⟩ := exists_after_eq_largest hg
  have haccepted : pick upper (g.after (k + 1)).word.toNat ≠ none := by
    rw [hlargest]
    exact pick_largest hupper hword
  obtain ⟨drawn, hdrawn⟩ := exists_drawWithin hk haccepted
  rw [below, hdrawn, Option.getD_some]

theorem below_spec (hg : g.word ≠ 0) (hupper : 0 < upper) (hword : upper < Word.size) :
    (g.below upper).1 < upper ∧ ∃ k, (g.below upper).2 = g.after k := by
  obtain ⟨k, -, hafter, hpick, -⟩ := drawWithin_eq_some (drawWithin_eq_below hg hupper hword)
  exact ⟨pick_lt hupper (UInt64.toNat_lt _) hpick, k + 1, hafter⟩

theorem word_below_ne_zero (hg : g.word ≠ 0) (hupper : 0 < upper) (hword : upper < Word.size) :
    (g.below upper).2.word ≠ 0 := by
  obtain ⟨-, k, hafter⟩ := below_spec hg hupper hword
  rw [hafter]
  exact word_after_ne_zero hg k

theorem Cycle.next_lt {c rest : Cycle} (hupper : 0 < upper) (h : c.next upper = .done rest v) :
    v < upper := by
  unfold Cycle.next at h
  split at h
  · cases h
    exact hupper
  · split at h
    · cases h
      exact (Nat.min_le_right _ _).trans_lt (Nat.sub_one_lt hupper.ne')
    · cases h

theorem Source.next_seeded (g : Xorshift) (hupper : 0 < upper) :
    (Source.seeded g).next upper = .done (.seeded (g.below upper).2) (g.below upper).1 := by
  rw [Source.next, if_neg hupper.ne']

theorem Source.next_fixed (c : Cycle) (hupper : 0 < upper) :
    (Source.fixed c).next upper = (c.next upper).within .fixed id := by
  rw [Source.next, if_neg hupper.ne']

/-- The generator of a source is never at the word from which no other follows. -/
def Source.Live : Source → Prop
  | .seeded g => g.word ≠ 0
  | .fixed _ => True

theorem live_ofSeed (seed : Nat) : (Source.ofSeed seed).Live := word_ofSeed_ne_zero seed

theorem Source.Live.next (hs : s.Live) (hword : upper < Word.size) : (s.next upper).state.Live := by
  obtain rfl | hupper := Nat.eq_zero_or_pos upper
  · exact hs
  cases s with
  | seeded g =>
    rw [Source.next_seeded g hupper]
    exact word_below_ne_zero hs hupper hword
  | fixed c =>
    rw [Source.next_fixed c hupper]
    trivial

theorem Source.Live.next_lt (hs : s.Live) (hword : upper < Word.size)
    (h : s.next upper = .done rest ticks) : ticks < upper := by
  obtain rfl | hupper := Nat.eq_zero_or_pos upper
  · cases h
  cases s with
  | seeded g =>
    rw [Source.next_seeded g hupper] at h
    cases h
    exact (below_spec hs hupper hword).1
  | fixed c =>
    rw [Source.next_fixed c hupper] at h
    obtain ⟨c', hc, -⟩ := Outcome.within_eq_done_iff.mp h
    exact Cycle.next_lt hupper hc

/-- There is room for `n` draws more in the count of draws from a list. -/
def Source.HasRoom (n : Nat) : Source → Prop
  | .seeded _ => True
  | .fixed c => c.values = [] ∨ c.drawn + n < Word.size

theorem hasRoom_ofSeed (n seed : Nat) : (Source.ofSeed seed).HasRoom n := trivial

theorem Source.hasRoom_zero (s : Source) : s.HasRoom 0 := by
  cases s with
  | seeded g => trivial
  | fixed c => exact .inr c.fits

theorem Source.HasRoom.mono {n m : Nat} (h : s.HasRoom n) (hle : m ≤ n) : s.HasRoom m := by
  cases s with
  | seeded g => trivial
  | fixed c => exact h.imp_right (Nat.add_le_add_left hle _).trans_lt

theorem Cycle.next_empty (c : Cycle) (h : c.values = []) : c.next upper = .done c 0 := by
  rw [Cycle.next, h]
  rfl

theorem Cycle.next_value (c : Cycle) (h : c.values ≠ []) (upper : Nat) :
    ∃ v, c.values[c.drawn % c.values.length]? = some v ∧
      c.next upper = if hroom : c.drawn + 1 < Word.size then
        .done ⟨c.values, c.drawn + 1, hroom⟩ (min v (upper - 1)) else .fault c .countOverflow := by
  have hlt : c.drawn % c.values.length < c.values.length :=
    Nat.mod_lt _ (List.length_pos_iff.mpr h)
  have hv := List.getElem?_eq_getElem hlt
  refine ⟨_, hv, ?_⟩
  rw [Cycle.next, hv]

/-- While there is room, draws go on, and each takes up room for one. -/
theorem Source.next_of_room (hupper : 0 < upper) (hroom : s.HasRoom 1) :
    ∃ rest ticks, s.next upper = .done rest ticks ∧
      ∀ n, rest.HasRoom n ↔ s.HasRoom (n + 1) := by
  cases s with
  | seeded g => exact ⟨_, _, Source.next_seeded g hupper, fun n => Iff.rfl⟩
  | fixed c =>
    rw [Source.next_fixed c hupper]
    by_cases hempty : c.values = []
    · rw [c.next_empty hempty]
      exact ⟨_, _, rfl, fun n => iff_of_true (.inl hempty) (.inl hempty)⟩
    · obtain ⟨v, -, hnext⟩ := c.next_value hempty upper
      rw [hnext, dif_pos (hroom.resolve_left hempty)]
      refine ⟨_, _, rfl, fun n => ?_⟩
      change c.values = [] ∨ c.drawn + 1 + n < Word.size ↔ c.values = [] ∨ _
      rw [Nat.add_assoc, Nat.add_comm 1]

theorem Source.next_of_full (hupper : 0 < upper) (hfull : ¬ s.HasRoom 1) :
    s.next upper = .fault s .countOverflow := by
  cases s with
  | seeded g => exact absurd trivial hfull
  | fixed c =>
    obtain ⟨hvalues, hdrawn⟩ := not_or.mp hfull
    obtain ⟨v, -, hnext⟩ := c.next_value hvalues upper
    rw [Source.next_fixed c hupper, hnext, dif_neg hdrawn]
    rfl

/-- A source after `k` draws below `upper`. -/
def Source.drawn (upper : Nat) (s : Source) : Nat → Source
  | 0 => s
  | k + 1 => ((s.drawn upper k).next upper).state

/-- The next draw below `upper` comes to an end. -/
def Source.Ends (upper : Nat) : Source → Prop
  | .seeded g => ∃ drawn, drawWithin upper Word.size g = some drawn
  | .fixed _ => True

theorem Source.Live.drawn (hs : s.Live) (hword : upper < Word.size) (k : Nat) :
    (s.drawn upper k).Live := by
  induction k with
  | zero => exact hs
  | succ k ih => exact ih.next hword

theorem Source.Live.ends (hs : s.Live) (hupper : 0 < upper) (hword : upper < Word.size) :
    s.Ends upper := by
  cases s with
  | seeded g => exact ⟨_, drawWithin_eq_below hs hupper hword⟩
  | fixed c => trivial

end HalfDuplex.Durations
