import HalfDuplex.Proofs.Durations.Draws

/-!
# Calls of a source

The bound changes from call to call, and a call with the bound 0 is a fault that leaves the
source where it is. Every other call of a generator returns a number below its bound. A list
is gone through over and over, one step for each call that returned, and each of its values
is cut down below the bound of its call. How many draws were made from a list is counted in
a word, so this goes on for as long as the word has room.
-/

namespace HalfDuplex.Durations

variable {g : Xorshift} {upper : UInt64} {values : List Nat} {k v : Nat}

/-- A call comes to the end of its draw and returns `v`. -/
def Source.Returns (s : Source) (upper : UInt64) (v : Nat) : Prop :=
  s.Ends upper.toNat ∧ ∃ rest, s.next upper.toNat = .done rest v

/-- A source in use, and how many of its calls have returned. -/
structure Use where
  source : Source
  returned : Nat

def Use.call (u : Use) (upper : UInt64) : Use :=
  let o := u.source.next upper.toNat
  ⟨o.state, if o.isDone then u.returned + 1 else u.returned⟩

/-- The use of a source after calls with these bounds. -/
def Source.used (s : Source) (bounds : List UInt64) : Use := bounds.foldl Use.call ⟨s, 0⟩

theorem Source.used_concat (s : Source) (bounds : List UInt64) (upper : UInt64) :
    s.used (bounds ++ [upper]) = (s.used bounds).call upper :=
  List.foldl_concat Use.call _ upper bounds

theorem Use.call_zero (u : Use) : u.call 0 = u := rfl

theorem toNat_pos (h : 0 < upper) : 0 < upper.toNat := UInt64.lt_iff_toNat_lt.mp h

theorem eq_zero_or_lt (upper : UInt64) : upper = 0 ∨ 0 < upper := by
  rw [← UInt64.toNat_inj, UInt64.lt_iff_toNat_lt]
  exact Nat.eq_zero_or_pos _

theorem next_ofList_empty (h : 0 < upper) :
    (Source.ofList []).next upper.toNat = .done (.ofList []) 0 := by
  rw [Source.ofList, Source.next_fixed _ (toNat_pos h), Cycle.next_empty _ rfl]
  rfl

theorem Use.call_seeded (hg : g.word ≠ 0) (k : Nat) (upper : UInt64) :
    ∃ g' k', (Use.mk (.seeded g) k).call upper = ⟨.seeded g', k'⟩ ∧ g'.word ≠ 0 := by
  obtain rfl | h := eq_zero_or_lt upper
  · exact ⟨g, k, rfl, hg⟩
  · have hcall : (Use.mk (.seeded g) k).call upper = ⟨.seeded (g.below upper.toNat).2, k + 1⟩ := by
      rw [Use.call, Source.next_seeded g (toNat_pos h)]
      rfl
    exact ⟨_, k + 1, hcall, word_below_ne_zero hg (toNat_pos h) upper.toNat_lt⟩

theorem used_ofSeed (seed : Nat) (bounds : List UInt64) :
    ∃ g k, (Source.ofSeed seed).used bounds = ⟨.seeded g, k⟩ ∧ g.word ≠ 0 := by
  induction bounds using List.reverseRecOn with
  | nil => exact ⟨_, 0, rfl, word_ofSeed_ne_zero seed⟩
  | append_singleton bounds upper ih =>
    obtain ⟨g, k, hused, hg⟩ := ih
    rw [Source.used_concat, hused]
    exact Use.call_seeded hg k upper

theorem Use.call_fixed (hvalues : values ≠ []) (hk : k < Word.size) (upper : UInt64) :
    ∃ k', ∃ hk' : k' < Word.size,
      (Use.mk (.fixed ⟨values, k, hk⟩) k).call upper = ⟨.fixed ⟨values, k', hk'⟩, k'⟩ := by
  obtain rfl | h := eq_zero_or_lt upper
  · exact ⟨k, hk, rfl⟩
  · obtain ⟨v, -, hnext⟩ := (Cycle.mk values k hk).next_value hvalues upper.toNat
    rw [Use.call, Source.next_fixed _ (toNat_pos h), hnext]
    split
    · next hroom => exact ⟨k + 1, hroom, rfl⟩
    · exact ⟨k, hk, rfl⟩

theorem used_ofList (hvalues : values ≠ []) (bounds : List UInt64) :
    ∃ k, ∃ hk : k < Word.size,
      (Source.ofList values).used bounds = ⟨.fixed ⟨values, k, hk⟩, k⟩ := by
  induction bounds using List.reverseRecOn with
  | nil => exact ⟨0, by decide, rfl⟩
  | append_singleton bounds upper ih =>
    obtain ⟨k, hk, hused⟩ := ih
    rw [Source.used_concat, hused]
    exact Use.call_fixed hvalues hk upper

theorem source_used_empty (bounds : List UInt64) :
    ((Source.ofList []).used bounds).source = .ofList [] := by
  induction bounds using List.reverseRecOn with
  | nil => rfl
  | append_singleton bounds upper ih =>
    rw [Source.used_concat, Use.call, ih]
    obtain rfl | h := eq_zero_or_lt upper
    · rfl
    · rw [next_ofList_empty h]
      rfl

/-- Sources keep their contract through every sequence of calls. A call with the bound 0 is
a fault and changes nothing. With any other bound, a generator returns a number below the
bound, whatever its seed. A list returns the value that it has come to, cut down below the
bound, as long as the calls that returned can be counted in a word, and then faults; an
empty list always returns 0. -/
theorem calls_return_below_bounds (bounds : List UInt64) :
    (∀ s : Source, (s.used bounds).source.next 0 = .fault (s.used bounds).source .zeroUpper ∧
      s.used (bounds ++ [0]) = s.used bounds) ∧
    (∀ seed upper : UInt64, 0 < upper →
      ∃ v < upper.toNat, ((Source.ofSeed seed.toNat).used bounds).source.Returns upper v) ∧
    (∀ (values : List Nat) (upper : UInt64), 0 < upper → values ≠ [] →
      (((Source.ofList values).used bounds).returned < Word.largest →
        ∃ v, values[((Source.ofList values).used bounds).returned % values.length]? = some v ∧
          ((Source.ofList values).used bounds).source.Returns upper (min v (upper.toNat - 1)) ∧
          min v (upper.toNat - 1) < upper.toNat) ∧
      (Word.largest ≤ ((Source.ofList values).used bounds).returned →
        ((Source.ofList values).used bounds).source.next upper.toNat =
          .fault ((Source.ofList values).used bounds).source .countOverflow)) ∧
    ∀ upper : UInt64, 0 < upper → ((Source.ofList []).used bounds).source.Returns upper 0 := by
  refine ⟨fun s => ⟨Source.next_zero _, ?_⟩, fun seed upper h => ?_,
    fun values upper h hvalues => ?_, fun upper h => ?_⟩
  · rw [Source.used_concat, Use.call_zero]
  · obtain ⟨g, k, hused, hg⟩ := used_ofSeed seed.toNat bounds
    have hlive : Source.Live (.seeded g) := hg
    have hlt := (below_spec hg (toNat_pos h) upper.toNat_lt).1
    rw [hused]
    exact ⟨_, hlt, hlive.ends (toNat_pos h) upper.toNat_lt, _, Source.next_seeded g (toNat_pos h)⟩
  · obtain ⟨k, hk, hused⟩ := used_ofList hvalues bounds
    obtain ⟨v, hv, hnext⟩ := (Cycle.mk values k hk).next_value hvalues upper.toNat
    rw [hused]
    dsimp only
    rw [Source.next_fixed _ (toNat_pos h), hnext]
    refine ⟨fun hroom => ⟨v, hv, ⟨trivial, ?_⟩, ?_⟩, fun hfull => ?_⟩
    · rw [Source.next_fixed _ (toNat_pos h), hnext, dif_pos (Nat.add_lt_of_lt_sub hroom)]
      exact ⟨_, rfl⟩
    · exact (Nat.min_le_right _ _).trans_lt (Nat.sub_one_lt (toNat_pos h).ne')
    · rw [dif_neg (Nat.not_lt_of_le (Nat.le_add_of_sub_le hfull))]
      rfl
  · rw [source_used_empty]
    exact ⟨trivial, _, next_ofList_empty h⟩

/-- Of four calls one is a fault, so the next one returns the second value of this list
again, cut down to the largest number below its bound. -/
theorem calls_return_below_bounds_after_fault :
    (0 : UInt64) < 244 ∧ ((Source.ofList [5, 500]).used [244, 0, 9, 3]).returned = 3 ∧
      ((Source.ofList [5, 500]).used [244, 0, 9, 3]).source.Returns 244 243 ∧
      ∃ v < 244, ((Source.ofSeed 42).used [244, 0, 9, 3]).source.Returns 244 v := by
  obtain ⟨-, hseeds, hlists, -⟩ := calls_return_below_bounds [244, 0, 9, 3]
  have hpos : (0 : UInt64) < 244 := by decide
  have hreturned : ((Source.ofList [5, 500]).used [244, 0, 9, 3]).returned = 3 := by decide
  obtain ⟨hroom, -⟩ := hlists [5, 500] 244 hpos (List.cons_ne_nil _ _)
  obtain ⟨v, hv, hreturns, -⟩ := hroom (hreturned.trans_lt (by decide))
  rw [hreturned] at hv
  obtain rfl : 500 = v := Option.some.inj hv
  exact ⟨hpos, hreturned, hreturns, hseeds 42 244 hpos⟩

end HalfDuplex.Durations
