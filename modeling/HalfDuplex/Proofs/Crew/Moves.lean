import HalfDuplex.Batch.Crew

/-!
# The phases of a worker

Whatever happens on the bus, a step takes one worker from its phase to one that
can follow it, and changes nothing else about the crew's workers.
-/

namespace HalfDuplex

/-- The phases that can follow one another for a worker that gives up, or for one
that does not. -/
inductive Phase.Next (givesUp : Bool) : Phase → Phase → Prop where
  | queue : Next givesUp .starting .queued
  | board (due : Nat) : Next givesUp .starting (.riding due)
  | turnedAway (f : Bus.Fault) : Next givesUp .starting (.failed (.bus f))
  | pickUp : Next givesUp .queued .returning
  | comeBack (due : Nat) : Next givesUp .returning (.riding due)
  | stranded (f : Bus.Fault) : Next givesUp .returning (.failed (.bus f))
  | finish (due : Nat) : givesUp = false → Next givesUp (.riding due) .finished
  | giveUp (due : Nat) : givesUp = true → Next givesUp (.riding due) (.failed .interrupted)
  | stuck (due : Nat) (f : Bus.Fault) : Next givesUp (.riding due) (.failed (.bus f))

namespace Crew

variable {c d : Crew} {i : Nat} {w : Worker}

theorem enter_moves (c : Crew) (i : Nat) (w : Worker) :
    ∃ q, (c.enter i w).workers = c.workers.set i { w with phase := q } ∧
      Phase.Next w.givesUp .starting q := by
  unfold enter
  split
  · exact ⟨_, rfl, .board _⟩
  · exact ⟨_, rfl, .queue⟩
  · exact ⟨_, rfl, .turnedAway _⟩

theorem passQueue?_moves (hs : c.passQueue? i w = some d) :
    ∃ q, d.workers = c.workers.set i { w with phase := q } ∧
      Phase.Next w.givesUp .queued q := by
  obtain ⟨b, -, rfl⟩ := Option.map_eq_some_iff.mp hs
  exact ⟨_, rfl, .pickUp⟩

theorem comeBack_moves (c : Crew) (i : Nat) (w : Worker) :
    ∃ q, (c.comeBack i w).workers = c.workers.set i { w with phase := q } ∧
      Phase.Next w.givesUp .returning q := by
  unfold comeBack
  split
  · exact ⟨_, rfl, .comeBack _⟩
  · exact ⟨_, rfl, .stranded _⟩

theorem release_moves (c : Crew) (i : Nat) (w : Worker) (due : Nat) :
    ∃ q, (c.release i w due).workers = c.workers.set i { w with phase := q } ∧
      Phase.Next w.givesUp (.riding due) q := by
  unfold release
  dsimp only
  split
  · refine ⟨_, rfl, ?_⟩
    cases hg : w.givesUp with
    | false => exact .finish due rfl
    | true => exact .giveUp due rfl
  · exact ⟨_, rfl, .stuck due _⟩

theorem step?_moves (hs : c.step? i = some d) :
    ∃ w q, c.workers[i]? = some w ∧ d.workers = c.workers.set i { w with phase := q } ∧
      w.phase.Next w.givesUp q := by
  unfold step? at hs
  cases hw : c.workers[i]? with
  | none => rw [hw] at hs; cases hs
  | some w =>
    refine ⟨w, ?_⟩
    rw [hw] at hs
    dsimp only at hs
    cases hp : w.phase with
    | starting =>
      rw [hp] at hs
      cases hs
      obtain ⟨q, hq⟩ := c.enter_moves i w
      exact ⟨q, rfl, hq⟩
    | queued =>
      rw [hp] at hs
      obtain ⟨q, hq⟩ := passQueue?_moves hs
      exact ⟨q, rfl, hq⟩
    | returning =>
      rw [hp] at hs
      cases hs
      obtain ⟨q, hq⟩ := c.comeBack_moves i w
      exact ⟨q, rfl, hq⟩
    | riding due =>
      rw [hp] at hs
      cases hs
      obtain ⟨q, hq⟩ := c.release_moves i w due
      exact ⟨q, rfl, hq⟩
    | finished => rw [hp] at hs; cases hs
    | failed f => rw [hp] at hs; cases hs

end Crew

end HalfDuplex
