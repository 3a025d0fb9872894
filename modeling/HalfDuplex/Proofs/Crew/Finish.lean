import HalfDuplex.Proofs.Crew.Moves
import HalfDuplex.Proofs.Crew.Progress

/-!
# The order in which nobody idles

A crew that is left to itself takes its steps in one of the orders that are
possible. It stops only where nobody can take a step, and four steps for each
worker are enough to get there.
-/

namespace HalfDuplex.Crew

variable {acts : List (Nat × Phase)} {w : Worker} {x c d : Crew} {i due fuel : Nat}

theorem exists_riding_of_nextDue? (h : c.nextDue? = some due) :
    ∃ w ∈ c.workers, w.phase = .riding due := by
  obtain ⟨w, hw, hdue⟩ := List.mem_filterMap.mp (List.min?_mem h)
  refine ⟨w, hw, ?_⟩
  cases hp : w.phase <;> rw [hp] at hdue <;> cases hdue
  rfl

theorem isRiding_eq_false_of_nextDue? (h : c.nextDue? = none) (hw : w ∈ c.workers) :
    w.phase.isRiding = false := by
  have hnone := List.filterMap_eq_nil_iff.mp (List.min?_eq_none_iff.mp h) w hw
  cases hp : w.phase <;> rw [hp] at hnone <;> first | rfl | cases hnone

theorem exists_step?_of_next? (h : c.next? = some i) : ∃ d, c.step? i = some d := by
  unfold next? at h
  split at h
  · next j hj =>
    cases h
    obtain ⟨hi, hready, -⟩ := List.findIdx?_eq_some_iff_getElem.mp hj
    exact (exists_step?_iff (List.getElem?_eq_getElem hi)).mpr (.inl hready)
  · split at h
    · next due _ =>
      obtain ⟨hi, hphase, -⟩ := List.findIdx?_eq_some_iff_getElem.mp h
      refine (exists_step?_iff (List.getElem?_eq_getElem hi)).mpr (.inr ?_)
      rw [beq_iff_eq.mp hphase]
      rfl
    · cases h

theorem step?_eq_none_of_next? (h : c.next? = none) (i : Nat) : c.step? i = none := by
  unfold next? at h
  split at h
  · cases h
  · next hready =>
    have hidle := List.findIdx?_eq_none_iff.mp hready
    -- Were there riders, the first of those that are due earliest would be chosen.
    have hnobody : ∀ w ∈ c.workers, w.phase.isRiding = false := by
      split at h
      · next due hdue =>
        obtain ⟨w, hw, hp⟩ := exists_riding_of_nextDue? hdue
        have hnot := List.findIdx?_eq_none_iff.mp h w hw
        rw [hp, beq_self_eq_true] at hnot
        cases hnot
      · next hdue => exact fun w hw => isRiding_eq_false_of_nextDue? hdue hw
    cases hw : c.workers[i]? with
    | none => rw [step?, hw]
    | some w =>
      have hmem := List.mem_of_getElem? hw
      cases hs : c.step? i with
      | none => rfl
      | some d =>
        obtain hr | hr := (exists_step?_iff hw).mp ⟨d, hs⟩
        · rw [hidle w hmem] at hr
          cases hr
        · rw [hnobody w hmem] at hr
          cases hr

theorem Runs.exists_snoc (hr : Runs x acts c) (hs : c.step? i = some d) :
    ∃ p, Runs x (acts ++ [(i, p)]) d := by
  obtain ⟨w, q, hw, hset, -⟩ := step?_moves hs
  have hget : d.workers[i]? = some { w with phase := q } := by
    rw [hset, List.getElem?_set_self (List.getElem?_eq_some_iff.mp hw).1]
  exact ⟨_, hr.snoc i hs hget⟩

theorem Ready.finishWithin (h : c.Ready) (hr : Runs x acts c)
    (hfuel : stepsLeft c.workers ≤ fuel) :
    ∃ acts, Runs x acts (c.finishWithin fuel) ∧ ∀ i, (c.finishWithin fuel).step? i = none := by
  -- One unit of fuel pays for one step, and every step leaves fewer to be taken.
  induction fuel generalizing c acts with
  | zero =>
    refine ⟨acts, hr, fun i => ?_⟩
    change c.step? i = none
    cases hs : c.step? i with
    | none => rfl
    | some d =>
      have hlt := h.stepsLeft_lt hs
      omega
  | succ fuel ih =>
    unfold Crew.finishWithin
    cases hn : c.next? with
    | none => exact ⟨acts, hr, step?_eq_none_of_next? hn⟩
    | some i =>
      obtain ⟨d, hs⟩ := exists_step?_of_next? hn
      obtain ⟨p, hsnoc⟩ := hr.exists_snoc hs
      have hlt := h.stepsLeft_lt hs
      rw [Option.bind_some, hs]
      exact ih (h.step hs).1 hsnoc (by omega)

/-- Left to itself, a ready crew takes steps until nobody can. -/
theorem Ready.finish (h : x.Ready) :
    ∃ acts, Runs x acts x.finish ∧ ∀ i, x.finish.step? i = none := by
  have hle := stepsLeft_le (x.workers : Multiset Worker)
  rw [Multiset.coe_card] at hle
  exact h.finishWithin .nil hle

end HalfDuplex.Crew
