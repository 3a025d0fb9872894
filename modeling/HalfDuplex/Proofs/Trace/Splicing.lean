import HalfDuplex.Proofs.Trace.Checking

/-!
# Traces one after the other

A trace may be taken away and checked while nobody rides, waits or holds a grant.
The counts of its summary tell that this is so, and what comes after it is then
judged as if the bus were fresh.
-/

namespace HalfDuplex.Trace

/-- The violation, if its trace begins `k` events later. -/
def Violation.later (k : Nat) (v : Violation) : Violation := ⟨v.index + k, v.breach⟩

/-- The summary of two traces in a row, of which the first leaves nobody behind. -/
def Summary.followedBy (s t : Summary) : Summary where
  queued := s.queued + t.queued
  boarded := s.boarded + t.boarded
  left := s.left + t.left
  peakOnBus := max s.peakOnBus t.peakOnBus
  unfinished := t.unfinished

namespace Replay

variable {r r' : Replay} {s : Summary} {es : List Event} {e : Event} {l : Lane}
  {t n cap index k : Nat}

def carrying (s : Summary) (r : Replay) : Replay :=
  { r with
    queued := s.queued + r.queued
    boarded := s.boarded + r.boarded
    left := s.left + r.left
    peakOnBus := max s.peakOnBus r.peakOnBus }

theorem wake_carrying : (r.carrying s).wake l n = (r.wake l n).map (carrying s) := by
  unfold wake
  simp only [apply_ite (Except.map (carrying s))]
  rfl

theorem present_carrying {granted : Bool} :
    (r.carrying s).present t l granted = (r.present t l granted).map (carrying s) := by
  unfold present
  simp only [apply_ite (Except.map (carrying s))]
  rfl

theorem seated_carrying : (r.carrying s).seated t l = (r.seated t l).carrying s := by
  simp [seated, carrying, without, Nat.add_assoc, Nat.max_assoc]

theorem ride_carrying : (r.carrying s).ride cap t l = (r.ride cap t l).map (carrying s) := by
  unfold ride
  simp only [apply_ite (Except.map (carrying s))]
  change (if r.opposes l.direction = true then _ else if cap < (r.seated t l).onBus then _
    else Except.ok ((r.carrying s).seated t l)) = _
  rw [seated_carrying]
  rfl

theorem leave_carrying : (r.carrying s).leave t = (r.leave t).map (carrying s) := by
  unfold leave
  simp only [apply_ite (Except.map (carrying s))]
  rfl

theorem take_carrying : (r.carrying s).take cap e = (r.take cap e).map (carrying s) := by
  cases e with
  | queued t l => rfl
  | woken l n => exact wake_carrying
  | boarded t l granted =>
    change (r.carrying s).present t l granted >>= (fun r => r.ride cap t l) =
      (r.present t l granted >>= fun r => r.ride cap t l).map (carrying s)
    rw [present_carrying]
    cases r.present t l granted with
    | error b => rfl
    | ok r' => exact ride_carrying
  | left t l => exact leave_carrying

theorem step_carrying : (r.carrying s).step cap e = (r.step cap e).map (carrying s) := by
  unfold step
  rw [take_carrying]
  cases r.take cap e with
  | error b => rfl
  | ok r' =>
    change (if cap < r'.onBus + r'.reserved then _ else _) =
      (if cap < r'.onBus + r'.reserved then _ else _ : Except Breach Replay).map (carrying s)
    rw [apply_ite (Except.map (carrying s))]
    rfl

theorem run_carrying : run cap (index + k) (r.carrying s) es =
    ((run cap index r es).map (carrying s)).mapError (Violation.later k) := by
  induction es generalizing index r with
  | nil => rfl
  | cons e es ih =>
    rw [run_cons, run_cons, step_carrying]
    cases r.step cap e with
    | error b => rfl
    | ok r' =>
      change run cap (index + k + 1) (r'.carrying s) es = _
      rw [Nat.add_right_comm]
      exact ih

theorem length_without_lt (h : r.rides t = true) : (r.without t).length < r.onBus := by
  obtain ⟨x, hx, ht⟩ := List.any_eq_true.mp h
  exact List.length_filter_lt_length_iff_exists.mpr ⟨x, hx, by simpa using ht⟩

/-- Everybody who rides has boarded and not left; a task that boards once more is
counted twice. -/
theorem onBus_add_left_le (h : r.step cap e = .ok r') (hr : r.onBus + r.left ≤ r.boarded) :
    r'.onBus + r'.left ≤ r'.boarded := by
  obtain ⟨ha, -, rfl⟩ := step_eq_ok_iff.mp h
  cases e with
  | queued t l => exact hr
  | woken l n => exact hr
  | boarded t l granted =>
    have hlength := r.length_without_le t
    have hseated : (r.without t).length + 1 + r.left ≤ r.boarded + 1 := by omega
    cases granted <;> exact hseated
  | left t l =>
    have hlength := length_without_lt ha
    change (r.without t).length + (r.left + 1) ≤ r.boarded
    omega

theorem eq_start_carrying (h : run cap index start es = .ok r) (hdone : r.summary.unfinished = 0)
    (hgone : r.summary.boarded = r.summary.left) : r = start.carrying r.summary := by
  have hriders : r.onBus + r.left ≤ r.boarded := run_keeps onBus_add_left_le h (Nat.zero_le _)
  change r.boarded = r.left at hgone
  -- As many have left as boarded, so there is room for nobody in between.
  have hempty : r.riding = [] := List.eq_nil_of_length_eq_zero (by unfold onBus at hriders; omega)
  change r.waiting.sum + r.granted.sum = 0 at hdone
  have hwaiting := PerLane.eq_fill_of_sum_eq_zero (p := r.waiting) (by omega)
  have hgranted := PerLane.eq_fill_of_sum_eq_zero (p := r.granted) (by omega)
  cases r
  simp_all [start, carrying, summary]

end Replay

variable {capacity : Nat} {a b : List Event} {s : Summary}

theorem check_append_eq (h : check capacity a = .ok s) (hdone : s.unfinished = 0)
    (hgone : s.boarded = s.left) : check capacity (a ++ b) =
      ((check capacity b).map s.followedBy).mapError (Violation.later a.length) := by
  obtain ⟨r, hr, rfl⟩ := check_eq_ok_iff_run.mp h
  have hrun := Replay.run_append capacity 0 Replay.start a b
  rw [hr] at hrun
  dsimp only at hrun
  rw [Replay.eq_start_carrying hr hdone hgone, Replay.run_carrying] at hrun
  unfold check
  rw [hrun]
  cases Replay.run capacity 0 Replay.start b <;> rfl

/-- A trace that ends with nobody riding, waiting or holding a grant, as its summary
tells, can be checked apart from what follows it. The whole is in order just in case
the second trace is, the summaries add up, and the first breach of the second trace is
that of the whole. -/
theorem check_append_of_quiet (h : check capacity a = .ok s) (hdone : s.unfinished = 0)
    (hgone : s.boarded = s.left) :
    ((∃ u, check capacity (a ++ b) = .ok u) ↔ ∃ t, check capacity b = .ok t) ∧
      (∀ t, check capacity b = .ok t → check capacity (a ++ b) =
        .ok ⟨s.queued + t.queued, s.boarded + t.boarded, s.left + t.left,
          max s.peakOnBus t.peakOnBus, t.unfinished⟩) ∧
      ∀ v, check capacity b = .error v →
        check capacity (a ++ b) = .error ⟨v.index + a.length, v.breach⟩ := by
  rw [check_append_eq h hdone hgone]
  refine ⟨?_, fun t ht => ?_, fun v hv => ?_⟩
  · cases check capacity b <;> simp [Except.map, Except.mapError]
  · rw [ht]
    rfl
  · rw [hv]
    rfl

/-- Two tasks ride together, a third one queues for the other direction, and its grant is
taken up under the id of the first. -/
def busy : List Event :=
  [.boarded 1 (.normal .send) false, .boarded 2 (.priority .send) false,
    .queued 3 (.normal .receive), .left 1 (.normal .send), .left 2 (.priority .send),
    .woken (.normal .receive) 1, .boarded 1 (.normal .receive) true, .left 1 (.normal .receive)]

/-- The same ids in the other direction afterwards, once in order and once not. -/
theorem check_append_of_quiet_busy :
    check 2 busy = .ok ⟨1, 3, 3, 2, 0⟩ ∧
      check 2 (busy ++ [.boarded 2 (.normal .receive) false]) = .ok ⟨1, 4, 3, 2, 0⟩ ∧
      check 2 (busy ++ [.boarded 2 (.normal .receive) false, .boarded 3 (.normal .send) false]) =
        .error ⟨9, .mixedDirections 3⟩ := by
  have hbusy : check 2 busy = .ok ⟨1, 3, 3, 2, 0⟩ := by decide
  have happend : ∀ b, _ := fun b => check_append_of_quiet (b := b) hbusy rfl rfl
  exact ⟨hbusy, (happend _).2.1 ⟨0, 1, 0, 1, 0⟩ (by decide),
    (happend _).2.2 ⟨1, .mixedDirections 3⟩ (by decide)⟩

end HalfDuplex.Trace
