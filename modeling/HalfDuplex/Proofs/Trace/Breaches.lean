import HalfDuplex.Proofs.Trace.Checking

/-!
# The first breach of a trace

A check that fails names the first event that breaks a rule, and it says the same
however the trace goes on after that event. What it says is true of the trace up to
there, by the counts that also say what is admissible.
-/

namespace HalfDuplex.Trace

/-- What a breach by the event `e` says of it and of the events `before` it. -/
def Breach.Applies (capacity : Nat) (before : List Event) (e : Event) : Breach → Prop
  | .overCapacity n c => (∃ t l granted, e = .boarded t l granted) ∧ c = capacity ∧
      n = (riders (before ++ [e])).card ∧ c < n
  | .overCommitted n k c => c = capacity ∧ n = (riders (before ++ [e])).card ∧
      k = outstanding (before ++ [e]) ∧ n ≤ c ∧ c < n + k
  | .mixedDirections t => ∃ l granted, e = .boarded t l granted ∧ ¬ AllHead l.direction before
  | .conflictingGrant l => ∃ n, e = .woken l n ∧ ¬ AllHead l.direction before
  | .priorityBypassed l => l.rank = .normal ∧
      ((∃ n, e = .woken l n ∧
          wokenIn (.priority l.direction) before < queuedIn (.priority l.direction) before) ∨
        ∃ t, e = .boarded t l false ∧
          returnedIn (.priority l.direction) before < queuedIn (.priority l.direction) before)
  | .grantWithoutWaiter l => ∃ n, e = .woken l n ∧ queuedIn l before - wokenIn l before < n
  | .boardWithoutGrant t => ∃ l, e = .boarded t l true ∧ wokenIn l before ≤ returnedIn l before
  | .unknownTask t => ∃ l, e = .left t l ∧ t ∉ riders before

namespace Replay

variable {r r' : Replay} {es : List Event} {e : Event} {l : Lane} {b : Breach} {v : Violation}
  {t n cap index : Nat}

theorem jumpsWaiting_eq_true_iff : r.jumpsWaiting l = true ↔
    l.rank = .normal ∧ 0 < r.waiting.get (.priority l.direction) := by
  simp [jumpsWaiting]

theorem jumpsPending_eq_true_iff : r.jumpsPending l = true ↔ l.rank = .normal ∧
    0 < r.waiting.get (.priority l.direction) + r.granted.get (.priority l.direction) := by
  simp only [jumpsPending, Bool.and_eq_true, beq_iff_eq, decide_eq_true_eq]

theorem wake_eq_error_iff : r.wake l n = .error b ↔
    r.waiting.get l < n ∧ b = .grantWithoutWaiter l ∨ n ≤ r.waiting.get l ∧
      (r.jumpsWaiting l = true ∧ b = .priorityBypassed l ∨
        r.jumpsWaiting l = false ∧ r.opposes l.direction = true ∧ b = .conflictingGrant l) := by
  unfold wake
  rw [ite_error_eq_error_iff]
  change _ ∨ _ ∧ (if (r.rouse l n).jumpsWaiting l = true then _ else
    if r.opposes l.direction = true then _ else Except.ok (r.rouse l n)) = _ ↔ _
  rw [jumpsWaiting_rouse_eq, ite_error_eq_error_iff, ite_error_eq_error_iff]
  simp

theorem ride_eq_error_iff : r.ride cap t l = .error b ↔
    r.opposes l.direction = true ∧ b = .mixedDirections t ∨ r.opposes l.direction = false ∧
      cap < (r.seated t l).onBus ∧ b = .overCapacity (r.seated t l).onBus cap := by
  unfold ride
  rw [ite_error_eq_error_iff, ite_error_eq_error_iff]
  simp [seated, onBus]

theorem leave_eq_error_iff :
    r.leave t = .error b ↔ r.rides t = false ∧ b = .unknownTask t := by
  unfold leave
  cases r.rides t <;> simp [eq_comm]

theorem present_eq_error_iff {granted : Bool} : r.present t l granted = .error b ↔
    granted = true ∧ r.granted.get l = 0 ∧ b = .boardWithoutGrant t ∨
      granted = false ∧ r.jumpsPending l = true ∧ b = .priorityBypassed l := by
  cases granted <;> simp [present, ite_error_eq_error_iff]

theorem board_error_cases {granted : Bool} (h : r.take cap (.boarded t l granted) = .error b) :
    granted = true ∧ r.granted.get l = 0 ∧ b = .boardWithoutGrant t ∨
      granted = false ∧ r.jumpsPending l = true ∧ b = .priorityBypassed l ∨
      r.opposes l.direction = true ∧ b = .mixedDirections t ∨
      r.Accepts (.boarded t l granted) ∧ cap < (r.after (.boarded t l granted)).onBus ∧
        b = .overCapacity (r.after (.boarded t l granted)).onBus cap := by
  change r.present t l granted >>= (fun r => r.ride cap t l) = _ at h
  rw [bind_eq_error_iff, present_eq_error_iff] at h
  obtain (hgrant | hjump) | ⟨r', hp, hride⟩ := h
  · exact .inl hgrant
  · exact .inr (.inl hjump)
  · obtain ⟨ho, hb⟩ | ⟨ho, hfull, hb⟩ := ride_eq_error_iff.mp hride
    · rw [opposes_of_present hp] at ho
      exact .inr (.inr (.inl ⟨ho, hb⟩))
    · obtain ⟨ha, hafter⟩ := accepts_of_present hp ho
      rw [hafter]
      exact .inr (.inr (.inr ⟨ha, hfull, hb⟩))

theorem onBus_le_of_take (h : r.take cap e = .ok r') (hfit : r.onBus ≤ cap) : r'.onBus ≤ cap := by
  cases e with
  | queued t l => cases h; exact hfit
  | woken l n => obtain ⟨-, rfl⟩ := wake_eq_ok_iff.mp h; exact hfit
  | boarded t l granted => obtain ⟨-, hboard, rfl⟩ := board_eq_ok_iff.mp h; exact hboard
  | left t l =>
    obtain ⟨-, rfl⟩ := leave_eq_ok_iff.mp h
    exact Nat.le_trans (r.length_without_le t) hfit

theorem Seats.opposes_eq_true_iff (h : Seats r es) {d : Direction} :
    r.opposes d = true ↔ ¬ AllHead d es := by
  rw [← h.opposes_iff, Bool.not_eq_false]

theorem Records.applies_of_take (h : Records r es) (ht : r.take cap e = .error b) :
    b.Applies cap es e := by
  cases e with
  | queued t l => cases ht
  | woken l n =>
    have hl := h.waiting_eq l
    have hp := h.waiting_eq (.priority l.direction)
    obtain ⟨hn, rfl⟩ | ⟨-, ⟨hj, rfl⟩ | ⟨-, ho, rfl⟩⟩ := wake_eq_error_iff.mp ht
    · exact ⟨n, rfl, by omega⟩
    · obtain ⟨hrank, hw⟩ := jumpsWaiting_eq_true_iff.mp hj
      exact ⟨hrank, .inl ⟨n, rfl, by omega⟩⟩
    · exact ⟨n, rfl, h.opposes_eq_true_iff.mp ho⟩
  | boarded t l granted =>
    have hl := h.granted_eq l
    have hw := h.waiting_eq (.priority l.direction)
    have hg := h.granted_eq (.priority l.direction)
    obtain ⟨rfl, hzero, rfl⟩ | ⟨rfl, hj, rfl⟩ | ⟨ho, rfl⟩ | ⟨ha, hfull, rfl⟩ :=
      board_error_cases ht
    · exact ⟨l, rfl, by omega⟩
    · obtain ⟨hrank, hpending⟩ := jumpsPending_eq_true_iff.mp hj
      exact ⟨hrank, .inr ⟨t, rfl, by omega⟩⟩
    · exact ⟨l, granted, rfl, h.opposes_eq_true_iff.mp ho⟩
    · exact ⟨⟨t, l, granted, rfl⟩, rfl, (h.after ha).card_riders.symm, hfull⟩
  | left t l =>
    obtain ⟨hr, rfl⟩ := leave_eq_error_iff.mp ht
    refine ⟨l, rfl, fun hmem => ?_⟩
    rw [h.rides_iff.mpr hmem] at hr
    cases hr

/-- What a step that stops says is true of the trace. -/
theorem Records.applies_of_step (h : Records r es) (hfit : r.onBus ≤ cap)
    (hs : r.step cap e = .error b) : b.Applies cap es e := by
  rw [step, bind_eq_error_iff] at hs
  obtain ht | ⟨r', ht, hover⟩ := hs
  · exact h.applies_of_take ht
  · obtain ⟨ha, rfl⟩ := accepts_of_take ht
    have hafter := h.after ha
    -- The riders alone fit: a boarding has been tested for that before the promised slots count.
    obtain ⟨hlt, rfl⟩ | ⟨-, hok⟩ := ite_error_eq_error_iff.mp hover
    · exact ⟨rfl, hafter.card_riders.symm, hafter.reserved_eq, onBus_le_of_take ht hfit, hlt⟩
    · cases hok

theorem exists_of_run_eq_error (h : run cap index r es = .error v) :
    ∃ before e after r', es = before ++ e :: after ∧ run cap index r before = .ok r' ∧
      r'.step cap e = .error v.breach ∧ v.index = index + before.length := by
  induction es generalizing index r with
  | nil => cases h
  | cons e es ih =>
    rw [run_cons] at h
    cases hs : r.step cap e with
    | error b =>
      rw [hs] at h
      cases h
      exact ⟨[], e, es, r, rfl, rfl, hs, rfl⟩
    | ok r₁ =>
      rw [hs] at h
      obtain ⟨before, e', after, r', rfl, hrun, hstep, hindex⟩ := ih h
      refine ⟨e :: before, e', after, r', rfl, ?_, hstep, ?_⟩
      · rw [run_cons, hs]
        exact hrun
      · rw [hindex, List.length_cons]
        omega

end Replay

variable {capacity : Nat} {es : List Event} {v : Violation}

theorem fits_of_lawful (h : Lawful capacity es) :
    (riders es).card + outstanding es ≤ capacity := by
  induction es using List.reverseRecOn with
  | nil => exact Nat.zero_le capacity
  | append_singleton es e => exact (lawful_concat_iff.mp h).2.2

theorem check_append_of_error (h : check capacity es = .error v) (rest : List Event) :
    check capacity (es ++ rest) = .error v := by
  rw [check_eq_error_iff] at h ⊢
  rw [Replay.run_append, h]

theorem exists_check_take {s : Summary} (h : check capacity es = .ok s) (k : Nat) :
    ∃ s', check capacity (es.take k) = .ok s' := by
  cases hk : check capacity (es.take k) with
  | ok s' => exact ⟨s', rfl⟩
  | error v =>
    have hall := check_append_of_error hk (es.drop k)
    rw [List.take_append_drop, h] at hall
    cases hall

theorem exists_of_check_eq_error (h : check capacity es = .error v) :
    ∃ before e after s, es = before ++ e :: after ∧ v.index = before.length ∧
      check capacity before = .ok s ∧ check capacity (before ++ [e]) = .error v ∧
      v.breach.Applies capacity before e := by
  obtain ⟨before, e, after, r, rfl, hrun, hstep, hindex⟩ :=
    Replay.exists_of_run_eq_error (check_eq_error_iff.mp h)
  obtain ⟨hlawful, hrec⟩ := (Replay.run_start_iff capacity before).2 r hrun
  have hfit := fits_of_lawful hlawful
  rw [hrec.card_riders] at hfit
  refine ⟨before, e, after, tally before, rfl, by omega, check_eq_ok_iff.mpr ⟨hlawful, rfl⟩, ?_,
    hrec.applies_of_step (Nat.le_trans (Nat.le_add_right _ _) hfit) hstep⟩
  rw [check_eq_error_iff, Replay.run_append, hrun]
  dsimp only
  rw [Replay.run_cons, hstep, ← hindex]

/-- A check that fails has come upon the first event that breaks a rule: up to it the
trace is in order, from it on every trace fails in the same way, and the breach is
what the events up to it say. A trace that is in order is so as far as one reads it. -/
theorem check_stops_at_first_breach (capacity : Nat) (events : List Event) :
    (∀ v, check capacity events = .error v → ∃ h : v.index < events.length,
      (∃ s, check capacity (events.take v.index) = .ok s) ∧
      (∀ rest, check capacity (events.take (v.index + 1) ++ rest) = .error v) ∧
      v.breach.Applies capacity (events.take v.index) events[v.index]) ∧
    ∀ s, check capacity events = .ok s →
      ∀ k, ∃ s', check capacity (events.take k) = .ok s' := by
  refine ⟨fun v hv => ?_, fun s hs => exists_check_take hs⟩
  obtain ⟨before, e, after, s, rfl, hindex, hok, herror, happlies⟩ := exists_of_check_eq_error hv
  have hbefore : (before ++ e :: after).take v.index = before := by simp [hindex]
  have hnext : (before ++ e :: after).take (v.index + 1) = before ++ [e] := by
    simp [hindex, List.take_append]
  have hlt : v.index < (before ++ e :: after).length := by simp [hindex]
  have hevent : (before ++ e :: after)[v.index] = e := by simp [hindex]
  refine ⟨hlt, ⟨s, by rw [hbefore, hok]⟩, fun rest => ?_, ?_⟩
  · rw [hnext]
    exact check_append_of_error herror rest
  · rw [hbefore, hevent]
    exact happlies

/-- A task boards once more under the id that it rides by, another one queues and is
granted the last slot, and a third one boards in its place. -/
def overbooked : List Event :=
  [.boarded 7 (.normal .send) false, .boarded 7 (.priority .send) false,
    .queued 8 (.normal .send), .woken (.normal .send) 1, .boarded 9 (.priority .send) false,
    .left 4 (.normal .receive)]

/-- The third task is the one that is named: two ride and one slot is promised. -/
theorem check_stops_at_first_breach_overbooked :
    check 2 overbooked = .error ⟨4, .overCommitted 2 1 2⟩ ∧
      (∀ rest, check 2 (overbooked.take 5 ++ rest) = .error ⟨4, .overCommitted 2 1 2⟩) ∧
      2 = (riders (overbooked.take 5)).card ∧ 1 = outstanding (overbooked.take 5) ∧
      check 2 (overbooked.take 4) = .ok ⟨1, 2, 0, 1, 1⟩ ∧
      ∀ k, ∃ s, check 2 ((overbooked.take 4).take k) = .ok s := by
  have herror : check 2 overbooked = .error ⟨4, .overCommitted 2 1 2⟩ := by decide
  have hok : check 2 (overbooked.take 4) = .ok ⟨1, 2, 0, 1, 1⟩ := by decide
  obtain ⟨_, -, hrest, -, hriders, hpromised, -⟩ :=
    (check_stops_at_first_breach 2 overbooked).1 _ herror
  exact ⟨herror, hrest, hriders, hpromised, hok,
    (check_stops_at_first_breach 2 (overbooked.take 4)).2 _ hok⟩

end HalfDuplex.Trace
