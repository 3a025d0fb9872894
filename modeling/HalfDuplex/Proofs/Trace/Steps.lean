import HalfDuplex.Proofs.Trace.Following

/-!
# The steps of a replay

What a replay asks of an event and what it then turns into are two things that do
not depend on each other; `step_eq_ok_iff` says that a step is these two and the
look at the slots.
-/

namespace HalfDuplex.Trace.Replay

variable {r r' : Replay} {l : Lane} {task n cap : Nat} {e : Event}

def seated (r : Replay) (task : Nat) (l : Lane) : Replay :=
  { r with
    riding := (task, l) :: r.without task
    boarded := r.boarded + 1
    peakOnBus := max r.peakOnBus ((r.without task).length + 1) }

def after (r : Replay) : Event → Replay
  | .queued _ l => r.queue l
  | .woken l n => r.rouse l n
  | .boarded task l true => (r.spend l).seated task l
  | .boarded task l false => r.seated task l
  | .left task _ => r.gone task

/-- What the counters have to be like for an event. -/
def Accepts (r : Replay) : Event → Prop
  | .queued _ _ => True
  | .woken l n => n ≤ r.waiting.get l ∧
      (l.rank = .normal → r.waiting.get (.priority l.direction) = 0) ∧
      r.opposes l.direction = false
  | .boarded _ l true => 0 < r.granted.get l ∧ r.opposes l.direction = false
  | .boarded _ l false =>
      (l.rank = .normal →
        r.waiting.get (.priority l.direction) + r.granted.get (.priority l.direction) = 0) ∧
      r.opposes l.direction = false
  | .left task _ => r.rides task = true

theorem priority_ne_of_normal (h : l.rank = .normal) : l ≠ .priority l.direction := by
  intro he
  rw [he] at h
  cases h

theorem jumpsWaiting_eq_false_iff : r.jumpsWaiting l = false ↔
    (l.rank = .normal → r.waiting.get (.priority l.direction) = 0) := by
  unfold jumpsWaiting
  cases l.rank <;> simp

theorem jumpsPending_eq_false_iff : r.jumpsPending l = false ↔
    (l.rank = .normal →
      r.waiting.get (.priority l.direction) + r.granted.get (.priority l.direction) = 0) := by
  unfold jumpsPending
  cases l.rank <;> simp

/-- Granting tasks of `l` takes no priority task of its direction off the queue,
unless `l` is their lane. -/
theorem jumpsWaiting_rouse_eq : (r.rouse l n).jumpsWaiting l = r.jumpsWaiting l := by
  unfold jumpsWaiting
  cases hl : l.rank with
  | priority => rfl
  | normal =>
    change (_ && decide (0 < (r.waiting.modify l (· - n)).get (.priority l.direction))) = _
    rw [PerLane.get_modify, if_neg (priority_ne_of_normal hl)]

section

variable {ε α β : Type} {b : ε} {x : Except ε α} {a : α}

theorem ite_error_eq_ok_iff {p : Prop} [Decidable p] :
    (if p then .error b else x) = .ok a ↔ ¬ p ∧ x = .ok a := by
  by_cases hp : p
  · rw [if_pos hp]
    exact iff_of_false (fun h => by cases h) fun h => h.1 hp
  · rw [if_neg hp]
    exact (and_iff_right hp).symm

theorem bind_eq_ok_iff {f : α → Except ε β} {c : β} :
    x >>= f = .ok c ↔ ∃ a, x = .ok a ∧ f a = .ok c := by
  cases x with
  | error b => exact iff_of_false (fun h => by cases h) fun ⟨_, h, _⟩ => by cases h
  | ok a => exact ⟨fun h => ⟨a, rfl, h⟩, fun ⟨_, h, hf⟩ => by cases h; exact hf⟩

theorem ite_error_eq_error_iff {p : Prop} [Decidable p] {c : ε} :
    (if p then .error b else x) = .error c ↔ p ∧ c = b ∨ ¬ p ∧ x = .error c := by
  by_cases hp : p <;> simp [hp, eq_comm]

theorem bind_eq_error_iff {f : α → Except ε β} :
    x >>= f = .error b ↔ x = .error b ∨ ∃ a, x = .ok a ∧ f a = .error b := by
  cases x with
  | error c => simp [bind, Except.bind]
  | ok a => simp [bind, Except.bind]

end

theorem wake_eq_ok_iff : r.wake l n = .ok r' ↔ r.Accepts (.woken l n) ∧ r' = r.rouse l n := by
  unfold wake
  rw [ite_error_eq_ok_iff]
  change _ ∧ (if (r.rouse l n).jumpsWaiting l = true then _ else
    if r.opposes l.direction = true then _ else Except.ok (r.rouse l n)) = _ ↔ _
  rw [jumpsWaiting_rouse_eq, ite_error_eq_ok_iff, ite_error_eq_ok_iff, Nat.not_lt,
    Bool.not_eq_true, Bool.not_eq_true, jumpsWaiting_eq_false_iff, Except.ok.injEq,
    eq_comm (a := r')]
  simp only [Accepts, and_assoc]

theorem ride_eq_ok_iff : r.ride cap task l = .ok r' ↔
    r.opposes l.direction = false ∧ (r.seated task l).onBus ≤ cap ∧ r' = r.seated task l := by
  unfold ride
  rw [ite_error_eq_ok_iff, ite_error_eq_ok_iff, Bool.not_eq_true, Nat.not_lt, Except.ok.injEq,
    eq_comm (a := r')]
  rfl

theorem present_eq_ok_iff {granted : Bool} : r.present task l granted = .ok r' ↔
    granted = true ∧ 0 < r.granted.get l ∧ r' = r.spend l ∨
      granted = false ∧ r.jumpsPending l = false ∧ r' = r := by
  cases granted with
  | true =>
    rw [present, if_pos rfl, ite_error_eq_ok_iff, Except.ok.injEq, eq_comm (b := r')]
    simp [spend, Nat.pos_iff_ne_zero]
  | false =>
    rw [present, if_neg Bool.false_ne_true, ite_error_eq_ok_iff, Except.ok.injEq,
      eq_comm (b := r')]
    simp

theorem eq_of_present {granted : Bool} (h : r.present task l granted = .ok r') :
    r' = r.spend l ∨ r' = r := by
  obtain ⟨-, -, hr⟩ | ⟨-, -, hr⟩ := present_eq_ok_iff.mp h
  · exact .inl hr
  · exact .inr hr

theorem opposes_of_present {granted : Bool} (h : r.present task l granted = .ok r')
    (d : Direction) : r'.opposes d = r.opposes d := by
  obtain rfl | rfl := eq_of_present h <;> rfl

theorem accepts_of_present {granted : Bool} (h : r.present task l granted = .ok r')
    (ho : r'.opposes l.direction = false) : r.Accepts (.boarded task l granted) ∧
      r.after (.boarded task l granted) = r'.seated task l := by
  rw [opposes_of_present h] at ho
  obtain ⟨rfl, hg, rfl⟩ | ⟨rfl, hj, rfl⟩ := present_eq_ok_iff.mp h
  · exact ⟨⟨hg, ho⟩, rfl⟩
  · exact ⟨⟨jumpsPending_eq_false_iff.mp hj, ho⟩, rfl⟩

theorem board_eq_ok_iff {granted : Bool} :
    r.take cap (.boarded task l granted) = .ok r' ↔ r.Accepts (.boarded task l granted) ∧
      (r.after (.boarded task l granted)).onBus ≤ cap ∧
      r' = r.after (.boarded task l granted) := by
  change r.present task l granted >>= (fun r => r.ride cap task l) = _ ↔ _
  rw [bind_eq_ok_iff]
  constructor
  · rintro ⟨r₁, hp, hride⟩
    obtain ⟨ho, hfit, rfl⟩ := ride_eq_ok_iff.mp hride
    obtain ⟨ha, hafter⟩ := accepts_of_present hp ho
    rw [hafter]
    exact ⟨ha, hfit, rfl⟩
  · rintro ⟨ha, hfit, rfl⟩
    cases granted with
    | true =>
      exact ⟨r.spend l, present_eq_ok_iff.mpr (.inl ⟨rfl, ha.1, rfl⟩),
        ride_eq_ok_iff.mpr ⟨ha.2, hfit, rfl⟩⟩
    | false =>
      have hj := jumpsPending_eq_false_iff.mpr ha.1
      exact ⟨r, present_eq_ok_iff.mpr (.inr ⟨rfl, hj, rfl⟩), ride_eq_ok_iff.mpr ⟨ha.2, hfit, rfl⟩⟩

theorem leave_eq_ok_iff : r.leave task = .ok r' ↔ r.rides task = true ∧ r' = r.gone task := by
  unfold leave
  cases hr : r.rides task with
  | true =>
    rw [if_pos rfl, Except.ok.injEq, eq_comm]
    exact (and_iff_right rfl).symm
  | false =>
    rw [if_neg Bool.false_ne_true]
    exact iff_of_false (fun h => by cases h) fun h => by cases h.1

theorem accepts_of_take (h : r.take cap e = .ok r') : r.Accepts e ∧ r' = r.after e := by
  cases e with
  | queued task l => exact ⟨trivial, (Except.ok.inj h).symm⟩
  | woken l n => exact wake_eq_ok_iff.mp h
  | boarded task l granted =>
    obtain ⟨ha, -, hr⟩ := board_eq_ok_iff.mp h
    exact ⟨ha, hr⟩
  | left task l => exact leave_eq_ok_iff.mp h

theorem take_eq (ha : r.Accepts e) (hfit : (r.after e).onBus ≤ cap) :
    r.take cap e = .ok (r.after e) := by
  cases e with
  | queued task l => rfl
  | woken l n => exact wake_eq_ok_iff.mpr ⟨ha, rfl⟩
  | boarded task l granted => exact board_eq_ok_iff.mpr ⟨ha, hfit, rfl⟩
  | left task l => exact leave_eq_ok_iff.mpr ⟨ha, rfl⟩

/-- A step goes through just in case the counters accept the event and riders and
grants fit the bus after it. -/
theorem step_eq_ok_iff : r.step cap e = .ok r' ↔
    r.Accepts e ∧ (r.after e).onBus + (r.after e).reserved ≤ cap ∧ r' = r.after e := by
  rw [step, bind_eq_ok_iff]
  simp only [ite_error_eq_ok_iff, Except.ok.injEq, Nat.not_lt]
  constructor
  · rintro ⟨_, ht, hfit, rfl⟩
    obtain ⟨ha, rfl⟩ := accepts_of_take ht
    exact ⟨ha, hfit, rfl⟩
  · rintro ⟨ha, hfit, rfl⟩
    exact ⟨_, take_eq ha (Nat.le_trans (Nat.le_add_right _ _) hfit), hfit, rfl⟩

theorem fits_of_step (h : r.step cap e = .ok r') : r'.onBus + r'.reserved ≤ cap := by
  obtain ⟨-, hfit, rfl⟩ := step_eq_ok_iff.mp h
  exact hfit

section

variable {es fs : List Event} {index : Nat}

theorem run_cons_eq_ok_iff : run cap index r (e :: es) = .ok r' ↔
    ∃ r₁, r.step cap e = .ok r₁ ∧ run cap (index + 1) r₁ es = .ok r' := by
  rw [run_cons]
  cases r.step cap e <;> simp

theorem run_append_eq_ok_iff : run cap index r (es ++ fs) = .ok r' ↔
    ∃ r₁, run cap index r es = .ok r₁ ∧ run cap (index + es.length) r₁ fs = .ok r' := by
  rw [run_append]
  cases run cap index r es <;> simp

theorem run_concat_eq_ok_iff : run cap index r (es ++ [e]) = .ok r' ↔
    ∃ r₁, run cap index r es = .ok r₁ ∧ r₁.step cap e = .ok r' := by
  rw [run_append_eq_ok_iff]
  simp only [run_cons_eq_ok_iff, run_nil, Except.ok.injEq, exists_eq_right]

theorem run_keeps {P : Replay → Prop}
    (hstep : ∀ {r r' e}, r.step cap e = .ok r' → P r → P r')
    (h : run cap index r es = .ok r') (hr : P r) : P r' := by
  induction es generalizing index r with
  | nil => cases h; exact hr
  | cons e es ih =>
    obtain ⟨r₁, hs, hrun⟩ := run_cons_eq_ok_iff.mp h
    exact ih hrun (hstep hs hr)

end

end HalfDuplex.Trace.Replay
