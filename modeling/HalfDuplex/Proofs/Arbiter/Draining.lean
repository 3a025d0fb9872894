import HalfDuplex.Proofs.Arbiter.Acts

/-!
# Draining a bus

Once nobody arrives any more, every task that queues has to come back and then
to leave, and every rider has to leave. Each act does one of these, whatever the
order, and somebody can act until all of them are done.
-/

namespace HalfDuplex.Arbiter

variable {s t : Arbiter} {l : Lane} {a : Act} {as past : List Act} {c : Nat}

def workLeft (s : Arbiter) : Nat := 2 * s.totalPending + s.onBus

theorem Effect.of_no_arrival (he : Effect s a t) (hn : a.isArrival = false) :
    (∃ m, a = .comeBack m ∧ 0 < (s.queue m).granted ∧
        t = (s.useGrant m).addRider m.direction) ∨
      (a = .leave ∧ 0 < s.onBus ∧ t = s.vacate.handOver.2) := by
  cases he with
  | comeBack m hg => exact .inl ⟨m, rfl, hg, rfl⟩
  | leave ho => exact .inr ⟨rfl, ho, rfl⟩
  | _ => cases hn

theorem totalPending_comeBack (hg : 0 < (s.queue l).granted) :
    ((s.useGrant l).addRider l.direction).totalPending + 1 = s.totalPending :=
  totalPending_useGrant hg

theorem onBus_departed (ho : 0 < s.onBus) : s.vacate.handOver.2.onBus + 1 = s.onBus := by
  rw [onBus_handOver]
  change s.onBus - 1 + 1 = s.onBus
  omega

theorem totalPending_departed (s : Arbiter) :
    s.vacate.handOver.2.totalPending = s.totalPending := totalPending_handOver s.vacate

theorem Coherent.workLeft_next (h : s.Coherent) (ha : s.Permits a) (hn : a.isArrival = false) :
    1 + (s.next a).workLeft = s.workLeft := by
  unfold workLeft
  obtain ⟨m, -, hg, ht⟩ | ⟨-, ho, ht⟩ := (h.effect ha).of_no_arrival hn <;> rw [ht]
  · have hpend := totalPending_comeBack hg
    change 1 + (2 * _ + (s.onBus + 1)) = _
    omega
  · have honBus := onBus_departed ho
    have hpend := s.totalPending_departed
    omega

theorem Coherent.pending_next (h : s.Coherent) (ha : s.Permits a) (hn : a.isArrival = false)
    (l : Lane) : s.seats l a + ((s.next a).queue l).pending = (s.queue l).pending := by
  obtain ⟨m, rfl, hg, ht⟩ | ⟨rfl, ho, ht⟩ := (h.effect ha).of_no_arrival hn <;> rw [ht, seats]
  · have hpend := pending_useGrant hg l
    rw [h.bringsBack_comeBack hg]
    change 0 + _ + ((s.useGrant m).queue l).pending = _
    omega
  · change 0 + 0 + _ = _
    rw [pending_handOver, queue_vacate]
    omega

theorem Coherent.present_next (h : s.Coherent) (ha : s.Permits a) (hn : a.isArrival = false) :
    s.departs a + ((s.next a).totalPending + (s.next a).onBus) = s.totalPending + s.onBus := by
  obtain ⟨m, rfl, hg, ht⟩ | ⟨rfl, ho, ht⟩ := (h.effect ha).of_no_arrival hn <;> rw [ht]
  · have hpend := totalPending_comeBack hg
    change 0 + (_ + (s.onBus + 1)) = _
    omega
  · have honBus := onBus_departed ho
    have hpend := s.totalPending_departed
    rw [h.departs_leave ho]
    omega

/-- As long as there is work left, there is a rider or a grant. -/
theorem Coherent.exists_permitted (h : s.Coherent) (hw : 0 < s.workLeft) :
    ∃ a : Act, a.isArrival = false ∧ s.Permits a := by
  by_cases ho : 0 < s.onBus
  · exact ⟨.leave, rfl, ho⟩
  · by_cases hr : 0 < s.reserved
    · rw [← h.granted_eq] at hr
      obtain ⟨l, hl⟩ := exists_granted hr
      exact ⟨.comeBack l, rfl, hl⟩
    · -- nobody holds the bus, so that nobody waits for it
      have hidle := h.idle_iff.mpr ⟨by omega, by omega⟩
      have hwaiting := totalWaiting_eq_zero_iff.mpr (h.nobody_waits hidle)
      have htotal := s.totalPending_eq
      have hgranted := h.granted_eq
      unfold workLeft at hw
      omega

theorem Coherent.eq_idle_of_workLeft (h : s.Coherent) (h0 : s.workLeft = 0) :
    s = idle s.capacity := by
  unfold workLeft at h0
  apply h.eq_idle (by omega)
  intro l
  have hle := s.pending_le_totalPending l
  omega

theorem tally_one (s : Arbiter) (as : List Act) : s.tally (fun _ _ => 1) as = as.length := by
  induction as generalizing s with
  | nil => rfl
  | cons a as ih =>
    rw [tally, ih, List.length_cons]
    omega

/-- From any arbiter that acts have led to, without further arrivals: no row of
acts is longer than two acts for each pending task and one for each rider, any
shorter row can go on, and one that cannot ends with an idle bus. By then every
pending task has boarded, and it and all riders have left. -/
theorem drains_to_idle (hc : 0 < c) (hpast : (idle c).Allows past) (hs : (idle c).after past = s)
    (hall : s.Allows as) (hno : ∀ a ∈ as, a.isArrival = false) :
    as.length ≤ 2 * s.totalPending + s.onBus ∧
    (as.length < 2 * s.totalPending + s.onBus →
      ∃ a : Act, a.isArrival = false ∧ (s.after as).Permits a) ∧
    ((∀ a : Act, a.isArrival = false → ¬ (s.after as).Permits a) →
      as.length = 2 * s.totalPending + s.onBus ∧ s.after as = idle c ∧
      (∀ l, s.tally (seats l) as = (s.queue l).pending) ∧
      s.tally departs as = s.totalPending + s.onBus) := by
  obtain ⟨h, hcap⟩ := (coherent_idle hc).after hpast
  rw [hs] at h hcap
  obtain ⟨hend, hcap'⟩ := h.after hall
  have hrow : ∀ before a rest, as = before ++ a :: rest → a.isArrival = false := by
    intro before a rest he
    apply hno
    rw [he]
    exact List.mem_append_right _ List.mem_cons_self
  have hlength := h.tally_add (f := fun _ _ => 1) (g := workLeft)
    (R := fun _ a => a.isArrival = false) (fun h ha hn => h.workLeft_next ha hn) hall hrow
  rw [tally_one] at hlength
  change _ = 2 * s.totalPending + s.onBus at hlength
  refine ⟨by omega, fun hlt => hend.exists_permitted (by omega), fun hmax => ?_⟩
  have hdone : (s.after as).workLeft = 0 := by
    apply Nat.eq_zero_of_not_pos
    intro hw
    obtain ⟨a, hn, ha⟩ := hend.exists_permitted hw
    exact hmax a hn ha
  have hidle : s.after as = idle c := by
    rw [hend.eq_idle_of_workLeft hdone, hcap', hcap]
    rfl
  have hseats := fun l => h.tally_add (f := seats l) (g := fun s => (s.queue l).pending)
    (R := fun _ a => a.isArrival = false) (fun h ha hn => h.pending_next ha hn l) hall hrow
  have hdeparts := h.tally_add (f := departs) (g := fun s => s.totalPending + s.onBus)
    (R := fun _ a => a.isArrival = false) (fun h ha hn => h.present_next ha hn) hall hrow
  simp only [hidle, queue_idle] at hseats hdeparts
  exact ⟨by omega, hidle, hseats, hdeparts⟩

/-- Two receive tasks ride, and a third goes before the send tasks that wait. -/
theorem drains_to_idle_turning :
    ∃ past as s, (idle 2).Allows past ∧ (idle 2).after past = s ∧ s.Allows as ∧
      (∀ a ∈ as, a.isArrival = false) ∧ s.totalPending = 3 ∧ s.onBus = 2 ∧
      (∀ a : Act, a.isArrival = false → ¬ (s.after as).Permits a) ∧ as.length = 8 ∧
      s.after as = idle 2 ∧ s.tally (seats (.normal .send)) as = 1 ∧ s.tally departs as = 5 := by
  let past : List Act := [.arrive (.normal .receive), .arrive (.normal .receive),
    .arrive (.priority .send), .arrive (.normal .send), .arrive (.priority .receive)]
  let as : List Act := [.leave, .leave, .comeBack (.priority .receive), .leave,
    .comeBack (.normal .send), .comeBack (.priority .send), .leave, .leave]
  have hmax : ∀ a : Act, a.isArrival = false → ¬ (((idle 2).after past).after as).Permits a := by
    intro a ha
    cases a with
    | arrive l => cases ha
    | comeBack l => rcases l with ⟨_ | _, _ | _⟩ <;> decide
    | leave => decide
  obtain ⟨-, -, hend⟩ :=
    @drains_to_idle _ as past 2 (by decide) (by decide) rfl (by decide) (by decide)
  obtain ⟨hlength, hidle, hseats, hdeparts⟩ := hend hmax
  exact ⟨past, as, _, by decide, rfl, by decide, by decide, by decide, by decide, hmax, hlength,
    hidle, hseats _, hdeparts⟩

end HalfDuplex.Arbiter
