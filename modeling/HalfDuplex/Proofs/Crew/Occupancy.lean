import HalfDuplex.Proofs.Crew.Turns

/-!
# Occupancy along every run of a crew

A run is a row of steps in any order of the workers; each is written down as
the worker that took it and the phase that it went to. From a fresh bus on which
everybody is yet to arrive, no call of a run faults, and the accounts of the
occupancy agree after every step.
-/

namespace HalfDuplex

namespace Crew

variable {b b' : Bus} {ws : Multiset Worker} {w : Worker} {p q : Phase} {c d : Crew} {i : Nat}

structure Room (b : Bus) (ws : Multiset Worker) : Prop where
  blocked_lt : b.stats.blocked + (tasksIn Phase.isStarting ws).card < Word.size
  admitted_lt : b.stats.admitted + (tasksIn Phase.isUnseated ws).card < Word.size

theorem Joint.totalPending_eq (h : Joint b ws) :
    b.arbiter.totalPending =
      (tasksIn Phase.isQueued ws).card + (tasksIn Phase.isReturning ws).card := by
  have hq : b.arbiter.queues.map Queue.pending =
      PerLane.ofFn fun l => (lanesIn Phase.isQueued ws + lanesIn Phase.isReturning ws).count l := by
    apply PerLane.ext_get
    intro l
    rw [PerLane.get_map, PerLane.get_ofFn, Multiset.count_add]
    exact h.queued_eq l
  unfold Arbiter.totalPending
  rw [hq, sum_count_lanes, Multiset.card_add, card_lanesIn, card_lanesIn]

theorem Joint.onBus_eq (h : Joint b ws) :
    b.arbiter.onBus = (tasksIn Phase.isRiding ws).card :=
  h.carries.card_eq.symm.trans (card_lanesIn ..)

theorem Joint.present_le (h : Joint b ws) :
    b.arbiter.onBus + b.arbiter.totalPending ≤ ws.card := by
  have hle := card_tasksIn_le Phase.isPresent ws
  rw [card_present] at hle
  rw [h.onBus_eq, h.totalPending_eq]
  omega

theorem card_tasksIn_pos {r : Phase → Bool} (h : r w.phase = true) :
    0 < (tasksIn r (w ::ₘ ws)).card := by
  rw [tasksIn_cons_of_pos h, Multiset.card_cons]
  exact Nat.succ_pos _

theorem Joint.fits (h : Joint b (w ::ₘ ws)) (hr : Room b (w ::ₘ ws)) (hp : w.phase = .starting) :
    b.Fits w.task := by
  have hs : 0 < (tasksIn Phase.isStarting (w ::ₘ ws)).card :=
    card_tasksIn_pos (by rw [hp]; rfl)
  have hpend := b.arbiter.pending_le_totalPending w.task.lane
  have htotal := h.totalPending_eq
  have hblocked := hr.blocked_lt
  have hadmitted := hr.admitted_lt
  rw [card_unseated] at hadmitted
  unfold Queue.pending at hpend
  exact ⟨by omega, by omega, by omega⟩

theorem Room.admitted_fits (hr : Room b (w ::ₘ ws)) (hp : w.phase = .returning) :
    b.stats.admitted + 1 < Word.size := by
  have hs : 0 < (tasksIn Phase.isUnseated (w ::ₘ ws)).card :=
    card_tasksIn_pos (by rw [hp]; rfl)
  have hadmitted := hr.admitted_lt
  omega

theorem Room.turn (hr : Room b (w ::ₘ ws)) (hp : w.phase = p) (ht : Turn b w.task p b' q) :
    Room b' ({ w with phase := q } ::ₘ ws) := by
  obtain ⟨hblocked, hadmitted⟩ := hr
  cases ht with
  | queue hw =>
    rw [tasksIn_exit (q := .queued) (by rw [hp]; rfl) rfl, Multiset.card_cons] at hblocked
    rw [← tasksIn_stay (q := .queued) (by rw [hp]; rfl)] at hadmitted
    refine ⟨?_, hadmitted⟩
    change b.stats.blocked + 1 + _ < Word.size
    omega
  | board due hw =>
    rw [tasksIn_exit (q := .riding due) (by rw [hp]; rfl) rfl, Multiset.card_cons] at hblocked
    rw [tasksIn_exit (q := .riding due) (by rw [hp]; rfl) rfl, Multiset.card_cons] at hadmitted
    constructor
    · change b.stats.blocked + _ < Word.size
      omega
    · change b.stats.admitted + 1 + _ < Word.size
      omega
  | pickUp hpos =>
    rw [← tasksIn_stay (q := .returning) (by rw [hp]; rfl)] at hblocked hadmitted
    exact ⟨hblocked, hadmitted⟩
  | comeBack due =>
    rw [← tasksIn_stay (q := .riding due) (by rw [hp]; rfl)] at hblocked
    rw [tasksIn_exit (q := .riding due) (by rw [hp]; rfl) rfl, Multiset.card_cons] at hadmitted
    refine ⟨hblocked, ?_⟩
    change b.stats.admitted + 1 + _ < Word.size
    omega
  | part due hq =>
    have hgone := Phase.absent_of_isOver hq
    rw [← tasksIn_stay (hgone.notStarting.trans (by rw [hp]; rfl))] at hblocked
    rw [← tasksIn_stay (hgone.notUnseated.trans (by rw [hp]; rfl))] at hadmitted
    exact ⟨hblocked, hadmitted⟩

theorem enter_cases (h : Joint c.bus (w ::ₘ ws)) (hp : w.phase = .starting) :
    ∃ q, (c.enter i w).workers = c.workers.set i { w with phase := q } ∧
      (Turn c.bus w.task .starting (c.enter i w).bus q ∨
        (c.enter i w).bus.poisoned = true ∧ ¬ Room c.bus (w ::ₘ ws)) := by
  obtain ⟨hw, n, he⟩ | ⟨hw, he⟩ | ⟨b', f, he, hpois, hfull⟩ :=
    h.sound.enter_cases h.unpoisoned w.task
  · have hc : c.enter i w =
        (c.move i w (c.bus.queueIn w.task) .queued).write .debug .bus [n.text] := by
      rw [enter, he]
      rfl
    rw [hc]
    exact ⟨_, rfl, .inl (.queue hw)⟩
  · have hc : c.enter i w = c.ride i w (c.bus.seat w.task false) := by rw [enter, he]; rfl
    rw [hc]
    exact ⟨_, rfl, .inl (.board _ hw)⟩
  · have hc : c.enter i w = c.fail i w b' f := by rw [enter, he]; rfl
    rw [hc]
    exact ⟨_, rfl, .inr ⟨hpois, fun hr => hfull (h.fits hr hp)⟩⟩

theorem comeBack_cases (h : Joint c.bus (w ::ₘ ws)) (hp : w.phase = .returning) :
    ∃ q, (c.comeBack i w).workers = c.workers.set i { w with phase := q } ∧
      (Turn c.bus w.task .returning (c.comeBack i w).bus q ∨
        (c.comeBack i w).bus.poisoned = true ∧ ¬ Room c.bus (w ::ₘ ws)) := by
  obtain he | ⟨b', f, he, hpois, hfull⟩ := h.sound.comeBack_cases h.unpoisoned (h.granted_pos hp)
  · have hc : c.comeBack i w = c.ride i w (c.bus.seatGranted w.task) := by rw [comeBack, he]; rfl
    rw [hc]
    exact ⟨_, rfl, .inl (.comeBack _)⟩
  · have hc : c.comeBack i w = c.fail i w b' f := by rw [comeBack, he]; rfl
    rw [hc]
    exact ⟨_, rfl, .inr ⟨hpois, fun hr => hfull (hr.admitted_fits hp)⟩⟩

theorem release_cases (h : Joint c.bus (w ::ₘ ws)) {due : Nat} (hp : w.phase = .riding due) :
    ∃ q, (c.release i w due).workers = c.workers.set i { w with phase := q } ∧
      Turn c.bus w.task (.riding due) (c.release i w due).bus q := by
  obtain ⟨dep, hd⟩ := h.sound.release_eq (t := w.task) w.givesUp (h.onBus_pos hp)
  have hover : (if w.givesUp then Phase.failed .interrupted else .finished).isOver = true := by
    cases w.givesUp <;> rfl
  have hc : c.release i w due =
      ({ c with clock := max c.clock due }.move i w (c.bus.part w.task)
        (if w.givesUp then .failed .interrupted else .finished)).write
          .debug .bus dep.text?.toList := by
    rw [release]
    dsimp only
    rw [hd]
    rfl
  rw [hc]
  exact ⟨_, rfl, .part due hover⟩

theorem passQueue?_cases (hs : c.passQueue? i w = some d) :
    d.workers = c.workers.set i { w with phase := .returning } ∧
      Turn c.bus w.task .queued d.bus .returning := by
  by_cases hpos : 0 < (c.bus.queues.get w.task.lane).permits
  · rw [passQueue?, Bus.passQueue?_eq_some hpos] at hs
    cases hs
    exact ⟨rfl, .pickUp hpos⟩
  · have hnone : (c.bus.queues.get w.task.lane).permits = 0 := by omega
    rw [passQueue?, Bus.passQueue?_eq_none_iff.mpr hnone] at hs
    cases hs

/-- A step of a worker is a turn, or the statistics were full and the bus is
poisoned. -/
theorem step?_cases (h : Joint c.bus c.workers) (hs : c.step? i = some d) :
    ∃ w q, c.workers[i]? = some w ∧ d.workers = c.workers.set i { w with phase := q } ∧
      (Turn c.bus w.task w.phase d.bus q ∨ d.bus.poisoned = true ∧ ¬ Room c.bus c.workers) := by
  unfold step? at hs
  cases hw : c.workers[i]? with
  | none => rw [hw] at hs; cases hs
  | some w =>
    obtain ⟨others, ho, -⟩ := exists_others hw w
    rw [ho] at h ⊢
    rw [hw] at hs
    dsimp only at hs
    cases hp : w.phase with
    | starting =>
      rw [hp] at hs
      cases hs
      obtain ⟨q, hset, ht⟩ := enter_cases (i := i) h hp
      exact ⟨w, q, rfl, hset, hp ▸ ht⟩
    | queued =>
      rw [hp] at hs
      obtain ⟨hset, ht⟩ := passQueue?_cases hs
      exact ⟨w, .returning, rfl, hset, .inl (hp ▸ ht)⟩
    | returning =>
      rw [hp] at hs
      cases hs
      obtain ⟨q, hset, ht⟩ := comeBack_cases (i := i) h hp
      exact ⟨w, q, rfl, hset, hp ▸ ht⟩
    | riding due =>
      rw [hp] at hs
      cases hs
      obtain ⟨q, hset, ht⟩ := release_cases (i := i) h hp
      exact ⟨w, q, rfl, hset, .inl (hp ▸ ht)⟩
    | finished => rw [hp] at hs; cases hs
    | failed f => rw [hp] at hs; cases hs

variable {cfg : Bus.Config} {workers : List Worker} {acts : List (Nat × Phase)}

/-- The crew comes to be `c` by steps of its workers, in any order: `acts` names
the worker that took each step and the phase that it went to. -/
inductive Runs (start : Crew) : List (Nat × Phase) → Crew → Prop where
  | nil : Runs start [] start
  | snoc {acts : List (Nat × Phase)} {c d : Crew} {w : Worker} (i : Nat) :
    Runs start acts c → c.step? i = some d → d.workers[i]? = some w →
      Runs start (acts ++ [(i, w.phase)]) d

theorem Turn.capacity_eq (ht : Turn b w.task p b' q) :
    b'.arbiter.capacity = b.arbiter.capacity := by
  cases ht with
  | part due hq => exact Arbiter.capacity_handOver b.arbiter.vacate
  | _ => rfl

theorem step?_turn (h : Joint c.bus c.workers) (hr : Room c.bus c.workers)
    (hs : c.step? i = some d) :
    ∃ w q, c.workers[i]? = some w ∧ d.workers = c.workers.set i { w with phase := q } ∧
      Turn c.bus w.task w.phase d.bus q := by
  obtain ⟨w, q, hw, hset, ht | ⟨-, hfull⟩⟩ := step?_cases h hs
  · exact ⟨w, q, hw, hset, ht⟩
  · exact absurd hr hfull

/-- The accounts agree, and the statistics have room for everybody. -/
structure Ready (c : Crew) : Prop where
  joint : Joint c.bus c.workers
  room : Room c.bus c.workers

theorem Ready.step (h : c.Ready) (hs : c.step? i = some d) :
    d.Ready ∧ d.bus.arbiter.capacity = c.bus.arbiter.capacity ∧
      d.workers.length = c.workers.length := by
  obtain ⟨hjoint, hroom⟩ := h
  obtain ⟨w, q, hw, hset, ht⟩ := step?_turn hjoint hroom hs
  obtain ⟨others, ho, ho'⟩ := exists_others hw { w with phase := q }
  rw [ho] at hjoint hroom
  refine ⟨⟨?_, ?_⟩, ht.capacity_eq, by rw [hset, List.length_set]⟩
  · rw [hset, ho']
    exact hjoint.turn rfl ht
  · rw [hset, ho']
    exact hroom.turn rfl ht

theorem Ready.run {x : Crew} (h : x.Ready) (hr : Runs x acts c) :
    c.Ready ∧ c.bus.arbiter.capacity = x.bus.arbiter.capacity ∧
      c.workers.length = x.workers.length := by
  induction hr with
  | nil => exact ⟨h, rfl, rfl⟩
  | snoc i _ hstep _ ih =>
    obtain ⟨h, hcapacity, hlength⟩ := ih
    obtain ⟨h', hcapacity', hlength'⟩ := h.step hstep
    exact ⟨h', hcapacity'.trans hcapacity, hlength'.trans hlength⟩

/-- What holds of a crew and is kept by every turn holds along every run. -/
theorem Ready.turn_induction {x : Crew} {P : List (Nat × Phase) → Crew → Prop} (h : x.Ready)
    (hr : Runs x acts c) (h0 : P [] x)
    (hturn : ∀ {acts : List (Nat × Phase)} {c d : Crew} {i : Nat} {w : Worker} {q : Phase},
      P acts c → c.workers[i]? = some w → d.workers = c.workers.set i { w with phase := q } →
        Turn c.bus w.task w.phase d.bus q → P (acts ++ [(i, q)]) d) : P acts c := by
  induction hr with
  | nil => exact h0
  | @snoc acts c d v i hr hstep hv ih =>
    obtain ⟨⟨hjoint, hroom⟩, -⟩ := h.run hr
    obtain ⟨w, q, hw, hset, ht⟩ := step?_turn hjoint hroom hstep
    rw [hset, List.getElem?_set_self (List.getElem?_eq_some_iff.mp hw).1] at hv
    cases hv
    exact hturn ih hw hset ht

theorem lanesIn_starting (hs : ∀ w ∈ ws, w.phase = .starting) {r : Phase → Bool}
    (hr : r .starting = false) : lanesIn r ws = 0 :=
  lanesIn_eq_zero fun w hw => (congrArg r (hs w hw)).trans hr

theorem joint_of_atRest {cap : Nat} (hrest : b.AtRest cap) (hc : 0 < cap)
    (hcap : cap < Word.size) (hs : ∀ w ∈ ws, w.phase = .starting) : Joint b ws where
  toSynced := hrest.synced hcap
  unpoisoned := hrest.unpoisoned
  unbroken w hw := by rw [hs w hw]; rfl
  carries := by
    rw [lanesIn_starting hs rfl, hrest.arbiter_eq]
    exact Arbiter.carries_idle hc
  issued_eq l := by
    rw [lanesIn_starting hs rfl, hrest.arbiter_eq, hrest.get_queues, Arbiter.queue_idle]
    rfl
  queued_eq l := by
    rw [lanesIn_starting hs rfl, lanesIn_starting hs rfl, hrest.arbiter_eq, Arbiter.queue_idle]
    rfl

theorem joint_start (hc : 0 < cfg.capacity) (hcap : cfg.capacity < Word.size)
    (hs : ∀ w ∈ workers, w.phase = .starting) : Joint (Bus.fresh cfg) workers :=
  joint_of_atRest (Bus.atRest_fresh cfg) hc hcap hs

theorem ready_of_atRest {cap : Nat} (hrest : b.AtRest cap) (hc : 0 < cap) (hcap : cap < Word.size)
    (hs : ∀ w ∈ workers, w.phase = .starting)
    (hblocked : b.stats.blocked + workers.length < Word.size)
    (hadmitted : b.stats.admitted + workers.length < Word.size) : (start b workers).Ready where
  joint := joint_of_atRest hrest hc hcap hs
  room := by
    have hstarting := card_tasksIn_le Phase.isStarting (workers : Multiset Worker)
    have hunseated := card_tasksIn_le Phase.isUnseated (workers : Multiset Worker)
    rw [Multiset.coe_card] at hstarting hunseated
    constructor
    · change b.stats.blocked + (tasksIn Phase.isStarting (workers : Multiset Worker)).card < _
      omega
    · change b.stats.admitted + (tasksIn Phase.isUnseated (workers : Multiset Worker)).card < _
      omega

theorem ready_start (hc : 0 < cfg.capacity) (hcap : cfg.capacity < Word.size)
    (hs : ∀ w ∈ workers, w.phase = .starting) (hn : workers.length < Word.size) :
    (start (Bus.fresh cfg) workers).Ready := by
  apply ready_of_atRest (Bus.atRest_fresh cfg) hc hcap hs
  · change 0 + workers.length < Word.size
    omega
  · change 0 + workers.length < Word.size
    omega

theorem Runs.spec (hc : 0 < cfg.capacity) (hcap : cfg.capacity < Word.size)
    (hs : ∀ w ∈ workers, w.phase = .starting) (hn : workers.length < Word.size)
    (hr : Runs (start (Bus.fresh cfg) workers) acts c) :
    Joint c.bus c.workers ∧ Room c.bus c.workers ∧
      c.bus.arbiter.capacity = cfg.capacity ∧ c.workers.length = workers.length := by
  obtain ⟨⟨hjoint, hroom⟩, hcapacity, hlength⟩ := (ready_start hc hcap hs hn).run hr
  exact ⟨hjoint, hroom, hcapacity, hlength⟩

/-- In every run of a crew of fewer workers than a word counts, no call faults,
and between any two steps the three accounts of the occupancy agree: the free
permits are the unoccupied slots, the riders are as many as the counter says,
and of every lane the grants are the permits of its queue and the workers on
their way back, and the tasks that wait or have a grant are those that have
queued and not boarded. No sum of the counters outgrows a word. -/
theorem accounts_agree (hc : 0 < cfg.capacity) (hcap : cfg.capacity < Word.size)
    (hs : ∀ w ∈ workers, w.phase = .starting) (hn : workers.length < Word.size)
    (hr : Runs (start (Bus.fresh cfg) workers) acts c) :
    (∀ w ∈ c.workers, w.phase.isBroken = false) ∧ c.bus.poisoned = false ∧
      c.bus.arbiter.violation? = none ∧
      c.bus.slots.permits = cfg.capacity - c.bus.arbiter.onBus ∧
      c.bus.arbiter.onBus + c.bus.arbiter.reserved ≤ cfg.capacity ∧
      c.bus.arbiter.onBus = (lanesIn Phase.isRiding c.workers).card ∧
      (∀ l, (c.bus.arbiter.queue l).granted =
        (c.bus.queues.get l).permits + (lanesIn Phase.isReturning c.workers).count l) ∧
      (∀ l, (c.bus.arbiter.queue l).waiting + (c.bus.arbiter.queue l).granted =
        (lanesIn Phase.isQueued c.workers).count l +
          (lanesIn Phase.isReturning c.workers).count l) ∧
      c.bus.arbiter.onBus + c.bus.arbiter.totalPending < Word.size := by
  obtain ⟨h, -, hcapacity, hlength⟩ := hr.spec hc hcap hs hn
  have hpresent := h.present_le
  rw [Multiset.coe_card, hlength] at hpresent
  refine ⟨h.unbroken, h.unpoisoned, h.carries.violation?_eq_none, ?_, hcapacity ▸ h.carries.fits,
    h.carries.card_eq.symm, h.issued_eq, h.queued_eq, by omega⟩
  rw [h.sound.permits_eq, hcapacity]

def trio : List Worker :=
  [⟨"sender", ⟨0, .normal .send, 5⟩, 5, false, .starting⟩,
    ⟨"receiver", ⟨1, .priority .receive, 5⟩, 5, false, .starting⟩,
    ⟨"late", ⟨2, .normal .receive, 5⟩, 5, true, .starting⟩]

/-- The third worker arrives while the second is on its way back with a permit. -/
theorem accounts_agree_on_the_way_back :
    ∃ acts c, Runs (start (Bus.fresh ⟨1, false⟩) trio) acts c ∧ acts.length = 5 ∧
      (lanesIn Phase.isReturning c.workers).count (.priority .receive) = 1 ∧
      (c.bus.arbiter.queue (.normal .receive)).waiting = 1 ∧
      (∀ w ∈ c.workers, w.phase.isBroken = false) ∧
      c.bus.slots.permits = 1 - c.bus.arbiter.onBus ∧
      (c.bus.arbiter.queue (.priority .receive)).granted =
        (c.bus.queues.get (.priority .receive)).permits + 1 := by
  have hr : Runs (start (Bus.fresh ⟨1, false⟩) trio) _ _ :=
    .snoc 2 (.snoc 1 (.snoc 0 (.snoc 1 (.snoc 0 .nil rfl rfl) rfl rfl) rfl rfl) rfl rfl) rfl rfl
  obtain ⟨hunbroken, -, -, hslots, -, -, hissued, -⟩ :=
    accounts_agree (by decide) (by decide) (by decide) (by decide) hr
  exact ⟨_, _, hr, rfl, by decide, by decide, hunbroken, hslots, hissued _⟩

end Crew

end HalfDuplex
