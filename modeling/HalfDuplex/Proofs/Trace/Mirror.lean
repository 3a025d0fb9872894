import HalfDuplex.Proofs.Crew.Occupancy
import HalfDuplex.Proofs.Trace.Following

/-!
# The trace of a run

The replay of the events that a crew has recorded keeps the same riders as the
bus and the same counters. A turn records the events that the replay needs to
stay alike, and none of them breaks a rule, as long as no two riders share an
id; the replay tells them apart by nothing else.
-/

namespace HalfDuplex.Crew

open Trace Replay

variable {cfg : Bus.Config} {workers : List Worker} {acts : List (Nat × Phase)}
  {r : Replay} {b b' : Bus} {ws : Multiset Worker} {w : Worker} {p q : Phase} {c d : Crew}
  {i cap : Nat}

def seats (ws : Multiset Worker) : Multiset (Nat × Lane) :=
  (tasksIn Phase.isRiding ws).map fun t => (t.id, t.lane)

/-- No two riders have the same id. -/
def RidersApart (ws : Multiset Worker) : Prop := ((tasksIn Phase.isRiding ws).map Task.id).Nodup

theorem map_fst_seats (ws : Multiset Worker) :
    (seats ws).map Prod.fst = (tasksIn Phase.isRiding ws).map Task.id :=
  Multiset.map_map ..

theorem map_snd_seats (ws : Multiset Worker) :
    (seats ws).map Prod.snd = lanesIn Phase.isRiding ws :=
  Multiset.map_map ..

theorem seats_stay (h : q.isRiding = w.phase.isRiding) :
    seats ({ w with phase := q } ::ₘ ws) = seats (w ::ₘ ws) := by
  unfold seats
  rw [tasksIn_stay h]

theorem seats_enter (hold : w.phase.isRiding = false) (hnew : q.isRiding = true) :
    seats ({ w with phase := q } ::ₘ ws) = (w.task.id, w.task.lane) ::ₘ seats (w ::ₘ ws) := by
  unfold seats
  rw [tasksIn_enter hold hnew, Multiset.map_cons]

theorem seats_exit (hold : w.phase.isRiding = true) (hnew : q.isRiding = false) :
    seats (w ::ₘ ws) = (w.task.id, w.task.lane) ::ₘ seats ({ w with phase := q } ::ₘ ws) := by
  unfold seats
  rw [tasksIn_exit hold hnew, Multiset.map_cons]

/-- The replay is in the state of the bus. -/
structure Mirrors (r : Replay) (b : Bus) (ws : Multiset Worker) : Prop
    extends Follows r b.arbiter where
  riding_eq : (r.riding : Multiset (Nat × Lane)) = seats ws
  blocked_eq : r.queued = b.stats.blocked
  admitted_eq : r.boarded = b.stats.admitted
  left_eq : r.boarded = r.left + b.arbiter.onBus
  peak_eq : r.peakOnBus = b.stats.peakOnBus
  peak_le : b.stats.peakOnBus ≤ b.arbiter.capacity

theorem Mirrors.heading_eq (hm : Mirrors r b ws) (h : Joint b ws) :
    ∀ x ∈ r.riding, b.arbiter.heading = some x.2.direction := by
  intro x hx
  apply h.carries.alike
  rw [← map_snd_seats, ← hm.riding_eq]
  exact Multiset.mem_map_of_mem Prod.snd hx

theorem Mirrors.id_ne (hm : Mirrors r b (w ::ₘ ws)) (hold : w.phase.isRiding = false)
    (hnew : q.isRiding = true) (ha : RidersApart ({ w with phase := q } ::ₘ ws)) :
    ∀ x ∈ r.riding, x.1 ≠ w.task.id := by
  intro x hx he
  unfold RidersApart at ha
  rw [tasksIn_enter hold hnew, Multiset.map_cons, Multiset.nodup_cons, ← map_fst_seats,
    ← hm.riding_eq, ← he] at ha
  exact ha.1 (Multiset.mem_map_of_mem Prod.fst hx)

theorem Mirrors.without_eq (hm : Mirrors r b (w ::ₘ ws)) (hold : w.phase.isRiding = true)
    (hnew : q.isRiding = false) (ha : RidersApart (w ::ₘ ws)) :
    (r.without w.task.id : Multiset (Nat × Lane)) = seats ({ w with phase := q } ::ₘ ws) := by
  unfold RidersApart at ha
  rw [tasksIn_exit hold hnew, Multiset.map_cons, Multiset.nodup_cons, ← map_fst_seats] at ha
  have hriding := hm.riding_eq
  rw [seats_exit hold hnew] at hriding
  have hcoe : ((r.riding : Multiset (Nat × Lane)).filter fun x => (x.1 != w.task.id) = true) =
      (r.without w.task.id : Multiset (Nat × Lane)) := by
    rw [Multiset.filter_coe]
    simp only [Bool.decide_eq_true]
    rfl
  rw [← hcoe, hriding, Multiset.filter_cons_of_neg, Multiset.filter_eq_self]
  · intro x hx
    apply bne_iff_ne.mpr
    intro he
    exact ha.1 (he ▸ Multiset.mem_map_of_mem Prod.fst hx)
  · simp

/-- The bus has gone on to `b'` and recorded events by which the replay keeps up. -/
def KeepsUp (r : Replay) (b b' : Bus) (ws' : Multiset Worker) : Prop :=
  ∃ es r', b'.trace = b.trace.map (· ++ es) ∧ Leads b.arbiter.capacity r es r' ∧
    Mirrors r' b' ws'

theorem Mirrors.queue (hm : Mirrors r b (w ::ₘ ws)) (h : Joint b (w ::ₘ ws))
    (hp : w.phase = .starting) (hw : b.arbiter.mustWait w.task.lane = true) :
    KeepsUp r b (b.queueIn w.task) ({ w with phase := .queued } ::ₘ ws) := by
  have hb := (h.carries.toCoherent.addWaiting hw).toBalanced
  refine ⟨[.queued w.task.id w.task.lane], r.queue w.task.lane, rfl, hm.leads_queued hb,
    hm.toFollows.queue w.task.lane, ?_, ?_, hm.admitted_eq, hm.left_eq, hm.peak_eq, hm.peak_le⟩
  · rw [seats_stay (by rw [hp]; rfl)]
    exact hm.riding_eq
  · exact congrArg (· + 1) hm.blocked_eq

theorem Mirrors.direction_eq (hm : Mirrors r b ws) (h : Joint b ws) {e : Direction}
    (hn : b.arbiter.heldAgainst e = false) : ∀ x ∈ r.riding, x.2.direction = e := by
  intro x hx
  have hhead := hm.heading_eq h x hx
  rcases Arbiter.heldAgainst_eq_false_iff.mp hn with hd | hd <;> rw [hd] at hhead
  · cases hhead
  · exact (Option.some.inj hhead).symm

theorem Mirrors.aboard (hm : Mirrors r b (w ::ₘ ws)) (hold : w.phase.isRiding = false)
    (granted : Bool) (due : Nat) (hb : (b.arbiter.addRider w.task.lane.direction).Balanced) :
    Mirrors (r.aboard w.task.id w.task.lane) (b.seat w.task granted)
      ({ w with phase := .riding due } ::ₘ ws) where
  toFollows := hm.toFollows.aboard w.task.id w.task.lane
  riding_eq := by
    rw [seats_enter hold rfl, ← hm.riding_eq]
    rfl
  blocked_eq := hm.blocked_eq
  admitted_eq := congrArg (· + 1) hm.admitted_eq
  left_eq := by
    have hleft := hm.left_eq
    change r.boarded + 1 = r.left + (b.arbiter.onBus + 1)
    omega
  peak_eq := by
    change max r.peakOnBus (r.onBus + 1) = max b.stats.peakOnBus (b.arbiter.onBus + 1)
    rw [hm.peak_eq, hm.onBus_eq]
  peak_le := by
    have hpeak := hm.peak_le
    have hfits := hb.fits
    change b.arbiter.onBus + 1 + b.arbiter.reserved ≤ b.arbiter.capacity at hfits
    change max b.stats.peakOnBus (b.arbiter.onBus + 1) ≤ b.arbiter.capacity
    omega

theorem Mirrors.board (hm : Mirrors r b (w ::ₘ ws)) (h : Joint b (w ::ₘ ws))
    (hp : w.phase = .starting) (due : Nat) (hw : b.arbiter.mustWait w.task.lane = false)
    (ha : RidersApart ({ w with phase := .riding due } ::ₘ ws)) :
    KeepsUp r b (b.seat w.task false) ({ w with phase := .riding due } ::ₘ ws) := by
  have hold : w.phase.isRiding = false := by rw [hp]; rfl
  have hb := (h.carries.toCoherent.addRider hw).toBalanced
  have ho := hm.direction_eq h (Arbiter.mustWait_eq_false_iff.mp hw).2.1
  exact ⟨_, _, rfl, hm.leads_boarded hw ho (hm.id_ne hold rfl ha) hb,
    hm.aboard hold false due hb⟩

theorem Mirrors.pickUp (hm : Mirrors r b (w ::ₘ ws)) (hp : w.phase = .queued) :
    KeepsUp r b (b.pickUp w.task.lane) ({ w with phase := .returning } ::ₘ ws) := by
  refine ⟨[], r, ?_, .nil, hm.toFollows, ?_, hm.blocked_eq, hm.admitted_eq, hm.left_eq,
    hm.peak_eq, hm.peak_le⟩
  · change b.trace = _
    simp
  · rw [seats_stay (by rw [hp]; rfl)]
    exact hm.riding_eq

theorem Mirrors.spend (hm : Mirrors r b ws) (l : Lane) :
    Mirrors (r.spend l) { b with arbiter := b.arbiter.useGrant l } ws where
  toFollows := hm.toFollows.spend l
  riding_eq := hm.riding_eq
  blocked_eq := hm.blocked_eq
  admitted_eq := hm.admitted_eq
  left_eq := hm.left_eq
  peak_eq := hm.peak_eq
  peak_le := hm.peak_le

theorem Mirrors.comeBack (hm : Mirrors r b (w ::ₘ ws)) (h : Joint b (w ::ₘ ws))
    (hp : w.phase = .returning) (due : Nat)
    (ha : RidersApart ({ w with phase := .riding due } ::ₘ ws)) :
    KeepsUp r b (b.seatGranted w.task) ({ w with phase := .riding due } ::ₘ ws) := by
  have hold : w.phase.isRiding = false := by rw [hp]; rfl
  have hg := h.granted_pos hp
  have hb := (h.carries.toCoherent.comeBack hg).toBalanced
  have hn := Arbiter.heldAgainst_eq_false_iff.mpr (.inr (h.carries.ahead w.task.lane hg))
  have ho := hm.direction_eq h hn
  exact ⟨_, _, rfl, hm.leads_boarded_granted hg ho (hm.id_ne hold rfl ha) hb,
    (hm.spend w.task.lane).aboard hold true due hb⟩

theorem Mirrors.part (hm : Mirrors r b (w ::ₘ ws)) (h : Joint b (w ::ₘ ws)) {due : Nat}
    (hp : w.phase = .riding due) (hq : q.isOver = true) (ha : RidersApart (w ::ₘ ws)) :
    KeepsUp r b (b.part w.task) ({ w with phase := q } ::ₘ ws) := by
  have hold : w.phase.isRiding = true := by rw [hp]; rfl
  have hnew := (Phase.absent_of_isOver hq).notRiding
  have hwithout := hm.without_eq hold hnew ha
  have hone : (r.without w.task.id).length + 1 = r.riding.length := by
    have hcard := congrArg Multiset.card hm.riding_eq
    rw [seats_exit hold hnew, Multiset.card_cons, ← hwithout] at hcard
    exact hcard.symm
  have hpos := h.onBus_pos hp
  have hb := h.carries.balanced_vacate hpos
  have hgone := hm.toFollows.gone hone
  have hdeparted := (h.part hp hq).carries
  have ho : ∀ x ∈ (r.gone w.task.id).riding,
      b.arbiter.vacate.handOver.2.heading = some x.2.direction := by
    intro x hx
    apply hdeparted.alike
    rw [← map_snd_seats, ← hwithout]
    exact Multiset.mem_map_of_mem Prod.snd hx
  obtain ⟨waiting, granted, hleads, hfollows⟩ := hgone.leads_handOver hb ho
  refine ⟨_, _, rfl, (hm.leads_left hone hb).append hleads, hfollows, hwithout, hm.blocked_eq,
    hm.admitted_eq, ?_, hm.peak_eq, ?_⟩
  · have hleft := hm.left_eq
    change r.boarded = r.left + 1 + b.arbiter.vacate.handOver.2.onBus
    rw [Arbiter.onBus_handOver]
    change r.boarded = r.left + 1 + (b.arbiter.onBus - 1)
    omega
  · exact hm.peak_le.trans_eq (Arbiter.capacity_handOver b.arbiter.vacate).symm

theorem Mirrors.turn (hm : Mirrors r b (w ::ₘ ws)) (h : Joint b (w ::ₘ ws)) (hp : w.phase = p)
    (ht : Turn b w.task p b' q) (ha : RidersApart (w ::ₘ ws))
    (ha' : RidersApart ({ w with phase := q } ::ₘ ws)) :
    KeepsUp r b b' ({ w with phase := q } ::ₘ ws) := by
  cases ht with
  | queue hw => exact hm.queue h hp hw
  | board due hw => exact hm.board h hp due hw ha'
  | pickUp hpos => exact hm.pickUp hp
  | comeBack due => exact hm.comeBack h hp due ha'
  | part due hq => exact hm.part h hp hq ha

theorem step?_poisoned (hp : c.bus.poisoned = true) (hs : c.step? i = some d) :
    d.bus.poisoned = true := by
  unfold step? at hs
  split at hs
  · cases hs
  · next w hw =>
    split at hs
    · cases hs
      rw [enter, Bus.enter_of_poisoned hp]
      exact hp
    · obtain ⟨b, hb, rfl⟩ := Option.map_eq_some_iff.mp hs
      obtain ⟨s, -, rfl⟩ := Option.map_eq_some_iff.mp hb
      exact hp
    · cases hs
      rw [comeBack, Bus.comeBack_of_poisoned hp]
      exact hp
    · next due _ =>
      cases hs
      have hrelease := Bus.release_poisoned w.givesUp w.task hp
      unfold release
      dsimp only
      split <;> next he => rw [he] at hrelease; exact hrelease
    · cases hs
    · cases hs

theorem unpoisoned_of_step? (hs : c.step? i = some d) (hu : d.bus.poisoned = false) :
    c.bus.poisoned = false := by
  cases hp : c.bus.poisoned with
  | false => rfl
  | true => rw [step?_poisoned hp hs] at hu; cases hu

/-- The trace of the bus replays without a breach, and the replay ends in the
state of the bus. -/
def Recorded (b : Bus) (ws : Multiset Worker) : Prop :=
  ∃ events r, b.trace = some events ∧ Leads b.arbiter.capacity Replay.start events r ∧
    Mirrors r b ws

theorem recorded_start (htrace : cfg.recordTrace = true)
    (hs : ∀ w ∈ workers, w.phase = .starting) : Recorded (Bus.fresh cfg) workers := by
  refine ⟨[], Replay.start, ?_, .nil, follows_start cfg.capacity, ?_, rfl, rfl, rfl, rfl,
    Nat.zero_le _⟩
  · unfold Bus.fresh
    rw [htrace]
    rfl
  · unfold seats
    rw [tasksIn_eq_zero fun w hw => by rw [hs w hw]; rfl]
    rfl

theorem Recorded.keepsUp (h : Recorded b ws) (hcap : b'.arbiter.capacity = b.arbiter.capacity)
    {ws' : Multiset Worker} (hk : ∀ r, Mirrors r b ws → KeepsUp r b b' ws') : Recorded b' ws' := by
  obtain ⟨events, r, htrace, hleads, hm⟩ := h
  obtain ⟨es, r', htrace', hleads', hm'⟩ := hk r hm
  rw [← hcap] at hleads hleads'
  exact ⟨events ++ es, r', by rw [htrace', htrace]; rfl, hleads.append hleads', hm'⟩

theorem Runs.recorded (hc : 0 < cfg.capacity) (hcap : cfg.capacity < Word.size)
    (htrace : cfg.recordTrace = true) (hs : ∀ w ∈ workers, w.phase = .starting)
    (hr : Runs (start (Bus.fresh cfg) workers) acts c)
    (ha : ∀ past d, past <+: acts → Runs (start (Bus.fresh cfg) workers) past d →
      RidersApart d.workers) :
    c.bus.poisoned = true ∨ Joint c.bus c.workers ∧ Recorded c.bus c.workers ∧
      c.bus.arbiter.capacity = cfg.capacity := by
  induction hr with
  | nil => exact .inr ⟨joint_start hc hcap hs, recorded_start htrace hs, rfl⟩
  | @snoc acts c d v i hr hstep hv ih =>
    have hbefore := ha acts c (List.prefix_append _ _) hr
    have hafter := ha _ d (List.prefix_refl _) (hr.snoc i hstep hv)
    obtain hp | ⟨h, hrec, hcapacity⟩ :=
      ih fun past d hpast => ha past d (hpast.trans (List.prefix_append _ _))
    · exact .inl (step?_poisoned hp hstep)
    · obtain ⟨w, q, hw, hset, ht | ⟨hp, -⟩⟩ := step?_cases h hstep
      · obtain ⟨others, ho, ho'⟩ := exists_others hw { w with phase := q }
        rw [ho] at h hrec hbefore
        rw [hset, ho'] at hafter ⊢
        exact .inr ⟨h.turn rfl ht,
          hrec.keepsUp ht.capacity_eq fun r hm => hm.turn h rfl ht hbefore hafter,
          ht.capacity_eq.trans hcapacity⟩
      · exact .inl hp

theorem ridersApart_of_nodup (h : (ws.map fun w => w.task.id).Nodup) : RidersApart ws := by
  unfold RidersApart tasksIn
  rw [Multiset.map_map]
  exact Multiset.nodup_of_le (Multiset.map_le_map (Multiset.filter_le _ ws)) h

theorem Runs.ids_eq (hc : 0 < cfg.capacity) (hcap : cfg.capacity < Word.size)
    (hs : ∀ w ∈ workers, w.phase = .starting) (hn : workers.length < Word.size)
    (hr : Runs (start (Bus.fresh cfg) workers) acts c) :
    (c.workers : Multiset Worker).map (fun w => w.task.id) =
      (workers : Multiset Worker).map fun w => w.task.id := by
  refine (ready_start hc hcap hs hn).turn_induction (P := fun _ c =>
    (c.workers : Multiset Worker).map (fun w => w.task.id) = _) hr rfl ?_
  intro acts c d i w q ih hw hset _
  obtain ⟨others, ho, ho'⟩ := exists_others hw { w with phase := q }
  rw [ho, Multiset.map_cons] at ih
  rw [hset, ho', Multiset.map_cons]
  exact ih

theorem Runs.ridersApart (hc : 0 < cfg.capacity) (hcap : cfg.capacity < Word.size)
    (hs : ∀ w ∈ workers, w.phase = .starting) (hn : workers.length < Word.size)
    (hr : Runs (start (Bus.fresh cfg) workers) acts c)
    (hids : ((workers : Multiset Worker).map fun w => w.task.id).Nodup) :
    RidersApart c.workers :=
  ridersApart_of_nodup (hr.ids_eq hc hcap hs hn ▸ hids)

theorem Recorded.checks (h : Recorded b ws) :
    ∃ events summary, b.trace = some events ∧
      Trace.check b.arbiter.capacity events = .ok summary ∧
      summary.queued = b.stats.blocked ∧ summary.boarded = b.stats.admitted ∧
      summary.peakOnBus = b.stats.peakOnBus ∧ summary.peakOnBus ≤ b.arbiter.capacity ∧
      summary.boarded = summary.left + b.arbiter.onBus ∧
      summary.unfinished = b.arbiter.totalPending := by
  obtain ⟨events, r, hevents, hleads, hm⟩ := h
  refine ⟨events, r.summary, hevents, ?_, hm.blocked_eq, hm.admitted_eq, hm.peak_eq,
    hm.peak_eq.trans_le hm.peak_le, hm.left_eq, ?_⟩
  · rw [Trace.check, hleads 0]
    rfl
  · rw [Arbiter.totalPending_eq, ← hm.waiting_sum, ← hm.reserved_eq]
    rfl

/-- As long as no counter has overflowed, the trace of a run replays without a
breach whatever the order of the steps, and its summary is that of the bus. A
crew of fewer workers than a word counts overflows none. -/
theorem recorded_trace_checks (hc : 0 < cfg.capacity) (hcap : cfg.capacity < Word.size)
    (htrace : cfg.recordTrace = true) (hs : ∀ w ∈ workers, w.phase = .starting)
    (hr : Runs (start (Bus.fresh cfg) workers) acts c)
    (ha : ∀ past d, past <+: acts → Runs (start (Bus.fresh cfg) workers) past d →
      RidersApart d.workers) :
    (workers.length < Word.size → c.bus.poisoned = false) ∧
      (c.bus.poisoned = false → ∃ events summary, c.bus.trace = some events ∧
        Trace.check cfg.capacity events = .ok summary ∧
        summary.queued = c.bus.stats.blocked ∧ summary.boarded = c.bus.stats.admitted ∧
        summary.peakOnBus = c.bus.stats.peakOnBus ∧ summary.peakOnBus ≤ cfg.capacity ∧
        summary.boarded = summary.left + c.bus.arbiter.onBus ∧
        summary.unfinished = c.bus.arbiter.totalPending) := by
  constructor
  · intro hn
    exact (hr.spec hc hcap hs hn).1.unpoisoned
  · intro hu
    obtain hp | ⟨-, hrecorded, hcapacity⟩ := hr.recorded hc hcap htrace hs ha
    · rw [hp] at hu
      cases hu
    · rw [← hcapacity]
      exact hrecorded.checks

/-- The departure of the second worker turns the bus to the third. -/
theorem recorded_trace_checks_turning :
    ∃ acts c, Runs (start (Bus.fresh ⟨1, true⟩) trio) acts c ∧ acts.length = 7 ∧
      ∃ events summary, c.bus.trace = some events ∧ Trace.check 1 events = .ok summary ∧
        events.length = 8 ∧ summary.boarded = summary.left + c.bus.arbiter.onBus ∧
        summary.unfinished = c.bus.arbiter.totalPending := by
  have hr : Runs (start (Bus.fresh ⟨1, true⟩) trio) _ _ :=
    .snoc 1 (.snoc 1 (.snoc 2 (.snoc 1 (.snoc 0 (.snoc 1 (.snoc 0 .nil rfl rfl) rfl rfl) rfl rfl)
      rfl rfl) rfl rfl) rfl rfl) rfl rfl
  have hids : ((trio : Multiset Worker).map fun w => w.task.id).Nodup := by decide
  obtain ⟨hsound, hchecks⟩ :=
    recorded_trace_checks (by decide) (by decide) rfl (by decide) hr fun past d _ hpast =>
      hpast.ridersApart (by decide) (by decide) (by decide) (by decide) hids
  obtain ⟨events, summary, hevents, hcheck, -, -, -, -, hleft, hpending⟩ :=
    hchecks (hsound (by decide))
  exact ⟨_, _, hr, rfl, events, summary, hevents, hcheck, by cases hevents; rfl, hleft, hpending⟩

end HalfDuplex.Crew
