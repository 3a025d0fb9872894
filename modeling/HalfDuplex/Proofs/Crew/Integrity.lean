import HalfDuplex.Proofs.Crew.Moves
import HalfDuplex.Proofs.Trace.Mirror

/-!
# Buses that have overflowed a counter

A run may have more workers than a statistic counts. The call that overflows one
poisons the bus half-way, but the arbiter, the free permits and the queues have
agreed by then. After it nobody boards any more; riders still leave, and find
their slots counted.
-/

namespace HalfDuplex

namespace Bus

variable {b b' : Bus} {t : Task} {l : Lane}

/-- The buses agree but for their books and their lock. -/
structure Like (b b' : Bus) : Prop where
  arbiter_eq : b.arbiter = b'.arbiter
  slots_eq : b.slots = b'.slots
  queues_eq : b.queues = b'.queues

theorem Like.sound (hl : b.Like b') (h : b'.Sound) : b.Sound := by
  obtain ⟨arbiter, slots, queues, stats, trace, poisoned⟩ := b
  obtain ⟨rfl, rfl, rfl⟩ := hl
  exact ⟨h.toCoherent, ⟨h.capacity_lt, h.slots_eq, h.queue_bound⟩, h.permits_le⟩

theorem like_locked {α : Type} {r : Result α} (hl : r.state.Like b) : (locked r).state.Like b := by
  obtain ⟨s, _ | a⟩ := r
  · exact ⟨hl.arbiter_eq, hl.slots_eq, hl.queues_eq⟩
  · exact hl

theorem takeSlot_like (granted : Bool) (ho : b.arbiter.Open t.lane.direction)
    (hc : (b.arbiter.addRider t.lane.direction).Coherent)
    (hs : b.slots.permits = b.arbiter.capacity - b.arbiter.onBus) :
    (b.takeSlot t granted).state.Like (b.seat t granted) := by
  have hfree := ho.free
  have htake : b.slots.take? = some { b.slots with permits := b.slots.permits - 1 } := by
    rw [Semaphore.take?, if_neg (by omega)]
  unfold takeSlot
  rw [htake]
  dsimp only [ask]
  rw [ho.board_eq hc, Outcome.done_within, Outcome.done_andThen, slotsChecked_eq,
    Outcome.done_andThen]
  · split <;> exact ⟨rfl, rfl, rfl⟩
  · change b.slots.permits - 1 = b.arbiter.capacity - (b.arbiter.onBus + 1)
    omega

theorem Sound.queueUp_like (h : b.Sound) (hw : b.arbiter.mustWait t.lane = true) :
    (b.queueUp t).state.Like b ∨ (b.queueUp t).state.Like (b.queueIn t) := by
  unfold queueUp
  dsimp only [ask]
  by_cases hroom : (b.arbiter.queue t.lane).waiting + 1 < Word.size
  · rw [h.enqueue_eq hw hroom, Outcome.done_within, Outcome.done_andThen]
    refine .inr ?_
    split <;> exact ⟨rfl, rfl, rfl⟩
  · rw [Arbiter.enqueue, if_neg hroom]
    exact .inl ⟨rfl, rfl, rfl⟩

theorem Sound.queueIn (h : b.Sound) (hw : b.arbiter.mustWait t.lane = true) :
    (b.queueIn t).Sound where
  toCoherent := h.toCoherent.addWaiting hw
  toSynced := h.toSynced.queueIn t
  permits_le l := (h.permits_le l).trans_eq (b.arbiter.granted_addWaiting t.lane l).symm

theorem Sound.seat (h : b.Sound) (hw : b.arbiter.mustWait t.lane = false) (granted : Bool) :
    (b.seat t granted).Sound where
  toCoherent := h.toCoherent.addRider hw
  toSynced := h.toSynced.seat t granted
  permits_le := h.permits_le

theorem Sound.pickUp (h : b.Sound) (l : Lane) : (b.pickUp l).Sound where
  toCoherent := h.toCoherent
  toSynced := h.toSynced.pickUp l
  permits_le m := by
    refine le_trans ?_ (h.permits_le m)
    rw [get_queues_pickUp]
    split
    · exact Nat.sub_le _ _
    · exact Nat.le_refl _

theorem Sound.part (h : b.Sound) (ho : 0 < b.arbiter.onBus) (t : Task) : (b.part t).Sound where
  toCoherent := h.departed ho
  toSynced := h.toSynced.part ho (by have := h.fits; omega) t
  permits_le l := by
    have hle := h.permits_le l
    rw [get_queues_part]
    change (b.queues.get l).permits + b.arbiter.vacate.handOver.1.get l ≤
      (b.arbiter.vacate.handOver.2.queue l).granted
    rw [Arbiter.queue_handOver, Arbiter.queue_vacate]
    exact Nat.add_le_add_right hle _

theorem answer_locked_queued (r : Result Notice) :
    (locked (r.map Entry.queued)).answer ≠ .ok .boarded := by
  obtain ⟨s, _ | n⟩ := r <;> exact fun h => by cases h

/-- What an admission leaves of a sound bus `b`, however it goes: the bus `b'` is
sound, nobody has gone, and whoever `boarded` is counted. -/
structure Admitted (b b' : Bus) (boarded : Prop) : Prop extends Sound b' where
  capacity_eq : b'.arbiter.capacity = b.arbiter.capacity
  onBus_le : b.arbiter.onBus ≤ b'.arbiter.onBus
  onBus_lt : boarded → b.arbiter.onBus < b'.arbiter.onBus

theorem Like.admitted_of_stay {boarded : Prop} {b'' : Bus} (hl : b'.Like b'') (h : b''.Sound)
    (hcap : b''.arbiter.capacity = b.arbiter.capacity) (ho : b''.arbiter.onBus = b.arbiter.onBus)
    (hnot : ¬ boarded) : Admitted b b' boarded :=
  ⟨hl.sound h, hl.arbiter_eq ▸ hcap, by rw [hl.arbiter_eq, ho], fun hb => absurd hb hnot⟩

theorem Like.admitted_of_seat {boarded : Prop} {b'' : Bus} (hl : b'.Like b'') (h : b''.Sound)
    (hcap : b''.arbiter.capacity = b.arbiter.capacity)
    (ho : b''.arbiter.onBus = b.arbiter.onBus + 1) : Admitted b b' boarded := by
  refine ⟨hl.sound h, hl.arbiter_eq ▸ hcap, ?_, fun _ => ?_⟩ <;>
    rw [hl.arbiter_eq, ho]
  · exact Nat.le_succ _
  · exact Nat.lt_succ_self _

theorem Sound.enter (h : b.Sound) (t : Task) :
    Admitted b (b.enter t).state ((b.enter t).answer = .ok .boarded) := by
  unfold Bus.enter
  split
  · exact Like.admitted_of_stay ⟨rfl, rfl, rfl⟩ h rfl rfl fun hb => by cases hb
  · split
    · next hw =>
      have hnot := answer_locked_queued (b.queueUp t)
      obtain hl | hl := h.queueUp_like hw
      · exact (like_locked (r := (b.queueUp t).map Entry.queued) hl).admitted_of_stay h rfl rfl hnot
      · exact (like_locked (r := (b.queueUp t).map Entry.queued) hl).admitted_of_stay
          (h.queueIn hw) rfl rfl hnot
    · next hw =>
      have hw' := eq_false_of_ne_true hw
      have hl := takeSlot_like false (Arbiter.open_of_mustWait_eq_false hw')
        (h.toCoherent.addRider hw') h.permits_eq
      exact (like_locked (r := (b.takeSlot t false).map fun _ => Entry.boarded) hl).admitted_of_seat
        (h.seat hw' false) rfl rfl

theorem Sound.seatGranted (h : b.Sound)
    (hp : (b.queues.get t.lane).permits < (b.arbiter.queue t.lane).granted) :
    (b.seatGranted t).Sound := by
  have hg : 0 < (b.arbiter.queue t.lane).granted := Nat.zero_lt_of_lt hp
  refine ⟨h.toCoherent.comeBack hg, h.toSynced.seatGranted t, fun l => ?_⟩
  have hle := h.permits_le l
  have hused := Arbiter.granted_useGrant hg l
  change (b.queues.get l).permits ≤ ((b.arbiter.useGrant t.lane).queue l).granted
  by_cases hl : l = t.lane
  · subst hl
    rw [if_pos rfl] at hused
    omega
  · rw [if_neg hl] at hused
    omega

theorem Sound.comeBack (h : b.Sound) (hp : b.poisoned = false →
      (b.queues.get t.lane).permits < (b.arbiter.queue t.lane).granted) :
    Admitted b (b.comeBack t).state ((b.comeBack t).answer = .ok ()) := by
  unfold Bus.comeBack
  split
  · exact Like.admitted_of_stay ⟨rfl, rfl, rfl⟩ h rfl rfl fun hb => by cases hb
  · next hu =>
    have hpermits := hp (eq_false_of_ne_true hu)
    have hg : 0 < (b.arbiter.queue t.lane).granted := Nat.zero_lt_of_lt hpermits
    dsimp only [ask]
    rw [h.resume_eq hg, Outcome.done_within, Outcome.done_andThen]
    have hl := takeSlot_like (b := { b with arbiter := b.arbiter.useGrant t.lane }) true
      (h.open_useGrant hg) (h.toCoherent.comeBack hg) h.permits_eq
    exact (like_locked hl).admitted_of_seat (h.seatGranted hpermits) rfl rfl

end Bus

namespace Crew

variable {cap i : Nat} {b : Bus} {ws : Multiset Worker} {w : Worker} {x c d : Crew} {q : Phase}

/-- The bus has `cap` slots, is sound and counts every rider of the crew. -/
structure Manned (cap : Nat) (b : Bus) (ws : Multiset Worker) : Prop extends Bus.Sound b where
  capacity_eq : b.arbiter.capacity = cap
  riders_le : (lanesIn Phase.isRiding ws).card ≤ b.arbiter.onBus

theorem Manned.onBus_pos (h : Manned cap b (w ::ₘ ws)) {due : Nat} (hp : w.phase = .riding due) :
    0 < b.arbiter.onBus :=
  Nat.lt_of_lt_of_le (Multiset.card_pos_iff_exists_mem.mpr ⟨_, mem_riding hp⟩) h.riders_le

theorem card_riding_le (hq : q.isRiding = false) :
    (lanesIn Phase.isRiding ({ w with phase := q } ::ₘ ws)).card ≤
      (lanesIn Phase.isRiding (w ::ₘ ws)).card := by
  cases hw : w.phase.isRiding with
  | false => rw [lanesIn_stay (hq.trans hw.symm)]
  | true =>
    rw [lanesIn_exit (q := q) hw hq, Multiset.card_cons]
    exact Nat.le_succ _

theorem Manned.stay (h : Manned cap b (w ::ₘ ws)) {b' : Bus} {boarded : Prop}
    (ha : Bus.Admitted b b' boarded) (hq : q.isRiding = false) :
    Manned cap b' ({ w with phase := q } ::ₘ ws) :=
  ⟨ha.toSound, ha.capacity_eq.trans h.capacity_eq,
    (card_riding_le hq).trans (h.riders_le.trans ha.onBus_le)⟩

theorem Manned.board (h : Manned cap b (w ::ₘ ws)) {b' : Bus} {boarded : Prop}
    (ha : Bus.Admitted b b' boarded) (hb : boarded) (hold : w.phase.isRiding = false) (due : Nat) :
    Manned cap b' ({ w with phase := .riding due } ::ₘ ws) := by
  refine ⟨ha.toSound, ha.capacity_eq.trans h.capacity_eq, ?_⟩
  rw [lanesIn_enter hold rfl, Multiset.card_cons]
  exact Nat.lt_of_le_of_lt h.riders_le (ha.onBus_lt hb)

/-- On its way back, a worker has left fewer permits behind than there are grants. -/
def PermitsTaken (b : Bus) (w : Worker) : Prop :=
  w.phase = .returning → b.poisoned = false →
    (b.queues.get w.task.lane).permits < (b.arbiter.queue w.task.lane).granted

theorem Joint.permitsTaken (h : Joint b (w ::ₘ ws)) : PermitsTaken b w := by
  intro hp _
  have hissued := h.issued_eq w.task.lane
  have hcount := Multiset.count_pos.mpr (mem_lanesIn.mpr
    ⟨w, Multiset.mem_cons_self w ws, (congrArg Phase.isReturning hp : _), rfl⟩)
  omega

theorem Manned.enter (h : Manned cap c.bus (w ::ₘ ws)) (hp : w.phase = .starting) :
    ∃ q, (c.enter i w).workers = c.workers.set i { w with phase := q } ∧
      Manned cap (c.enter i w).bus ({ w with phase := q } ::ₘ ws) := by
  have ha := h.toSound.enter w.task
  unfold Crew.enter
  split
  · next he =>
    rw [he] at ha
    exact ⟨_, rfl, h.board ha rfl (by rw [hp]; rfl) _⟩
  · next he =>
    rw [he] at ha
    exact ⟨_, rfl, h.stay ha rfl⟩
  · next he =>
    rw [he] at ha
    exact ⟨_, rfl, h.stay ha rfl⟩

theorem Manned.comeBack (h : Manned cap c.bus (w ::ₘ ws)) (hp : w.phase = .returning)
    (ht : PermitsTaken c.bus w) :
    ∃ q, (c.comeBack i w).workers = c.workers.set i { w with phase := q } ∧
      Manned cap (c.comeBack i w).bus ({ w with phase := q } ::ₘ ws) := by
  have ha := h.toSound.comeBack (ht hp)
  unfold Crew.comeBack
  split
  · next he =>
    rw [he] at ha
    exact ⟨_, rfl, h.board ha rfl (by rw [hp]; rfl) _⟩
  · next he =>
    rw [he] at ha
    exact ⟨_, rfl, h.stay ha rfl⟩

theorem Manned.passQueue? (h : Manned cap c.bus (w ::ₘ ws)) (hs : c.passQueue? i w = some d) :
    ∃ q, d.workers = c.workers.set i { w with phase := q } ∧
      Manned cap d.bus ({ w with phase := q } ::ₘ ws) := by
  obtain ⟨b, hb, rfl⟩ := Option.map_eq_some_iff.mp hs
  by_cases hpos : 0 < (c.bus.queues.get w.task.lane).permits
  · rw [Bus.passQueue?_eq_some hpos] at hb
    cases hb
    exact ⟨_, rfl, h.toSound.pickUp w.task.lane, h.capacity_eq,
      (card_riding_le rfl).trans h.riders_le⟩
  · rw [Bus.passQueue?_eq_none_iff.mpr (by omega)] at hb
    cases hb

theorem Manned.release (h : Manned cap c.bus (w ::ₘ ws)) {due : Nat} (hp : w.phase = .riding due) :
    ∃ q, (c.release i w due).workers = c.workers.set i { w with phase := q } ∧
      Manned cap (c.release i w due).bus ({ w with phase := q } ::ₘ ws) := by
  have ho := h.onBus_pos hp
  have hriders := h.riders_le
  obtain ⟨dep, hd⟩ := h.toSound.release_eq (t := w.task) w.givesUp ho
  have hnew : (if w.givesUp then Phase.failed .interrupted else .finished).isRiding = false := by
    cases w.givesUp <;> rfl
  unfold Crew.release
  dsimp only
  rw [hd]
  refine ⟨_, rfl, h.toSound.part ho w.task,
    (Arbiter.capacity_handOver c.bus.arbiter.vacate).trans h.capacity_eq, ?_⟩
  rw [lanesIn_exit (by rw [hp]; rfl) hnew, Multiset.card_cons] at hriders
  change _ ≤ c.bus.arbiter.vacate.handOver.2.onBus
  rw [Arbiter.onBus_handOver]
  change _ ≤ c.bus.arbiter.onBus - 1
  omega

theorem Manned.step (h : Manned cap c.bus c.workers) (ht : ∀ w ∈ c.workers, PermitsTaken c.bus w)
    (hs : c.step? i = some d) : Manned cap d.bus d.workers := by
  unfold step? at hs
  cases hw : c.workers[i]? with
  | none => rw [hw] at hs; cases hs
  | some w =>
    obtain ⟨others, ho, -⟩ := exists_others hw w
    have hset : ∀ v, (c.workers.set i v : Multiset Worker) = v ::ₘ others := by
      intro v
      obtain ⟨others', ho', hv⟩ := exists_others hw v
      rw [hv, (Multiset.cons_inj_right w).mp (ho.symm.trans ho')]
    rw [ho] at h
    have hmoved : ∃ q, d.workers = c.workers.set i { w with phase := q } ∧
        Manned cap d.bus ({ w with phase := q } ::ₘ others) := by
      rw [hw] at hs
      dsimp only at hs
      cases hp : w.phase with
      | starting =>
        rw [hp] at hs
        cases hs
        exact h.enter hp
      | queued =>
        rw [hp] at hs
        exact h.passQueue? hs
      | returning =>
        rw [hp] at hs
        cases hs
        exact h.comeBack hp (ht w (List.mem_of_getElem? hw))
      | riding due =>
        rw [hp] at hs
        cases hs
        exact h.release hp
      | finished => rw [hp] at hs; cases hs
      | failed f => rw [hp] at hs; cases hs
    obtain ⟨q, hworkers, hd⟩ := hmoved
    rw [hworkers, hset]
    exact hd

/-- The crew comes to be `c` by steps of its workers, in any order and as many as
there may be; now and then somebody takes the trace of the bus. -/
inductive Reaches (x : Crew) : Crew → Prop where
  | refl : Reaches x x
  | step {c d : Crew} (i : Nat) : Reaches x c → c.step? i = some d → Reaches x d
  | takeTrace {c : Crew} : Reaches x c → Reaches x { c with bus := c.bus.takeTrace.state }

theorem takeTrace_like (b : Bus) : b.takeTrace.state.Like b := by
  unfold Bus.takeTrace
  split <;> exact ⟨rfl, rfl, rfl⟩

theorem manned_takeTrace (h : Manned cap b ws) : Manned cap b.takeTrace.state ws := by
  have hl := takeTrace_like b
  refine ⟨hl.sound h.toSound, ?_, ?_⟩ <;> rw [hl.arbiter_eq]
  · exact h.capacity_eq
  · exact h.riders_le

theorem joint_takeTrace (h : Joint b ws) : Joint b.takeTrace.state ws := by
  unfold Bus.takeTrace
  split
  · exact h
  · exact ⟨⟨h.capacity_lt, h.slots_eq, h.queue_bound⟩, h.unpoisoned, h.unbroken, h.carries,
      h.issued_eq, h.queued_eq⟩

theorem takeTrace_poisoned (b : Bus) : b.takeTrace.state.poisoned = b.poisoned := by
  unfold Bus.takeTrace
  split <;> rfl

theorem Reaches.joint {cfg : Bus.Config} {workers : List Worker} (hc : 0 < cfg.capacity)
    (hcap : cfg.capacity < Word.size) (hs : ∀ w ∈ workers, w.phase = .starting)
    (hr : Reaches (start (Bus.fresh cfg) workers) c) (hu : c.bus.poisoned = false) :
    Joint c.bus c.workers := by
  induction hr with
  | refl => exact joint_start hc hcap hs
  | @step c d i hr hstep ih =>
    have hbefore := unpoisoned_of_step? hstep hu
    obtain ⟨w, q, hw, hset, ht | ⟨hp, -⟩⟩ := step?_cases (ih hbefore) hstep
    · obtain ⟨others, ho, ho'⟩ := exists_others hw { w with phase := q }
      rw [hset, ho']
      exact Joint.turn (ho ▸ ih hbefore) rfl ht
    · rw [hp] at hu
      cases hu
  | takeTrace hr ih => exact joint_takeTrace (ih ((takeTrace_poisoned _).symm.trans hu))

/-- Whatever a crew does, and however many workers it has, the bus is sound. -/
theorem Reaches.manned {cfg : Bus.Config} {workers : List Worker} (hc : 0 < cfg.capacity)
    (hcap : cfg.capacity < Word.size) (hs : ∀ w ∈ workers, w.phase = .starting)
    (hr : Reaches (start (Bus.fresh cfg) workers) c) : Manned cfg.capacity c.bus c.workers := by
  induction hr with
  | refl =>
    have h := joint_start hc hcap hs
    exact ⟨h.sound, rfl, h.carries.card_eq.le⟩
  | @step c d i hr hstep ih =>
    refine ih.step ?_ hstep
    intro w hw hp hu
    obtain ⟨others, ho⟩ := Multiset.exists_cons_of_mem (Multiset.mem_coe.mpr hw)
    exact (ho ▸ hr.joint hc hcap hs hu : Joint c.bus (w ::ₘ others)).permitsTaken hp hu
  | takeTrace hr ih => exact manned_takeTrace ih

end Crew

end HalfDuplex
