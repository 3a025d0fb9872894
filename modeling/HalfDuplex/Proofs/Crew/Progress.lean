import HalfDuplex.Proofs.Crew.Occupancy
import Mathlib.Algebra.BigOperators.Group.Multiset.Defs
import Mathlib.Algebra.Group.Nat.Defs

/-!
# Progress of a crew

A worker that waits is never forgotten: while somebody has yet to leave, there
is a rider, or a grant whose permit is still in its queue or with a worker on
the way back. Every step brings one worker further, so that a run ends after at
most four steps of each, and it ends with an idle bus.
-/

namespace HalfDuplex

def Phase.hasBoarded (p : Phase) : Bool := p.isRiding || p.isOver

/-- How many steps a worker in this phase can take at most. -/
def Phase.stepsLeft : Phase → Nat
  | .starting => 4
  | .queued => 3
  | .returning => 2
  | .riding _ => 1
  | .finished => 0
  | .failed _ => 0

namespace Crew

variable {cfg : Bus.Config} {workers : List Worker} {acts : List (Nat × Phase)}
  {b b' : Bus} {ws : Multiset Worker} {w v : Worker} {t : Task} {p q : Phase} {c d : Crew} {i : Nat}

theorem exists_step?_iff (hw : c.workers[i]? = some w) :
    (∃ d, c.step? i = some d) ↔ c.isReady w = true ∨ w.phase.isRiding = true := by
  rw [step?, hw, isReady]
  dsimp only
  cases hp : w.phase with
  | starting => exact iff_of_true ⟨_, rfl⟩ (.inl rfl)
  | queued =>
    by_cases hpos : 0 < (c.bus.queues.get w.task.lane).permits
    · refine iff_of_true ⟨c.move i w (c.bus.pickUp w.task.lane) .returning, ?_⟩
        (.inl (decide_eq_true hpos))
      rw [passQueue?, Bus.passQueue?_eq_some hpos]
      rfl
    · have hnone : c.bus.passQueue? w.task.lane = none :=
        Bus.passQueue?_eq_none_iff.mpr (by omega)
      refine iff_of_false ?_ ?_
      · rintro ⟨d, hd⟩
        rw [passQueue?, hnone] at hd
        cases hd
      · rintro (hready | hriding)
        · exact hpos (of_decide_eq_true hready)
        · cases hriding
  | returning => exact iff_of_true ⟨_, rfl⟩ (.inl rfl)
  | riding due => exact iff_of_true ⟨_, rfl⟩ (.inr rfl)
  | finished => exact iff_of_false (by rintro ⟨d, hd⟩; cases hd) (by rintro (h | h) <;> cases h)
  | failed f => exact iff_of_false (by rintro ⟨d, hd⟩; cases hd) (by rintro (h | h) <;> cases h)

theorem exists_step?_of_unqueued (hw : w ∈ c.workers) (hqueued : w.phase.isQueued = false)
    (hover : w.phase.isOver = false) (hbroken : w.phase.isBroken = false) :
    ∃ i d, c.step? i = some d := by
  obtain ⟨i, hi⟩ := List.mem_iff_getElem?.mp hw
  refine ⟨i, (exists_step?_iff hi).mpr ?_⟩
  unfold isReady
  cases hp : w.phase with
  | starting => exact .inl rfl
  | queued => rw [hp] at hqueued; cases hqueued
  | returning => exact .inl rfl
  | riding due => exact .inr rfl
  | finished => rw [hp] at hover; cases hover
  | failed f =>
    rw [hp] at hover hbroken
    cases f with
    | bus fault => cases hbroken
    | interrupted => cases hover

theorem exists_step?_of_permit (hw : w ∈ c.workers) (hp : w.phase.isQueued = true)
    (hpos : 0 < (c.bus.queues.get w.task.lane).permits) : ∃ i d, c.step? i = some d := by
  obtain ⟨i, hi⟩ := List.mem_iff_getElem?.mp hw
  have hq : w.phase = .queued := by
    cases hq : w.phase <;> first | rfl | (rw [hq] at hp; cases hp)
  refine ⟨i, (exists_step?_iff hi).mpr (.inl ?_)⟩
  rw [isReady, hq]
  exact decide_eq_true hpos

theorem Joint.exists_granted (h : Joint b ws) (hw : w ∈ ws) (hp : w.phase.isQueued = true)
    (ho : b.arbiter.onBus = 0) : ∃ l, 0 < (b.arbiter.queue l).granted := by
  have hmem := Multiset.count_pos.mpr (mem_lanesIn.mpr ⟨w, hw, hp, rfl⟩)
  have hpend := h.queued_eq w.task.lane
  unfold Queue.pending at hpend
  by_cases hr : 0 < b.arbiter.reserved
  · rw [← h.carries.granted_eq] at hr
    exact Arbiter.exists_granted hr
  · have hidle := h.carries.idle_iff.mpr ⟨ho, by omega⟩
    have hwaits := h.carries.nobody_waits hidle w.task.lane
    exact ⟨w.task.lane, by omega⟩

/-- A grant is with a worker on its way back, or is a permit in front of a worker
that waits for it. -/
theorem Joint.returning_or_permit (h : Joint b ws) {l : Lane}
    (hg : 0 < (b.arbiter.queue l).granted) :
    (∃ w ∈ ws, w.phase.isReturning = true) ∨
      ∃ w ∈ ws, w.phase.isQueued = true ∧ 0 < (b.queues.get w.task.lane).permits := by
  by_cases hc : 0 < (lanesIn Phase.isReturning ws).count l
  · obtain ⟨w, hw, hp, -⟩ := mem_lanesIn.mp (Multiset.count_pos.mp hc)
    exact .inl ⟨w, hw, hp⟩
  · have hissued := h.issued_eq l
    have hpend := h.queued_eq l
    unfold Queue.pending at hpend
    have hqueued : 0 < (lanesIn Phase.isQueued ws).count l := by omega
    obtain ⟨w, hw, hp, hl⟩ := mem_lanesIn.mp (Multiset.count_pos.mp hqueued)
    exact .inr ⟨w, hw, hp, by rw [hl]; omega⟩

theorem Joint.exists_step? (h : Joint c.bus c.workers) (hw : w ∈ c.workers)
    (hover : w.phase.isOver = false) : ∃ i d, c.step? i = some d := by
  have hgo : ∀ v ∈ c.workers, (v.phase.isReturning || v.phase.isRiding) = true →
      ∃ i d, c.step? i = some d := by
    intro v hv hp
    apply exists_step?_of_unqueued hv _ _ (h.unbroken v hv)
    · cases hq : v.phase <;> first | rfl | (rw [hq] at hp; cases hp)
    · cases hq : v.phase <;> first | rfl | (rw [hq] at hp; cases hp)
  cases hq : w.phase.isQueued with
  | false => exact exists_step?_of_unqueued hw hq hover (h.unbroken w hw)
  | true =>
    by_cases ho : c.bus.arbiter.onBus = 0
    · obtain ⟨l, hl⟩ := h.exists_granted hw hq ho
      obtain ⟨v, hv, hp⟩ | ⟨v, hv, hp, hpos⟩ := h.returning_or_permit hl
      · exact hgo v hv (by rw [hp]; rfl)
      · exact exists_step?_of_permit hv hp hpos
    · have hcard := h.carries.card_eq
      have hpos : 0 < (lanesIn Phase.isRiding c.workers).card := by omega
      obtain ⟨l, hl⟩ := Multiset.card_pos_iff_exists_mem.mp hpos
      obtain ⟨v, hv, hp, -⟩ := mem_lanesIn.mp hl
      exact hgo v hv (by rw [hp, Bool.or_true])

theorem Joint.all_over (h : Joint c.bus c.workers) (hmax : ∀ i, c.step? i = none) :
    ∀ w ∈ c.workers, w.phase.isOver = true := by
  intro w hw
  by_contra hover
  obtain ⟨i, d, hd⟩ := h.exists_step? hw (by simpa using hover)
  rw [hmax i] at hd
  cases hd

theorem Joint.atRest (h : Joint b ws) (hover : ∀ w ∈ ws, w.phase.isOver = true) :
    b.AtRest b.arbiter.capacity := by
  have hgone := fun w hw => Phase.absent_of_isOver (hover w hw)
  have hriding := lanesIn_eq_zero fun w hw => (hgone w hw).notRiding
  have hqueued := lanesIn_eq_zero fun w hw => (hgone w hw).notQueued
  have hreturning := lanesIn_eq_zero fun w hw => (hgone w hw).notReturning
  have honBus : b.arbiter.onBus = 0 := by rw [← h.carries.card_eq, hriding]; rfl
  have hpending : ∀ l, (b.arbiter.queue l).pending = 0 := by
    intro l
    rw [h.queued_eq, hqueued, hreturning]
    rfl
  exact h.sound.atRest (h.carries.eq_idle honBus hpending) h.unpoisoned

theorem Joint.idle_of_all_over (h : Joint b ws) (hover : ∀ w ∈ ws, w.phase.isOver = true) :
    b.arbiter = Arbiter.idle b.arbiter.capacity ∧
      b.slots = Semaphore.bounded b.arbiter.capacity ∧
      b.queues = PerLane.fill (Semaphore.unbounded 0) := by
  have hrest := h.atRest hover
  exact ⟨hrest.arbiter_eq, hrest.slots_eq, hrest.queues_eq⟩

def stepsLeft (ws : Multiset Worker) : Nat := (ws.map fun w => w.phase.stepsLeft).sum

theorem stepsLeft_cons (w : Worker) (ws : Multiset Worker) :
    stepsLeft (w ::ₘ ws) = w.phase.stepsLeft + stepsLeft ws := by
  unfold stepsLeft
  rw [Multiset.map_cons, Multiset.sum_cons]

theorem stepsLeft_le (ws : Multiset Worker) : stepsLeft ws ≤ 4 * ws.card := by
  induction ws using Multiset.induction_on with
  | empty => rfl
  | cons w ws ih =>
    have hone : w.phase.stepsLeft ≤ 4 := by cases w.phase <;> simp [Phase.stepsLeft]
    rw [stepsLeft_cons, Multiset.card_cons]
    omega

theorem stepsLeft_of_isOver (h : p.isOver = true) : p.stepsLeft = 0 := by
  cases p <;> first | rfl | cases h

theorem Turn.stepsLeft_lt (ht : Turn b t p b' q) : q.stepsLeft < p.stepsLeft := by
  cases ht with
  | part due hq =>
    rw [stepsLeft_of_isOver hq]
    exact Nat.one_pos
  | _ => simp [Phase.stepsLeft]

theorem Turn.hasBoarded_toNat (ht : Turn b t p b' q) :
    q.hasBoarded.toNat = p.hasBoarded.toNat + q.isRiding.toNat := by
  cases ht with
  | part due hq =>
    unfold Phase.hasBoarded
    rw [(Phase.absent_of_isOver hq).notRiding, hq]
    rfl
  | _ => rfl

theorem Turn.isOver_toNat (ht : Turn b t p b' q) :
    q.isOver.toNat = p.isOver.toNat + q.isOver.toNat := by
  cases ht with
  | part due hq => rw [hq]; rfl
  | _ => rfl

theorem Ready.stepsLeft_lt (h : c.Ready) (hs : c.step? i = some d) :
    stepsLeft d.workers < stepsLeft c.workers := by
  obtain ⟨w, q, hw, hset, ht⟩ := step?_turn h.joint h.room hs
  obtain ⟨others, ho, ho'⟩ := exists_others hw { w with phase := q }
  have hlt := ht.stepsLeft_lt
  rw [hset, ho, ho', stepsLeft_cons, stepsLeft_cons]
  dsimp only
  omega

theorem Ready.length_add_stepsLeft_le {x : Crew} (h : x.Ready) (hr : Runs x acts c) :
    acts.length + stepsLeft c.workers ≤ stepsLeft x.workers := by
  induction hr with
  | nil => exact (Nat.zero_add _).le
  | snoc i hr hs _ ih =>
    have hlt := (h.run hr).1.stepsLeft_lt hs
    rw [List.length_append, List.length_singleton]
    omega

theorem Ready.no_endless_run {x : Crew} (h : x.Ready) (f : Nat → Crew) (h0 : f 0 = x) :
    ¬ ∀ n, ∃ i, (f n).step? i = some (f (n + 1)) := by
  intro hf
  have hle : ∀ n, (f n).Ready ∧ n + stepsLeft (f n).workers ≤ stepsLeft x.workers := by
    intro n
    induction n with
    | zero =>
      rw [h0]
      exact ⟨h, (Nat.zero_add _).le⟩
    | succ n ih =>
      obtain ⟨i, hi⟩ := hf n
      have hlt := ih.1.stepsLeft_lt hi
      exact ⟨(ih.1.step hi).1, by omega⟩
  have hend := (hle (stepsLeft x.workers + 1)).2
  omega

/-- How many of the steps `acts` took worker `i` to one of the phases `r`. -/
def timesTo (r : Phase → Bool) (i : Nat) (acts : List (Nat × Phase)) : Nat :=
  acts.countP fun a => a.1 == i && r a.2

theorem timesTo_snoc (r : Phase → Bool) (i j : Nat) (acts : List (Nat × Phase)) (p : Phase) :
    timesTo r i (acts ++ [(j, p)]) =
      timesTo r i acts + if (j == i && r p) = true then 1 else 0 := by
  unfold timesTo
  rw [List.countP_append, List.countP_singleton]

section Runs

variable (hc : 0 < cfg.capacity) (hcap : cfg.capacity < Word.size)
  (hs : ∀ w ∈ workers, w.phase = .starting) (hn : workers.length < Word.size)

include hc hcap hs hn

theorem Runs.length_add_stepsLeft_le (hr : Runs (start (Bus.fresh cfg) workers) acts c) :
    acts.length + stepsLeft c.workers ≤ 4 * workers.length := by
  have hle := stepsLeft_le (workers : Multiset Worker)
  rw [Multiset.coe_card] at hle
  exact ((ready_start hc hcap hs hn).length_add_stepsLeft_le hr).trans hle

theorem no_endless_run (f : Nat → Crew) (h0 : f 0 = start (Bus.fresh cfg) workers) :
    ¬ ∀ n, ∃ i, (f n).step? i = some (f (n + 1)) :=
  (ready_start hc hcap hs hn).no_endless_run f h0

/-- If every turn that leads to one of the phases `r` leads from outside `past`
into it, and no other turn enters or leaves `past`, a worker has gone to `r` once
if it is in `past`, and never otherwise. -/
theorem Runs.timesTo_eq {r past : Phase → Bool} (h0 : past .starting = false)
    (hturn : ∀ {b : Bus} {t : Task} {p : Phase} {b' : Bus} {q : Phase}, Turn b t p b' q →
      (past q).toNat = (past p).toNat + (r q).toNat)
    (hr : Runs (start (Bus.fresh cfg) workers) acts c) (hv : c.workers[i]? = some v) :
    timesTo r i acts = (past v.phase).toNat := by
  refine (ready_start hc hcap hs hn).turn_induction (P := fun acts c => ∀ v,
    c.workers[i]? = some v → timesTo r i acts = (past v.phase).toNat) hr ?_ ?_ v hv
  · intro v hv
    rw [hs v (List.mem_of_getElem? hv), h0]
    rfl
  · intro acts c d j w q ih hw hset ht v hv
    rw [hset] at hv
    rw [timesTo_snoc]
    by_cases hj : j = i
    · subst hj
      rw [List.getElem?_set_self (List.getElem?_eq_some_iff.mp hw).1] at hv
      cases hv
      rw [ih w hw, hturn ht, beq_self_eq_true, Bool.true_and]
      cases r q <;> rfl
    · rw [List.getElem?_set_ne hj] at hv
      rw [ih v hv, beq_false_of_ne hj]
      rfl

theorem Runs.timesTo_riding (hr : Runs (start (Bus.fresh cfg) workers) acts c)
    (hv : c.workers[i]? = some v) :
    timesTo Phase.isRiding i acts = v.phase.hasBoarded.toNat :=
  hr.timesTo_eq hc hcap hs hn rfl Turn.hasBoarded_toNat hv

theorem Runs.timesTo_over (hr : Runs (start (Bus.fresh cfg) workers) acts c)
    (hv : c.workers[i]? = some v) :
    timesTo Phase.isOver i acts = v.phase.isOver.toNat :=
  hr.timesTo_eq hc hcap hs hn rfl Turn.isOver_toNat hv

/-- No wake-up is lost: while a worker has yet to give its slot back, some worker
can take a step. A run has at most four steps for each worker, and none goes on
for ever. In a run that cannot go on, each worker has boarded once and left once,
and the bus is idle, with all its permits and none in the queues. -/
theorem maximal_run_ends_idle :
    (∀ acts c, Runs (start (Bus.fresh cfg) workers) acts c →
      acts.length ≤ 4 * workers.length ∧
      ((∃ w ∈ c.workers, w.phase.isOver = false) → ∃ i d, c.step? i = some d) ∧
      ((∀ i, c.step? i = none) →
        (∀ i < workers.length,
          timesTo Phase.isRiding i acts = 1 ∧ timesTo Phase.isOver i acts = 1) ∧
        c.bus.arbiter = Arbiter.idle cfg.capacity ∧
        c.bus.slots = Semaphore.bounded cfg.capacity ∧
        c.bus.queues = PerLane.fill (Semaphore.unbounded 0))) ∧
      ∀ f : Nat → Crew, f 0 = start (Bus.fresh cfg) workers →
        ¬ ∀ n, ∃ i, (f n).step? i = some (f (n + 1)) := by
  refine ⟨?_, no_endless_run hc hcap hs hn⟩
  intro acts c hr
  obtain ⟨h, -, hcapacity, hlength⟩ := hr.spec hc hcap hs hn
  have hlen := hr.length_add_stepsLeft_le hc hcap hs hn
  refine ⟨by omega, fun ⟨w, hw, hover⟩ => h.exists_step? hw hover, ?_⟩
  intro hmax
  have hover := h.all_over hmax
  obtain ⟨harbiter, hslots, hqueues⟩ := h.idle_of_all_over hover
  rw [hcapacity] at harbiter hslots
  refine ⟨?_, harbiter, hslots, hqueues⟩
  intro i hi
  rw [← hlength] at hi
  have hv := List.getElem?_eq_getElem hi
  have hp := hover _ (List.getElem_mem hi)
  rw [hr.timesTo_riding hc hcap hs hn hv, hr.timesTo_over hc hcap hs hn hv, Phase.hasBoarded, hp,
    Bool.or_true]
  exact ⟨rfl, rfl⟩

end Runs

/-- The second and the third worker both queue, and the third gives up on the
bus. -/
theorem maximal_run_ends_idle_trio :
    ∃ acts c, Runs (start (Bus.fresh ⟨1, false⟩) trio) acts c ∧ acts.length = 10 ∧
      (∀ i, c.step? i = none) ∧ c.bus.arbiter = Arbiter.idle 1 ∧
      ∀ i < 3, timesTo Phase.isRiding i acts = 1 ∧ timesTo Phase.isOver i acts = 1 := by
  have hr : Runs (start (Bus.fresh ⟨1, false⟩) trio) _ _ :=
    .snoc 2 (.snoc 2 (.snoc 2 (.snoc 1 (.snoc 1 (.snoc 2 (.snoc 1 (.snoc 0 (.snoc 1 (.snoc 0
      .nil rfl rfl) rfl rfl) rfl rfl) rfl rfl) rfl rfl) rfl rfl) rfl rfl) rfl rfl) rfl rfl) rfl rfl
  obtain ⟨hruns, -⟩ :=
    @maximal_run_ends_idle ⟨1, false⟩ trio (by decide) (by decide) (by decide) (by decide)
  obtain ⟨-, -, hmax⟩ := hruns _ _ hr
  refine ⟨_, _, hr, rfl, ?stop, (hmax ?stop).2.1, (hmax ?stop).1⟩
  intro i
  rcases i with _ | _ | _ | i <;> rfl

end Crew

end HalfDuplex
