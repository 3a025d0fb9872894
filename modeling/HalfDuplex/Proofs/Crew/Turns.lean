import HalfDuplex.Proofs.Arbiter.Convoy
import HalfDuplex.Proofs.Bus.Calls
import HalfDuplex.Proofs.Crew.Census

/-!
# The turns of a worker

Unless a counter is full, a step of a worker is one of five turns: it queues, it
boards at once, it picks a permit of its queue up, it comes back with it and
boards, or it parts. The counters of the arbiter, the free permits and the
permits of the queues agree with where the workers are, and every turn keeps
them in agreement.
-/

namespace HalfDuplex

namespace Bus

variable {b : Bus} {t : Task} {l : Lane}

theorem Synced.queueIn (h : b.Synced) (t : Task) : (b.queueIn t).Synced :=
  ⟨h.capacity_lt, h.slots_eq, h.queue_bound⟩

theorem Synced.seat (h : b.Synced) (t : Task) (granted : Bool) : (b.seat t granted).Synced where
  capacity_lt := h.capacity_lt
  slots_eq := by
    change ({ b.slots with permits := b.slots.permits - 1 } : Semaphore) =
      ⟨b.arbiter.capacity, b.arbiter.capacity - (b.arbiter.onBus + 1)⟩
    rw [h.slots_eq]
    rfl
  queue_bound := h.queue_bound

theorem Synced.seatGranted (h : b.Synced) (t : Task) : (b.seatGranted t).Synced :=
  Synced.seat (b := { b with arbiter := b.arbiter.useGrant t.lane })
    ⟨h.capacity_lt, h.slots_eq, h.queue_bound⟩ t true

theorem get_queues_pickUp (b : Bus) (l m : Lane) :
    (b.pickUp l).queues.get m = if l = m
      then { b.queues.get m with permits := (b.queues.get m).permits - 1 }
      else b.queues.get m := PerLane.get_modify ..

theorem Synced.pickUp (h : b.Synced) (l : Lane) : (b.pickUp l).Synced where
  capacity_lt := h.capacity_lt
  slots_eq := h.slots_eq
  queue_bound m := by
    rw [get_queues_pickUp]
    split <;> exact h.queue_bound m

theorem get_queues_part (b : Bus) (t : Task) (l : Lane) :
    (b.part t).queues.get l = (b.queues.get l).add (b.arbiter.vacate.handOver.1.get l) :=
  PerLane.get_ofFn ..

theorem Synced.part (h : b.Synced) (ho : 0 < b.arbiter.onBus)
    (hfit : b.arbiter.onBus ≤ b.arbiter.capacity) (t : Task) : (b.part t).Synced where
  capacity_lt := (Arbiter.capacity_handOver b.arbiter.vacate).trans_lt h.capacity_lt
  slots_eq := by
    change b.slots.add 1 = ⟨b.arbiter.vacate.handOver.2.capacity,
      b.arbiter.vacate.handOver.2.capacity - b.arbiter.vacate.handOver.2.onBus⟩
    rw [h.slots_eq, Arbiter.capacity_handOver, Arbiter.onBus_handOver]
    change (⟨b.arbiter.capacity, b.arbiter.capacity - b.arbiter.onBus + 1⟩ : Semaphore) =
      ⟨b.arbiter.capacity, b.arbiter.capacity - (b.arbiter.onBus - 1)⟩
    congr 1
    omega
  queue_bound l := by
    rw [get_queues_part]
    exact h.queue_bound l

end Bus

namespace Crew

variable {b b' : Bus} {ws : Multiset Worker} {w : Worker} {t : Task} {q : Phase} {l : Lane}

/-- What a worker with task `t` can do when no counter is full: the phase it is
in, the bus it leaves and the phase it goes to. -/
inductive Turn (b : Bus) (t : Task) : Phase → Bus → Phase → Prop where
  | queue : b.arbiter.mustWait t.lane = true → Turn b t .starting (b.queueIn t) .queued
  | board (due : Nat) :
    b.arbiter.mustWait t.lane = false → Turn b t .starting (b.seat t false) (.riding due)
  | pickUp : 0 < (b.queues.get t.lane).permits → Turn b t .queued (b.pickUp t.lane) .returning
  | comeBack (due : Nat) : Turn b t .returning (b.seatGranted t) (.riding due)
  | part (due : Nat) {q : Phase} : q.isOver = true → Turn b t (.riding due) (b.part t) q

/-- The three accounts of who occupies the bus agree with where the workers are:
riders with the counters and with the free permits, grants with the permits of
the queues and the workers on their way back, and queues with the workers that
have queued and not boarded. -/
structure Joint (b : Bus) (ws : Multiset Worker) : Prop extends Bus.Synced b where
  unpoisoned : b.poisoned = false
  unbroken : ∀ w ∈ ws, w.phase.isBroken = false
  carries : b.arbiter.Carries (lanesIn Phase.isRiding ws)
  issued_eq : ∀ l, (b.arbiter.queue l).granted =
    (b.queues.get l).permits + (lanesIn Phase.isReturning ws).count l
  queued_eq : ∀ l, (b.arbiter.queue l).pending =
    (lanesIn Phase.isQueued ws).count l + (lanesIn Phase.isReturning ws).count l

theorem Joint.sound (h : Joint b ws) : b.Sound where
  toCoherent := h.carries.toCoherent
  toSynced := h.toSynced
  permits_le l := by
    rw [h.issued_eq]
    exact Nat.le_add_right _ _

theorem Joint.granted_pos (h : Joint b (w ::ₘ ws)) (hp : w.phase = .returning) :
    0 < (b.arbiter.queue w.task.lane).granted := by
  have hc : 0 < (lanesIn Phase.isReturning (w ::ₘ ws)).count w.task.lane :=
    Multiset.count_pos.mpr (mem_lanesIn.mpr ⟨w, Multiset.mem_cons_self _ _, by rw [hp]; rfl, rfl⟩)
  rw [h.issued_eq]
  omega

theorem mem_riding {due : Nat} (hp : w.phase = .riding due) :
    w.task.lane ∈ lanesIn Phase.isRiding (w ::ₘ ws) :=
  mem_lanesIn.mpr ⟨w, Multiset.mem_cons_self _ _, by rw [hp]; rfl, rfl⟩

theorem Joint.onBus_pos (h : Joint b (w ::ₘ ws)) {due : Nat} (hp : w.phase = .riding due) :
    0 < b.arbiter.onBus := h.carries.onBus_pos (mem_riding hp)

theorem Joint.unbroken_move (h : Joint b (w ::ₘ ws)) (hq : q.isBroken = false) :
    ∀ v ∈ { w with phase := q } ::ₘ ws, v.phase.isBroken = false := by
  intro v hv
  rcases Multiset.mem_cons.mp hv with rfl | hv
  · exact hq
  · exact h.unbroken v (Multiset.mem_cons_of_mem hv)

theorem Joint.queue (h : Joint b (w ::ₘ ws)) (hp : w.phase = .starting)
    (hw : b.arbiter.mustWait w.task.lane = true) :
    Joint (b.queueIn w.task) ({ w with phase := .queued } ::ₘ ws) where
  toSynced := h.toSynced.queueIn w.task
  unpoisoned := h.unpoisoned
  unbroken := h.unbroken_move rfl
  carries := by
    rw [lanesIn_stay (by rw [hp]; rfl)]
    exact h.carries.addWaiting hw
  issued_eq l := by
    rw [lanesIn_stay (by rw [hp]; rfl)]
    exact (b.arbiter.granted_addWaiting w.task.lane l).trans (h.issued_eq l)
  queued_eq l := by
    have hl := h.queued_eq l
    rw [lanesIn_stay (p := Phase.isReturning) (by rw [hp]; rfl),
      lanesIn_enter (p := Phase.isQueued) (by rw [hp]; rfl) rfl, Multiset.count_cons]
    change ((b.arbiter.addWaiting w.task.lane).queue l).pending = _
    rw [Arbiter.pending_addWaiting, hl]
    omega

theorem Joint.board (h : Joint b (w ::ₘ ws)) (hp : w.phase = .starting) (due : Nat)
    (hw : b.arbiter.mustWait w.task.lane = false) :
    Joint (b.seat w.task false) ({ w with phase := .riding due } ::ₘ ws) where
  toSynced := h.toSynced.seat w.task false
  unpoisoned := h.unpoisoned
  unbroken := h.unbroken_move rfl
  carries := by
    rw [lanesIn_enter (by rw [hp]; rfl) rfl]
    exact h.carries.addRider hw
  issued_eq l := by
    rw [lanesIn_stay (by rw [hp]; rfl)]
    exact h.issued_eq l
  queued_eq l := by
    rw [lanesIn_stay (p := Phase.isQueued) (by rw [hp]; rfl),
      lanesIn_stay (p := Phase.isReturning) (by rw [hp]; rfl)]
    exact h.queued_eq l

theorem Joint.pickUp (h : Joint b (w ::ₘ ws)) (hp : w.phase = .queued)
    (hpos : 0 < (b.queues.get w.task.lane).permits) :
    Joint (b.pickUp w.task.lane) ({ w with phase := .returning } ::ₘ ws) where
  toSynced := h.toSynced.pickUp w.task.lane
  unpoisoned := h.unpoisoned
  unbroken := h.unbroken_move rfl
  carries := by
    rw [lanesIn_stay (by rw [hp]; rfl)]
    exact h.carries
  issued_eq l := by
    have hl := h.issued_eq l
    rw [lanesIn_enter (by rw [hp]; rfl) rfl, Multiset.count_cons, Bus.get_queues_pickUp]
    change (b.arbiter.queue l).granted = _
    by_cases he : w.task.lane = l
    · subst he
      rw [if_pos rfl, if_pos rfl]
      dsimp only
      omega
    · rw [if_neg he, if_neg (Ne.symm he)]
      exact hl
  queued_eq l := by
    have hl := h.queued_eq l
    rw [lanesIn_exit (p := Phase.isQueued) (q := .returning) (by rw [hp]; rfl) rfl,
      Multiset.count_cons] at hl
    rw [lanesIn_enter (p := Phase.isReturning) (by rw [hp]; rfl) rfl, Multiset.count_cons]
    change (b.arbiter.queue l).pending = _
    omega

theorem Joint.comeBack (h : Joint b (w ::ₘ ws)) (hp : w.phase = .returning) (due : Nat) :
    Joint (b.seatGranted w.task) ({ w with phase := .riding due } ::ₘ ws) where
  toSynced := h.toSynced.seatGranted w.task
  unpoisoned := h.unpoisoned
  unbroken := h.unbroken_move rfl
  carries := by
    rw [lanesIn_enter (by rw [hp]; rfl) rfl]
    exact h.carries.comeBack (h.granted_pos hp)
  issued_eq l := by
    have hl := h.issued_eq l
    have hg := Arbiter.granted_useGrant (h.granted_pos hp) l
    rw [lanesIn_exit (q := .riding due) (by rw [hp]; rfl) rfl, Multiset.count_cons] at hl
    change ((b.arbiter.useGrant w.task.lane).queue l).granted = (b.queues.get l).permits + _
    omega
  queued_eq l := by
    have hl := h.queued_eq l
    have hg := Arbiter.pending_useGrant (h.granted_pos hp) l
    rw [lanesIn_exit (p := Phase.isReturning) (q := .riding due) (by rw [hp]; rfl) rfl,
      Multiset.count_cons] at hl
    rw [lanesIn_stay (p := Phase.isQueued) (by rw [hp]; rfl)]
    change ((b.arbiter.useGrant w.task.lane).queue l).pending = _
    omega

theorem Joint.part (h : Joint b (w ::ₘ ws)) {due : Nat} (hp : w.phase = .riding due)
    (hq : q.isOver = true) :
    Joint (b.part w.task) ({ w with phase := q } ::ₘ ws) := by
  have hstay : ∀ p : Phase → Bool, p q = false → p w.phase = false →
      lanesIn p ({ w with phase := q } ::ₘ ws) = lanesIn p (w ::ₘ ws) :=
    fun p hn ho => lanesIn_stay (hn.trans ho.symm)
  have hgone := Phase.absent_of_isOver hq
  have hfit := h.carries.fits
  have hret := hstay Phase.isReturning hgone.notReturning (by rw [hp]; rfl)
  have hque := hstay Phase.isQueued hgone.notQueued (by rw [hp]; rfl)
  refine ⟨h.toSynced.part (h.onBus_pos hp) (by omega) w.task, h.unpoisoned,
    h.unbroken_move hgone.notBroken, ?_, ?_, ?_⟩
  · have hd := h.carries.departed (mem_riding hp)
    rw [lanesIn_exit (q := q) (by rw [hp]; rfl) hgone.notRiding, Multiset.erase_cons_head] at hd
    exact hd
  · intro l
    have hl := h.issued_eq l
    rw [hret, Bus.get_queues_part]
    change (b.arbiter.vacate.handOver.2.queue l).granted =
      (b.queues.get l).permits + b.arbiter.vacate.handOver.1.get l + _
    rw [Arbiter.queue_handOver, Arbiter.queue_vacate]
    dsimp only
    omega
  · intro l
    rw [hret, hque]
    exact (b.arbiter.vacate.pending_handOver l).trans (h.queued_eq l)

/-- Every turn keeps the accounts in agreement. -/
theorem Joint.turn (h : Joint b (w ::ₘ ws)) {p : Phase} (hp : w.phase = p)
    (ht : Turn b w.task p b' q) : Joint b' ({ w with phase := q } ::ₘ ws) := by
  cases ht with
  | queue hw => exact h.queue hp hw
  | board due hw => exact h.board hp due hw
  | pickUp hpos => exact h.pickUp hp hpos
  | comeBack due => exact h.comeBack hp due
  | part due hq => exact h.part hp hq

end Crew

end HalfDuplex
