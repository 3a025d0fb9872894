import HalfDuplex.Proofs.Arbiter.Convoy

/-!
# Runs with room for everybody

As long as every task that arrives finds fewer tasks than the bus has slots, and
none of them against its own direction, nobody ever queues. All of them board when
they arrive, whatever their rank, and no departure has anything to hand over. The
bus may turn whenever it is empty.
-/

namespace HalfDuplex.Arbiter

variable {s : Arbiter} {l : Lane} {riders : Multiset Lane}

def Unqueued (s : Arbiter) : Prop := ∀ l, s.queue l = Queue.empty

theorem Unqueued.totalPending_eq (h : s.Unqueued) : s.totalPending = 0 := by
  have hpending : ∀ l, (s.queues.map Queue.pending).get l = 0 := by
    intro l
    rw [PerLane.get_map]
    exact congrArg Queue.pending (h l)
  exact PerLane.sum_eq_zero_iff.mpr hpending

theorem Unqueued.reserved_eq (h : s.Unqueued) (hb : s.Balanced) : s.reserved = 0 := by
  have hpending := h.totalPending_eq
  have htotal := s.totalPending_eq
  have hgranted := hb.granted_eq
  omega

theorem Unqueued.get_handOver (h : s.Unqueued) (l : Lane) : s.handOver.1.get l = 0 := by
  have hle := s.handOver_le_waiting l
  rw [h l] at hle
  exact Nat.le_zero.mp hle

theorem Unqueued.handOver (h : s.Unqueued) : s.handOver.2.Unqueued := by
  intro l
  rw [queue_handOver, h.get_handOver l, h l]
  rfl

theorem Unqueued.exists_rider (h : s.Unqueued) (hc : s.Carries riders) (hn : s.heading ≠ none) :
    ∃ m, m ∈ riders := by
  have hreserved := h.reserved_eq hc.toBalanced
  have honBus : s.onBus ≠ 0 := fun ho => hn (hc.idle_iff.mpr ⟨ho, hreserved⟩)
  rw [← Multiset.card_pos_iff_exists_mem, hc.card_eq]
  omega

namespace Convoy

variable {x : Convoy} {ms : List Move} {c : Nat}

/-- Fewer tasks ride or queue than there are slots, and all of them have the direction of
the lane `l`. -/
structure HasRoomFor (x : Convoy) (l : Lane) : Prop where
  present_lt : x.present < x.arbiter.capacity
  riders_alike : ∀ m ∈ x.riders, m.direction = l.direction
  queues_alike : ∀ m, 0 < (x.arbiter.queue m).pending → m.direction = l.direction

instance (x : Convoy) (l : Lane) : Decidable (x.HasRoomFor l) :=
  decidable_of_iff (x.present < x.arbiter.capacity ∧ (∀ m ∈ x.riders, m.direction = l.direction) ∧
      ∀ m ∈ Lane.all, 0 < (x.arbiter.queue m).pending → m.direction = l.direction)
    ⟨fun h => ⟨h.1, h.2.1, fun m => h.2.2 m (Lane.mem_all m)⟩,
      fun h => ⟨h.1, h.2, fun m _ => h.3 m⟩⟩

/-- `x` comes to be `y` by arrivals that all find room and by departures. -/
inductive RoomyRuns (x : Convoy) : List Move → Convoy → Prop where
  | nil : RoomyRuns x [] x
  | arrive {ms : List Move} {y : Convoy} (l : Lane) : RoomyRuns x ms y → y.HasRoomFor l →
    RoomyRuns x (ms ++ [.arrive l]) (y.step (.arrive l)).state
  | leave {ms : List Move} {y : Convoy} (l : Lane) : RoomyRuns x ms y → y.Allows (.leave l) →
    RoomyRuns x (ms ++ [.leave l]) (y.step (.leave l)).state

theorem HasRoomFor.mustWait_eq_false (h : x.HasRoomFor l) (hc : x.arbiter.Carries x.riders)
    (hq : x.arbiter.Unqueued) : x.arbiter.mustWait l = false := by
  rw [mustWait_eq_false_iff]
  refine ⟨?_, ?_, fun _ => by rw [hq]; rfl⟩
  · have hpresent := h.present_lt
    have hreserved := hq.reserved_eq hc.toBalanced
    unfold present at hpresent
    unfold freeSlots
    omega
  · rw [heldAgainst_eq_false_iff]
    by_cases hn : x.arbiter.heading = none
    · exact .inl hn
    · obtain ⟨m, hm⟩ := hq.exists_rider hc hn
      rw [hc.alike m hm, h.riders_alike m hm]
      exact .inr rfl

theorem RoomyRuns.spec (hc : 0 < c) (hr : (start c).RoomyRuns ms x) :
    x.arbiter.Carries x.riders ∧ x.arbiter.Unqueued ∧ x.arbiter.capacity = c := by
  induction hr with
  | nil => exact ⟨carries_idle hc, queue_idle c, rfl⟩
  | @arrive ms y l _ hroom ih =>
    obtain ⟨hcarries, hq, hcap⟩ := ih
    have hw := hroom.mustWait_eq_false hcarries hq
    rw [step_arrive_of_not_wait hcarries hw]
    exact ⟨hcarries.addRider hw, hq, hcap⟩
  | @leave ms y l _ hl ih =>
    obtain ⟨hcarries, hq, hcap⟩ := ih
    have hvacant : y.arbiter.vacate.Unqueued := hq
    rw [step_leave hcarries hl.2]
    exact ⟨hcarries.departed hl.2, hvacant.handOver, (capacity_handOver _).trans hcap⟩

/-- Where every arrival finds room, nobody queues at any point of the run, and the bus is
held exactly while somebody is present. The next task to arrive boards at once if it
finds room too, and whoever leaves next hands nothing over. -/
theorem boards_at_once_with_room (hc : 0 < c) (hr : (start c).RoomyRuns ms x) :
    (∀ l, x.arbiter.queue l = Queue.empty) ∧ x.riders.card = x.arbiter.onBus ∧
      x.arbiter.capacity = c ∧ (x.arbiter.heading = none ↔ x.present = 0) ∧
      (∀ l, x.HasRoomFor l → (x.arbiter.arrive l).answer = .ok .boarded ∧
        x.step (.arrive l) = .done ⟨x.arbiter.addRider l.direction, l ::ₘ x.riders⟩ ()) ∧
      ∀ l, x.Allows (.leave l) → (x.step (.leave l)).isDone = true ∧
        ∃ grants, x.arbiter.leave.answer = .ok grants ∧ ∀ m, grants.get m = 0 := by
  obtain ⟨hcarries, hq, hcap⟩ := hr.spec hc
  have hreserved := hq.reserved_eq hcarries.toBalanced
  have hpending := hq.totalPending_eq
  refine ⟨hq, hcarries.card_eq, hcap, ?_, fun l hroom => ?_, fun l hl => ?_⟩
  · rw [hcarries.idle_iff]
    unfold present
    omega
  · have hw := hroom.mustWait_eq_false hcarries hq
    refine ⟨?_, step_arrive_of_not_wait hcarries hw⟩
    rw [arrive, hw, if_neg Bool.false_ne_true, hcarries.board_eq hw]
    rfl
  · have hvacant : x.arbiter.vacate.Unqueued := hq
    rw [step_leave hcarries hl.2, hcarries.leave_eq hl.1]
    exact ⟨rfl, _, rfl, hvacant.get_handOver⟩

/-- A bus of two slots is filled by tasks of both ranks, emptied, and taken by a task of
the other direction. One more of that direction finds room. -/
theorem boards_at_once_with_room_turning :
    ∃ ms x, (start 2).RoomyRuns ms x ∧ ms.length = 5 ∧ x.riders = {.priority .receive} ∧
      x.arbiter.heading = some .receive ∧ x.HasRoomFor (.normal .receive) ∧
      (x.arbiter.arrive (.normal .receive)).answer = .ok .boarded := by
  have hr : (start 2).RoomyRuns _ _ :=
    .arrive (.priority .receive) (.leave (.priority .send) (.leave (.normal .send)
      (.arrive (.priority .send) (.arrive (.normal .send) .nil (by decide)) (by decide))
        (by decide)) (by decide)) (by decide)
  obtain ⟨-, -, -, -, harrive, -⟩ := boards_at_once_with_room (by decide) hr
  exact ⟨_, _, hr, rfl, by decide, by decide, by decide,
    (harrive (.normal .receive) (by decide)).1⟩

end Convoy

end HalfDuplex.Arbiter
