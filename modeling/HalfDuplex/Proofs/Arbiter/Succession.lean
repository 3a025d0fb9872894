import HalfDuplex.Proofs.Arbiter.Acts
import Mathlib.Algebra.GroupWithZero.Nat

/-!
# Who succeeds a task that leaves

A departure serves one direction: that which is still held, and on a bus that it
empties the first of send and receive that somebody waits for. The priority tasks
of that direction get as many of the free slots as they can use, the normal ones
what is left over, and every counter changes by just these grants.
-/

namespace HalfDuplex

namespace Grants

theorem isEmpty_iff {g : Grants} : g.isEmpty = true ↔ ∀ l, g.get l = 0 := by
  unfold isEmpty total
  rw [beq_iff_eq, PerLane.sum_eq_zero_iff]

theorem sum_filter_pos (gs : List (Lane × Nat)) :
    ((gs.filter fun x => 0 < x.2).map Prod.snd).sum = (gs.map Prod.snd).sum := by
  induction gs with
  | nil => rfl
  | cons x gs ih =>
    by_cases hx : 0 < x.2
    · rw [List.filter_cons, if_pos (decide_eq_true hx), List.map_cons, List.map_cons,
        List.sum_cons, List.sum_cons, ih]
    · rw [List.filter_cons, if_neg (by simpa using hx), List.map_cons, List.sum_cons, ih]
      omega

theorem sum_inOrder (g : Grants) : (g.inOrder.map Prod.snd).sum = g.total := by
  unfold inOrder
  rw [sum_filter_pos]
  change g.sendPriority + (g.sendNormal + (g.receivePriority + (g.receiveNormal + 0))) = g.sum
  unfold PerLane.sum
  omega

/-- The grants to a direction, if there is one: priority before normal. -/
def listed (g : Grants) : Option Direction → List (Lane × Nat)
  | none => []
  | some d => [(Lane.priority d, g.get (.priority d)), (Lane.normal d, g.get (.normal d))]

end Grants

namespace Arbiter

variable {s t : Arbiter} {l : Lane} {d : Direction} {as : List Act} {c : Nat} {grants : Grants}

/-- The direction that a departure from `s` serves. -/
def served (s : Arbiter) : Option Direction :=
  if 1 < s.onBus ∨ 0 < s.reserved then s.heading
  else if s.waits .send then some .send
  else if s.waits .receive then some .receive
  else none

/-- The slots of `s` that are free once a rider has gone. -/
def freed (s : Arbiter) : Nat := s.capacity - (s.onBus - 1) - s.reserved

/-- A departure from `s` leaves `t` and gives out `grants`. -/
structure Succeeds (s t : Arbiter) (grants : Grants) : Prop where
  priority_eq : ∀ d, s.served = some d →
    grants.get (.priority d) = min s.freed (s.queue (.priority d)).waiting
  normal_eq : ∀ d, s.served = some d → grants.get (.normal d) =
    min (s.freed - grants.get (.priority d)) (s.queue (.normal d)).waiting
  other_eq : ∀ l, s.served ≠ some l.direction → grants.get l = 0
  nobody : s.served = none → s.onBus = 1 ∧ s.reserved = 0 ∧ ∀ l, (s.queue l).waiting = 0
  capacity_eq : t.capacity = s.capacity
  onBus_eq : t.onBus + 1 = s.onBus
  waiting_eq : ∀ l, (t.queue l).waiting + grants.get l = (s.queue l).waiting
  granted_eq : ∀ l, (t.queue l).granted = (s.queue l).granted + grants.get l
  reserved_eq : t.reserved = s.reserved + grants.total
  heading_eq : t.heading = s.served
  used_up : ∀ d, s.served = some d → t.freeSlots = 0 ∨ t.waits d = false

theorem Coherent.turn_vacate (h : s.Coherent) (ho : 0 < s.onBus) : s.vacate.turn = s.served := by
  have hheld : s.vacate.heading =
      if s.onBus - 1 = 0 ∧ s.reserved = 0 then none else s.heading := rfl
  unfold served turn
  rw [hheld]
  by_cases hstay : 1 < s.onBus ∨ 0 < s.reserved
  · rw [if_neg (by omega), if_pos hstay]
    cases hh : s.heading with
    | none => have := h.idle_iff.mp hh; omega
    | some d => rfl
  · rw [if_pos (by omega), if_neg hstay]
    rfl

theorem Coherent.nobody_of_served_eq_none (h : s.Coherent) (ho : 0 < s.onBus)
    (hn : s.served = none) : s.onBus = 1 ∧ s.reserved = 0 ∧ ∀ l, (s.queue l).waiting = 0 := by
  rw [← h.turn_vacate ho] at hn
  obtain ⟨hheading, hwaiting⟩ := turn_eq_none_iff.mp hn
  obtain ⟨hzero, hreserved⟩ := (h.balanced_vacate ho).idle_iff.mp hheading
  change s.onBus - 1 = 0 at hzero
  exact ⟨by omega, hreserved, hwaiting⟩

theorem handOver_of_turn (ht : s.turn = some d) :
    s.handOver = (Grants.toward d (s.priorityShare d) (s.normalShare d),
      { s.shareOut d with heading := some d }) := by
  unfold handOver
  rw [ht]

theorem handOver_of_turn_eq_none (ht : s.turn = none) : s.handOver = (PerLane.fill 0, s) := by
  unfold handOver
  rw [ht]

theorem freeSlots_or_waits_shareOut (s : Arbiter) (d : Direction) :
    (s.shareOut d).freeSlots = 0 ∨ (s.shareOut d).waits d = false := by
  have hfree : (s.shareOut d).freeSlots = s.freeSlots - s.priorityShare d - s.normalShare d := by
    rw [shareOut, freeSlots_grant, freeSlots_grant]
  unfold waits
  rw [decide_eq_false_iff_not, hfree, queue_shareOut, queue_shareOut, Grants.get_toward_priority,
    Grants.get_toward_normal]
  unfold normalShare priorityShare
  dsimp only
  omega

theorem handOver_eq_zero_of_turn_ne (h : s.turn ≠ some l.direction) : s.handOver.1.get l = 0 := by
  cases ht : s.turn with
  | none =>
    rw [handOver_of_turn_eq_none ht]
    exact PerLane.get_fill 0 l
  | some d =>
    rw [handOver_of_turn ht]
    refine Grants.get_toward_of_ne fun hd => h ?_
    rw [ht, hd]

theorem reserved_handOver (s : Arbiter) :
    s.handOver.2.reserved = s.reserved + s.handOver.1.total := by
  cases ht : s.turn with
  | none =>
    rw [handOver_of_turn_eq_none ht]
    rfl
  | some d =>
    rw [handOver_of_turn ht, Grants.total_toward]
    exact s.reserved_shareOut d

theorem heading_handOver (s : Arbiter) : s.handOver.2.heading = s.turn := by
  cases ht : s.turn with
  | none =>
    rw [handOver_of_turn_eq_none ht]
    exact (turn_eq_none_iff.mp ht).1
  | some d => rw [handOver_of_turn ht]

theorem inOrder_handOver (s : Arbiter) :
    s.handOver.1.inOrder = (s.handOver.1.listed s.turn).filter fun x => 0 < x.2 := by
  cases ht : s.turn with
  | none =>
    rw [handOver_of_turn_eq_none ht]
    rfl
  | some d =>
    rw [handOver_of_turn ht, Grants.listed, Grants.get_toward_priority, Grants.get_toward_normal,
      Grants.inOrder_toward]

theorem Coherent.succeeds_handOver (h : s.Coherent) (ho : 0 < s.onBus) :
    Succeeds s s.vacate.handOver.2 s.vacate.handOver.1 where
  priority_eq d hd := by
    rw [← h.turn_vacate ho] at hd
    rw [handOver_of_turn hd, Grants.get_toward_priority]
    rfl
  normal_eq d hd := by
    rw [← h.turn_vacate ho] at hd
    rw [handOver_of_turn hd, Grants.get_toward_priority, Grants.get_toward_normal]
    rfl
  other_eq l hl := by
    rw [← h.turn_vacate ho] at hl
    exact handOver_eq_zero_of_turn_ne hl
  nobody := h.nobody_of_served_eq_none ho
  capacity_eq := capacity_handOver s.vacate
  onBus_eq := by
    rw [onBus_handOver]
    change s.onBus - 1 + 1 = s.onBus
    omega
  waiting_eq l := by
    have hle := s.vacate.handOver_le_waiting l
    rw [queue_handOver]
    exact Nat.sub_add_cancel hle
  granted_eq l := by rw [queue_handOver]; rfl
  reserved_eq := reserved_handOver s.vacate
  heading_eq := by rw [heading_handOver, h.turn_vacate ho]
  used_up d hd := by
    rw [← h.turn_vacate ho] at hd
    rw [handOver_of_turn hd]
    exact s.vacate.freeSlots_or_waits_shareOut d

/-- Whatever acts have led to, a departure serves one direction and hands it the
free slots, priority tasks first. What it reports are just these grants, in the
order in which they are given out. -/
theorem departure_hands_over (hc : 0 < c) (hall : (idle c).Allows as)
    (hs : (idle c).after as = s) (ho : 0 < s.onBus) :
    ∃ grants t, s.leave = .done t grants ∧ Succeeds s t grants ∧
      grants.inOrder = (grants.listed s.served).filter (fun x => 0 < x.2) ∧
      (grants.inOrder.map Prod.snd).sum = grants.total ∧
      (grants.isEmpty = true ↔ ∀ l, grants.get l = 0) := by
  subst hs
  obtain ⟨h, -⟩ := (coherent_idle hc).after hall
  refine ⟨_, _, h.leave_eq ho, h.succeeds_handOver ho, ?_, Grants.sum_inOrder _, Grants.isEmpty_iff⟩
  rw [← h.turn_vacate ho]
  exact inOrder_handOver _

/-- The last rider is a receiver, and three senders wait for two slots: the priority
task gets one of them, one of the two normal tasks the other. -/
theorem departure_hands_over_turning :
    ∃ as s grants t, (idle 2).Allows as ∧ (idle 2).after as = s ∧ s.onBus = 1 ∧
      s.heading = some .receive ∧ s.leave = .done t grants ∧ t.heading = some .send ∧
      grants.inOrder = [(.priority .send, 1), (.normal .send, 1)] ∧
      (t.queue (.normal .send)).waiting + 1 = 2 ∧ t.reserved = 2 := by
  let as : List Act := [.arrive (.normal .receive), .arrive (.normal .receive),
    .arrive (.normal .send), .arrive (.normal .send), .arrive (.priority .send), .leave]
  have hall : (idle 2).Allows as := by decide
  have hserved : ((idle 2).after as).served = some .send := by decide
  obtain ⟨grants, t, hleave, ht, horder, -⟩ :=
    departure_hands_over (c := 2) (by decide) hall rfl (by decide)
  have hpriority : grants.get (.priority .send) = 1 := ht.priority_eq .send hserved
  have hnormal : grants.get (.normal .send) = 1 := by
    rw [ht.normal_eq .send hserved, hpriority]
    decide
  rw [hserved, Grants.listed, hpriority, hnormal] at horder
  have hwaiting := ht.waiting_eq (.normal .send)
  rw [hnormal] at hwaiting
  have htotal := Grants.sum_inOrder grants
  rw [horder] at htotal
  refine ⟨as, _, grants, t, hall, rfl, by decide, by decide, hleave,
    ht.heading_eq.trans hserved, horder, hwaiting, ?_⟩
  rw [ht.reserved_eq, ← htotal]
  decide

end Arbiter

end HalfDuplex
