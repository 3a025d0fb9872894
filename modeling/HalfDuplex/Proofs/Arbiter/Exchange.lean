import HalfDuplex.Proofs.Arbiter.Succession

/-!
# The two directions exchanged

A bus whose send tasks receive and whose receive tasks send answers every call as
before, with the directions exchanged in the answer. Only the last rider tells
the directions apart, where it leaves tasks of both behind: such a bus goes to
the send tasks either way.
-/

namespace HalfDuplex

namespace Lane

def other (l : Lane) : Lane := ⟨l.direction.other, l.rank⟩

@[simp] theorem other_other (l : Lane) : l.other.other = l := by
  rcases l with ⟨_ | _, _ | _⟩ <;> rfl

theorem direction_other (l : Lane) : l.other.direction = l.direction.other := rfl

end Lane

namespace PerLane

variable {α : Type}

/-- The table in which every lane has the entry of its other one. -/
def exchanged (p : PerLane α) : PerLane α := ofFn fun l => p.get l.other

@[simp] theorem get_exchanged (p : PerLane α) (l : Lane) : p.exchanged.get l = p.get l.other :=
  get_ofFn ..

theorem sum_exchanged (p : PerLane Nat) : p.exchanged.sum = p.sum := by
  change p.receiveNormal + p.receivePriority + p.sendNormal + p.sendPriority =
    p.sendNormal + p.sendPriority + p.receiveNormal + p.receivePriority
  omega

theorem modify_exchanged (p : PerLane α) (l : Lane) (f : α → α) :
    p.exchanged.modify l.other f = (p.modify l f).exchanged := by
  rcases l with ⟨_ | _, _ | _⟩ <;> rfl

end PerLane

namespace Grants

theorem exchanged_toward (d : Direction) (p n : Nat) :
    (toward d p n).exchanged = toward d.other p n := by
  cases d <;> rfl

theorem inOrder_exchanged_toward (d : Direction) (p n : Nat) :
    inOrder (toward d p n).exchanged = (toward d p n).inOrder.map (Prod.map Lane.other id) := by
  rw [exchanged_toward, inOrder_toward, inOrder_toward]
  exact List.filter_map (f := Prod.map Lane.other id) (p := fun x : Lane × Nat => 0 < x.2)
    (l := [(Lane.priority d, p), (Lane.normal d, n)])

end Grants

namespace Arbiter

variable {s : Arbiter} {l : Lane} {d : Direction} {c : Nat} {a : Act} {as past : List Act}

def exchanged (s : Arbiter) : Arbiter :=
  { s with heading := s.heading.map Direction.other, queues := s.queues.exchanged }

def Fault.exchanged : Fault → Fault
  | .resumeWithoutGrant l => .resumeWithoutGrant l.other
  | .boardAgainst d held => .boardAgainst d.other (held.map Direction.other)
  | .broken v s => .broken v s.exchanged
  | e => e

def exchangedResult {α : Type} (r : Result α) : Result α :=
  r.within Arbiter.exchanged Fault.exchanged

theorem queue_exchanged (s : Arbiter) (l : Lane) : s.exchanged.queue l.other = s.queue l := by
  change s.queues.exchanged.get l.other = s.queues.get l
  rw [PerLane.get_exchanged, Lane.other_other]

theorem heldAgainst_exchanged (s : Arbiter) (d : Direction) :
    s.exchanged.heldAgainst d.other = s.heldAgainst d := by
  unfold heldAgainst exchanged
  cases s.heading with
  | none => rfl
  | some e => cases d <;> cases e <;> rfl

theorem totalWaiting_exchanged (s : Arbiter) : s.exchanged.totalWaiting = s.totalWaiting :=
  PerLane.sum_exchanged (s.queues.map Queue.waiting)

theorem totalGranted_exchanged (s : Arbiter) : s.exchanged.totalGranted = s.totalGranted :=
  PerLane.sum_exchanged (s.queues.map Queue.granted)

theorem mustWait_exchanged (s : Arbiter) (l : Lane) :
    s.exchanged.mustWait l.other = s.mustWait l := by
  have hprio : s.exchanged.queue (.priority l.other.direction) = s.queue (.priority l.direction) :=
    s.queue_exchanged (.priority l.direction)
  unfold mustWait
  rw [hprio, Lane.direction_other, heldAgainst_exchanged]
  rfl

theorem violation?_exchanged (s : Arbiter) : s.exchanged.violation? = s.violation? := by
  unfold violation?
  rw [totalWaiting_exchanged, totalGranted_exchanged]
  unfold exchanged
  cases s.heading <;> rfl

theorem checked_exchanged {α : Type} (s : Arbiter) (a : α) :
    s.exchanged.checked a = exchangedResult (s.checked a) := by
  unfold checked
  rw [violation?_exchanged]
  cases s.violation? <;> rfl

theorem onQueue_exchanged (s : Arbiter) (l : Lane) (f : Queue → Queue) :
    s.exchanged.onQueue l.other f = (s.onQueue l f).exchanged := by
  unfold onQueue exchanged
  dsimp only
  rw [PerLane.modify_exchanged]

theorem enqueue_exchanged (s : Arbiter) (l : Lane) :
    s.exchanged.enqueue l.other = exchangedResult (s.enqueue l) := by
  unfold enqueue
  rw [queue_exchanged, onQueue_exchanged, checked_exchanged, apply_ite exchangedResult]
  rfl

theorem resume_exchanged (s : Arbiter) (l : Lane) :
    s.exchanged.resume l.other = exchangedResult (s.resume l) := by
  unfold resume
  rw [queue_exchanged, onQueue_exchanged]
  simp only [apply_ite exchangedResult]
  rfl

theorem board_exchanged (s : Arbiter) (d : Direction) :
    s.exchanged.board d.other = exchangedResult (s.board d) := by
  have hseated : ({ s.exchanged with onBus := s.onBus + 1, heading := some d.other } : Arbiter) =
      ({ s with onBus := s.onBus + 1, heading := some d } : Arbiter).exchanged := rfl
  unfold board
  rw [heldAgainst_exchanged]
  simp only [apply_ite exchangedResult]
  rw [← checked_exchanged, ← hseated]
  rfl

theorem arrive_exchanged (s : Arbiter) (l : Lane) :
    s.exchanged.arrive l.other = exchangedResult (s.arrive l) := by
  unfold arrive
  rw [mustWait_exchanged, enqueue_exchanged, Lane.direction_other, board_exchanged,
    apply_ite exchangedResult]
  rcases s.enqueue l with ⟨t, _ | _⟩ <;> rcases s.board l.direction with ⟨t', _ | _⟩ <;> rfl

theorem resumeBoard_exchanged (s : Arbiter) (l : Lane) :
    s.exchanged.resumeBoard l.other = exchangedResult (s.resumeBoard l) := by
  unfold resumeBoard
  rw [resume_exchanged]
  rcases s.resume l with ⟨t, e | ⟨⟩⟩
  · rfl
  · exact t.board_exchanged l.direction

theorem vacate_exchanged (s : Arbiter) : s.exchanged.vacate = s.vacate.exchanged := by
  unfold vacate exchanged
  dsimp only
  rw [apply_ite (Option.map Direction.other)]
  rfl

theorem waits_exchanged (s : Arbiter) (d : Direction) :
    s.exchanged.waits d.other = s.waits d := by
  have hp := s.queue_exchanged (.priority d)
  have hn := s.queue_exchanged (.normal d)
  change s.exchanged.queue (.priority d.other) = _ at hp
  change s.exchanged.queue (.normal d.other) = _ at hn
  unfold waits
  rw [hp, hn]

theorem priorityShare_exchanged (s : Arbiter) (d : Direction) :
    s.exchanged.priorityShare d.other = s.priorityShare d :=
  congrArg (fun q => min s.freeSlots q.waiting) (s.queue_exchanged (.priority d))

theorem normalShare_exchanged (s : Arbiter) (d : Direction) :
    s.exchanged.normalShare d.other = s.normalShare d := by
  unfold normalShare
  rw [priorityShare_exchanged]
  exact congrArg (fun q => min (s.freeSlots - s.priorityShare d) q.waiting)
    (s.queue_exchanged (.normal d))

theorem grant_exchanged (s : Arbiter) (l : Lane) (n : Nat) :
    s.exchanged.grant l.other n = (s.grant l n).exchanged := by
  unfold grant
  rw [onQueue_exchanged]
  rfl

theorem shareOut_exchanged (s : Arbiter) (d : Direction) :
    s.exchanged.shareOut d.other = (s.shareOut d).exchanged := by
  unfold shareOut
  rw [priorityShare_exchanged, normalShare_exchanged, ← grant_exchanged, ← grant_exchanged]
  rfl

/-- Nobody holds the bus, and both directions wait for it. -/
def Contested (s : Arbiter) : Prop := s.heading = none ∧ ∀ d, s.waits d = true

theorem turn_exchanged (h : ¬ s.Contested) : s.exchanged.turn = s.turn.map Direction.other := by
  have hsend : s.exchanged.waits .send = s.waits .receive := s.waits_exchanged .receive
  have hreceive : s.exchanged.waits .receive = s.waits .send := s.waits_exchanged .send
  unfold turn
  rw [hsend, hreceive]
  cases hh : s.heading with
  | some d => simp only [exchanged, hh, Option.map_some]
  | none =>
    simp only [exchanged, hh, Option.map_none]
    cases hs : s.waits .send with
    | false => cases s.waits .receive <;> rfl
    | true =>
      -- Did receive tasks wait too, both buses would turn to send.
      have hr : s.waits .receive = false := by
        apply eq_false_of_ne_true
        intro hr
        exact h ⟨hh, fun d => by cases d <;> assumption⟩
      rw [hr]
      rfl

theorem handOver_exchanged (h : ¬ s.Contested) :
    s.exchanged.handOver = (s.handOver.1.exchanged, s.handOver.2.exchanged) := by
  have hturn := turn_exchanged h
  cases ht : s.turn with
  | none =>
    rw [ht] at hturn
    rw [handOver_of_turn_eq_none ht, handOver_of_turn_eq_none hturn]
    rfl
  | some d =>
    rw [ht] at hturn
    rw [handOver_of_turn ht, handOver_of_turn hturn, priorityShare_exchanged,
      normalShare_exchanged, shareOut_exchanged, Grants.exchanged_toward]
    rfl

theorem inOrder_exchanged_handOver (s : Arbiter) :
    Grants.inOrder s.handOver.1.exchanged = s.handOver.1.inOrder.map (Prod.map Lane.other id) := by
  cases ht : s.turn with
  | none =>
    rw [handOver_of_turn_eq_none ht]
    rfl
  | some d =>
    rw [handOver_of_turn ht]
    exact Grants.inOrder_exchanged_toward ..

theorem Coherent.exchanged (h : s.Coherent) : s.exchanged.Coherent where
  capacity_pos := h.capacity_pos
  fits := h.fits
  idle_iff := Option.map_eq_none_iff.trans h.idle_iff
  granted_eq := s.totalGranted_exchanged.trans h.granted_eq
  ahead l hl := by
    rw [← l.other_other, queue_exchanged] at hl
    change s.heading.map Direction.other = some l.direction
    rw [h.ahead _ hl]
    exact congrArg some l.direction.other_other
  nobody_waits hn l := by
    rw [← l.other_other, queue_exchanged]
    exact h.nobody_waits (Option.map_eq_none_iff.mp hn) _

/-- The last rider leaves tasks of both directions behind and no grant. -/
def Tied (s : Arbiter) : Prop := s.onBus = 1 ∧ s.reserved = 0 ∧ ∀ d, s.waits d = true

instance (s : Arbiter) : Decidable s.Tied :=
  decidable_of_iff (s.onBus = 1 ∧ s.reserved = 0 ∧ s.waits .send = true ∧ s.waits .receive = true)
    ⟨fun ⟨ho, hr, hs, hb⟩ => ⟨ho, hr, fun d => by cases d <;> assumption⟩,
      fun ⟨ho, hr, hw⟩ => ⟨ho, hr, hw _, hw _⟩⟩

theorem Coherent.contested_vacate_iff (h : s.Coherent) (ho : 0 < s.onBus) :
    s.vacate.Contested ↔ s.Tied := by
  have hidle := (h.balanced_vacate ho).idle_iff
  change s.vacate.heading = none ↔ s.onBus - 1 = 0 ∧ s.reserved = 0 at hidle
  unfold Contested Tied
  rw [hidle, and_assoc]
  exact and_congr_left' (by omega)

theorem Coherent.leave_exchanged (h : s.Coherent) (hn : ¬ s.Tied) :
    s.exchanged.leave = (exchangedResult s.leave).map PerLane.exchanged := by
  by_cases ho : s.onBus = 0
  · have ho' : s.exchanged.onBus = 0 := ho
    rw [leave, leave, if_pos ho, if_pos ho']
    rfl
  · have hpos : 0 < s.onBus := Nat.pos_of_ne_zero ho
    have hc := mt (h.contested_vacate_iff hpos).mp hn
    rw [h.leave_eq hpos, h.exchanged.leave_eq hpos, vacate_exchanged, handOver_exchanged hc]
    rfl

theorem Tied.exchanged (h : s.Tied) : s.exchanged.Tied := by
  refine ⟨h.1, h.2.1, fun d => ?_⟩
  rw [← d.other_other, waits_exchanged]
  exact h.2.2 _

/-- A tie goes to the send tasks. -/
theorem Coherent.leave_of_tied (h : s.Coherent) (ht : s.Tied) :
    ∃ t grants, s.leave = .done t grants ∧ t.heading = some .send := by
  have hpos : 0 < s.onBus := by have := ht.1; omega
  refine ⟨_, _, h.leave_eq hpos, ?_⟩
  obtain ⟨hh, hw⟩ := (h.contested_vacate_iff hpos).mpr ht
  rw [heading_handOver, turn, hh]
  exact if_pos (hw .send)

theorem Coherent.inOrder_exchanged (h : s.Coherent) {t : Arbiter} {grants : Grants}
    (hleave : s.leave = .done t grants) :
    Grants.inOrder grants.exchanged = grants.inOrder.map (Prod.map Lane.other id) := by
  by_cases ho : s.onBus = 0
  · rw [leave, if_pos ho] at hleave
    cases hleave
  · rw [h.leave_eq (Nat.pos_of_ne_zero ho)] at hleave
    cases hleave
    exact inOrder_exchanged_handOver _

def Act.exchanged : Act → Act
  | .arrive l => .arrive l.other
  | .comeBack l => .comeBack l.other
  | .leave => .leave

/-- No act of the row is a tied departure. -/
def Untied : Arbiter → List Act → Prop
  | _, [] => True
  | s, a :: as => (a = .leave → ¬ s.Tied) ∧ (s.next a).Untied as

theorem permits_exchanged : s.exchanged.Permits a.exchanged ↔ s.Permits a := by
  cases a with
  | comeBack l =>
    change 0 < (s.exchanged.queue l.other).granted ↔ 0 < (s.queue l).granted
    rw [queue_exchanged]
  | _ => exact Iff.rfl

theorem Coherent.next_exchanged (h : s.Coherent) (hn : a = .leave → ¬ s.Tied) :
    s.exchanged.next a.exchanged = (s.next a).exchanged := by
  cases a with
  | arrive l => exact congrArg Outcome.state (s.arrive_exchanged l)
  | comeBack l => exact congrArg Outcome.state (s.resumeBoard_exchanged l)
  | leave => exact congrArg Outcome.state (h.leave_exchanged (hn rfl))

theorem Coherent.after_exchanged (h : s.Coherent) (hall : s.Allows as) (hn : s.Untied as) :
    s.exchanged.Allows (as.map Act.exchanged) ∧
      s.exchanged.after (as.map Act.exchanged) = (s.after as).exchanged := by
  induction as generalizing s with
  | nil => exact ⟨trivial, rfl⟩
  | cons a as ih =>
    have hnext := h.next_exchanged hn.1
    obtain ⟨hallows, hafter⟩ := ih ((h.effect hall.1).coherent h) hall.2 hn.2
    rw [← hnext] at hallows hafter
    exact ⟨⟨permits_exchanged.mpr hall.1, hallows⟩, hafter⟩

/-- Whatever acts have led to, the bus treats the directions alike, now and along every
further row of acts, but for a tied departure, which goes to the send tasks. -/
theorem directions_alike (hc : 0 < c) (hpast : (idle c).Allows past)
    (hs : (idle c).after past = s) :
    (∀ l, s.exchanged.mustWait l.other = s.mustWait l) ∧
      (∀ l, s.exchanged.arrive l.other = exchangedResult (s.arrive l)) ∧
      (∀ l, s.exchanged.resumeBoard l.other = exchangedResult (s.resumeBoard l)) ∧
      (¬ s.Tied → s.exchanged.leave = (exchangedResult s.leave).map PerLane.exchanged) ∧
      (∀ t grants, s.leave = .done t grants →
        Grants.inOrder grants.exchanged = grants.inOrder.map (Prod.map Lane.other id)) ∧
      (∀ future, s.Allows future → s.Untied future →
        s.exchanged.Allows (future.map Act.exchanged) ∧
          s.exchanged.after (future.map Act.exchanged) = (s.after future).exchanged) ∧
      (s.Tied → s.exchanged.leave ≠ (exchangedResult s.leave).map PerLane.exchanged ∧
        ∃ t grants t' grants', s.leave = .done t grants ∧ t.heading = some .send ∧
          s.exchanged.leave = .done t' grants' ∧ t'.heading = some .send) := by
  subst hs
  obtain ⟨h, -⟩ := (coherent_idle hc).after hpast
  refine ⟨mustWait_exchanged _, arrive_exchanged _, resumeBoard_exchanged _, h.leave_exchanged,
    fun _ _ hleave => h.inOrder_exchanged hleave, fun _ hall hn => h.after_exchanged hall hn,
    fun ht => ?_⟩
  obtain ⟨t, grants, hleave, hsend⟩ := h.leave_of_tied ht
  obtain ⟨t', grants', hleave', hsend'⟩ := h.exchanged.leave_of_tied ht.exchanged
  refine ⟨fun he => ?_, t, grants, t', grants', hleave, hsend, hleave', hsend'⟩
  rw [hleave, hleave'] at he
  have hstate : t' = t.exchanged := congrArg Outcome.state he
  rw [hstate] at hsend'
  change t.heading.map Direction.other = some .send at hsend'
  rw [hsend] at hsend'
  cases hsend'

/-- A send task and a receive task wait behind two receive tasks. The first of these is
succeeded in its own direction, whichever that is; on a bus of one slot there is a tie. -/
theorem directions_alike_behind_receivers :
    (∃ s t grants, (idle 2).after [.arrive (.normal .receive), .arrive (.normal .receive),
        .arrive (.normal .send), .arrive (.priority .receive)] = s ∧
      s.leave = .done t grants ∧ grants.inOrder = [(.priority .receive, 1)] ∧
      s.exchanged.leave = .done t.exchanged grants.exchanged ∧
      Grants.inOrder grants.exchanged = [(.priority .send, 1)]) ∧
    ∃ s t t' grants grants', (idle 1).after [.arrive (.normal .receive),
        .arrive (.normal .send), .arrive (.priority .receive)] = s ∧
      s.heading = some .receive ∧ s.leave = .done t grants ∧ t.heading = some .send ∧
      s.exchanged.heading = some .send ∧ s.exchanged.leave = .done t' grants' ∧
      t'.heading = some .send := by
  have htwo : (idle 2).Allows [.arrive (.normal .receive), .arrive (.normal .receive),
    .arrive (.normal .send), .arrive (.priority .receive)] := by decide
  have hone : (idle 1).Allows [.arrive (.normal .receive), .arrive (.normal .send),
    .arrive (.priority .receive)] := by decide
  constructor
  · obtain ⟨-, -, -, hleave, horder, -⟩ := directions_alike (by decide) htwo rfl
    exact ⟨_, _, ⟨0, 0, 0, 1⟩, rfl, rfl, by decide, hleave (by decide),
      (horder _ _ rfl).trans (by decide)⟩
  · obtain ⟨-, -, -, -, -, -, htied⟩ := directions_alike (by decide) hone rfl
    obtain ⟨-, t, grants, t', grants', hleave, hsend, hleave', hsend'⟩ := htied (by decide)
    exact ⟨_, t, t', grants, grants', rfl, by decide, hleave, hsend, by decide, hleave', hsend'⟩

end Arbiter

end HalfDuplex
