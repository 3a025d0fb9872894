import HalfDuplex.Proofs.Arbiter.Acts

/-!
# Priority tasks beside a free slot

A priority task of the direction that holds the bus waits only while every slot
is taken or promised: if one is free it boards on arrival, and a departure hands
the free slots to the priority tasks first. Normal tasks have no such right, for
they also wait behind a priority task that has yet to come back for its slot.
-/

namespace HalfDuplex.Arbiter

variable {s t : Arbiter} {l : Lane} {d : Direction} {a : Act} {as : List Act} {c : Nat}

/-- No priority task of the direction that holds the bus waits beside a free slot. -/
def Prompt (s : Arbiter) : Prop :=
  ∀ d, s.heading = some d → 0 < s.freeSlots → (s.queue (.priority d)).waiting = 0

theorem prompt_of_heading_eq_none (hn : s.heading = none) : s.Prompt := by
  intro d hd
  rw [hn] at hd
  cases hd

theorem mustWait_priority_eq_false (hf : 0 < s.freeSlots) (hn : s.heldAgainst d = false) :
    s.mustWait (.priority d) = false :=
  mustWait_eq_false_iff.mpr ⟨hf, hn, fun h => by cases h⟩

theorem Prompt.addWaiting (h : s.Prompt) (hw : s.mustWait l = true) : (s.addWaiting l).Prompt := by
  intro d hd hf
  change s.heading = some d at hd
  change 0 < s.freeSlots at hf
  have hne : l ≠ .priority d := by
    rintro rfl
    rw [mustWait_priority_eq_false hf (heldAgainst_eq_false_iff.mpr (.inr hd))] at hw
    cases hw
  rw [queue_addWaiting, if_neg hne]
  exact h d hd hf

theorem Prompt.addRider (h : s.Prompt) (hwait : s.heading = none → ∀ m, (s.queue m).waiting = 0)
    (hn : s.heldAgainst d = false) : (s.addRider d).Prompt := by
  intro e he hf
  cases he
  change (s.queue (.priority d)).waiting = 0
  rcases heldAgainst_eq_false_iff.mp hn with hnone | hsome
  · exact hwait hnone _
  · apply h d hsome
    change 0 < s.capacity - (s.onBus + 1) - s.reserved at hf
    unfold freeSlots
    omega

theorem Prompt.comeBack (h : s.Prompt) (hc : s.Coherent) (hg : 0 < (s.queue l).granted) :
    ((s.useGrant l).addRider l.direction).Prompt := by
  intro d hd hf
  have hhead := hc.ahead l hg
  have hres := hc.reserved_pos hg
  cases hd
  have hwaiting : ((s.useGrant l).queue (.priority l.direction)).waiting =
      (s.queue (.priority l.direction)).waiting := by
    rw [queue_useGrant]
    split <;> rfl
  change ((s.useGrant l).queue (.priority l.direction)).waiting = 0
  rw [hwaiting]
  apply h _ hhead
  change 0 < s.capacity - (s.onBus + 1) - (s.reserved - 1) at hf
  unfold freeSlots
  omega

theorem prompt_handOver (s : Arbiter) : s.handOver.2.Prompt := by
  unfold handOver
  cases ht : s.turn with
  | none => exact prompt_of_heading_eq_none (turn_eq_none_iff.mp ht).1
  | some e =>
    intro d hd hf
    cases hd
    change 0 < s.capacity - s.onBus - (s.shareOut e).reserved at hf
    change ((s.shareOut e).queue (.priority e)).waiting = 0
    have hle := s.shares_le_freeSlots e
    rw [reserved_shareOut] at hf
    rw [shareOut, queue_grant, if_neg (fun h => by cases h), waiting_grant_priority]
    unfold priorityShare at *
    unfold freeSlots at *
    omega

theorem Effect.prompt (he : Effect s a t) (hc : s.Coherent) (h : s.Prompt) : t.Prompt := by
  cases he with
  | queue l hw => exact h.addWaiting hw
  | turnAway l hw => exact h
  | board l hw => exact h.addRider hc.nobody_waits (open_of_mustWait_eq_false hw).notAgainst
  | comeBack l hg => exact h.comeBack hc hg
  | leave ho => exact prompt_handOver s.vacate

theorem Coherent.prompt_after (hc : s.Coherent) (h : s.Prompt) (hall : s.Allows as) :
    (s.after as).Prompt := by
  induction as generalizing s with
  | nil => exact h
  | cons a as ih =>
    have he := hc.effect hall.1
    exact ih (he.coherent hc) (he.prompt hc h) hall.2

/-- Whatever acts have led to, no priority task of the direction that holds the
bus waits while a slot is free. -/
theorem priority_waits_for_full_bus (hc : 0 < c) (hall : (idle c).Allows as)
    (hs : (idle c).after as = s) (hd : s.heading = some d) (hf : 0 < s.freeSlots) :
    (s.queue (.priority d)).waiting = 0 := by
  subst hs
  exact (coherent_idle hc).prompt_after (prompt_of_heading_eq_none rfl) hall d hd hf

/-- A slot is free, and a normal task waits beside it, behind a priority task that
has yet to come back. No priority task waits. -/
theorem priority_waits_for_full_bus_promised :
    ∃ as s, (idle 3).Allows as ∧ (idle 3).after as = s ∧ s.heading = some .send ∧
      s.freeSlots = 1 ∧ (s.queue (.normal .send)).waiting = 1 ∧
      (s.queue (.priority .send)).granted = 1 ∧ (s.queue (.priority .send)).waiting = 0 := by
  let as : List Act := [.arrive (.normal .send), .arrive (.normal .send), .arrive (.normal .send),
    .arrive (.priority .send), .leave, .leave, .arrive (.normal .send)]
  have hall : (idle 3).Allows as := by decide
  exact ⟨as, _, hall, rfl, by decide, by decide, by decide, by decide,
    priority_waits_for_full_bus (by decide) hall rfl (by decide) (by decide)⟩

end HalfDuplex.Arbiter
