import HalfDuplex.Proofs.Arbiter.Coherence

/-!
# What a departure hands over

A departure serves one direction: the one that still holds the bus, else send
if a send task waits, else receive if a receive task waits. Its priority tasks
get as many of the free slots as they can use, and its normal tasks the rest.
-/

namespace HalfDuplex

namespace Grants

def toward (d : Direction) (priority normal : Nat) : Grants :=
  ((PerLane.fill 0).set (.priority d) priority).set (.normal d) normal

theorem get_toward_priority (d : Direction) (p n : Nat) :
    (toward d p n).get (.priority d) = p := by
  cases d <;> rfl

theorem get_toward_normal (d : Direction) (p n : Nat) :
    (toward d p n).get (.normal d) = n := PerLane.get_set_self ..

theorem get_toward_of_ne {l : Lane} {d : Direction} {p n : Nat} (h : l.direction ≠ d) :
    (toward d p n).get l = 0 := by
  rcases l with ⟨_ | _, _ | _⟩ <;> cases d <;> first | rfl | exact absurd rfl h

theorem total_toward (d : Direction) (p n : Nat) : (toward d p n).total = p + n := by
  cases d
  · change n + p + 0 + 0 = p + n
    omega
  · change 0 + 0 + n + p = p + n
    omega

theorem inOrder_toward (d : Direction) (p n : Nat) :
    (toward d p n).inOrder =
      [(Lane.priority d, p), (Lane.normal d, n)].filter fun x => 0 < x.2 := by
  unfold inOrder
  cases d <;> rfl

end Grants

namespace Arbiter

variable {s : Arbiter} {l m : Lane} {d : Direction}

def waits (s : Arbiter) (d : Direction) : Bool :=
  0 < (s.queue (.priority d)).waiting + (s.queue (.normal d)).waiting

/-- The direction that free slots are handed over to. -/
def turn (s : Arbiter) : Option Direction :=
  match s.heading with
  | some d => some d
  | none => if s.waits .send then some .send else if s.waits .receive then some .receive else none

def priorityShare (s : Arbiter) (d : Direction) : Nat :=
  min s.freeSlots (s.queue (.priority d)).waiting

def normalShare (s : Arbiter) (d : Direction) : Nat :=
  min (s.freeSlots - s.priorityShare d) (s.queue (.normal d)).waiting

def shareOut (s : Arbiter) (d : Direction) : Arbiter :=
  (s.grant (.priority d) (s.priorityShare d)).grant (.normal d) (s.normalShare d)

/-- The grants of a departure that left the arbiter as `s`, and the arbiter
after them. -/
def handOver (s : Arbiter) : Grants × Arbiter :=
  match s.turn with
  | none => (PerLane.fill 0, s)
  | some d =>
    (Grants.toward d (s.priorityShare d) (s.normalShare d),
      { s.shareOut d with heading := some d })

theorem grant_zero (s : Arbiter) (l : Lane) : s.grant l 0 = s := by
  have hq : s.queues.modify l (fun q => ⟨q.waiting - 0, q.granted + 0⟩) = s.queues :=
    PerLane.modify_eq_self rfl
  unfold grant onQueue
  rw [hq]
  rfl

theorem shares_le_freeSlots (s : Arbiter) (d : Direction) :
    s.priorityShare d + s.normalShare d ≤ s.freeSlots := by
  unfold normalShare priorityShare
  omega

theorem shares_eq_zero_iff (hf : 0 < s.freeSlots) :
    s.priorityShare d + s.normalShare d = 0 ↔ s.waits d = false := by
  unfold normalShare priorityShare waits
  rw [decide_eq_false_iff_not]
  omega

theorem shareOut_eq_self (h : s.priorityShare d + s.normalShare d = 0) : s.shareOut d = s := by
  obtain ⟨hp, hn⟩ := Nat.add_eq_zero_iff.mp h
  rw [shareOut, hp, hn, grant_zero, grant_zero]

theorem waiting_grant_priority (s : Arbiter) (d : Direction) (n : Nat) :
    ((s.grant (.priority d) n).queue (.priority d)).waiting =
      (s.queue (.priority d)).waiting - n := by
  rw [queue_grant, if_pos rfl]

theorem queue_normal_grant_priority (s : Arbiter) (d : Direction) (n : Nat) :
    (s.grant (.priority d) n).queue (.normal d) = s.queue (.normal d) := by
  rw [queue_grant, if_neg]
  intro h
  cases h

theorem waiting_priority_of_normalShare_pos (h : 0 < s.normalShare d) :
    ((s.grant (.priority d) (s.priorityShare d)).queue (.priority d)).waiting = 0 := by
  rw [waiting_grant_priority]
  unfold normalShare at h
  unfold priorityShare at h ⊢
  omega

/-- The test between the two grants can be left out. -/
theorem wakeRanks_eq (s : Arbiter) (d : Direction) :
    s.wakeRanks d = ((s.priorityShare d, s.normalShare d), s.shareOut d) := by
  have hp : s.grantable (.priority d) = s.priorityShare d := rfl
  have hn : (s.grant (.priority d) (s.priorityShare d)).grantable (.normal d) =
      s.normalShare d := by
    rw [grantable, freeSlots_grant, queue_normal_grant_priority]
    rfl
  simp only [wakeRanks, wake, hp]
  split
  · rw [hn]
    rfl
  · next hw =>
    have h0 : s.normalShare d = 0 :=
      Nat.eq_zero_of_not_pos fun h => hw (waiting_priority_of_normalShare_pos h)
    rw [shareOut, h0, grant_zero]

theorem serve_eq (hn : s.heldAgainst d = false) :
    s.serve d = ((s.priorityShare d, s.normalShare d),
      if 0 < s.priorityShare d + s.normalShare d then { s.shareOut d with heading := some d }
      else s.shareOut d) := by
  rw [serve, hn, if_neg Bool.false_ne_true, wakeRanks_eq]

theorem serve_of_heading (hd : s.heading = some d) :
    s.serve d = ((s.priorityShare d, s.normalShare d),
      { s.shareOut d with heading := some d }) := by
  rw [serve_eq (heldAgainst_eq_false_iff.mpr (.inr hd))]
  split
  · rfl
  · next h0 =>
    rw [shareOut_eq_self (by omega), ← hd]

theorem serve_of_waits (hn : s.heading = none) (hf : 0 < s.freeSlots) (hw : s.waits d = true) :
    s.serve d = ((s.priorityShare d, s.normalShare d),
      { s.shareOut d with heading := some d }) := by
  have hpos : ¬ s.priorityShare d + s.normalShare d = 0 := by
    rw [shares_eq_zero_iff hf, hw]
    decide
  rw [serve_eq (heldAgainst_eq_false_iff.mpr (.inl hn)), if_pos (by omega)]

theorem serve_of_not_waits (hn : s.heading = none) (hf : 0 < s.freeSlots)
    (hw : s.waits d = false) : s.serve d = ((0, 0), s) := by
  have h0 := (shares_eq_zero_iff hf).mpr hw
  obtain ⟨hp, hq⟩ := Nat.add_eq_zero_iff.mp h0
  rw [serve_eq (heldAgainst_eq_false_iff.mpr (.inl hn)), if_neg (by omega), shareOut_eq_self h0,
    hp, hq]

theorem serve_of_heading_other (hd : s.heading = some d.other) : s.serve d = ((0, 0), s) :=
  serve_of_heldAgainst (heldAgainst_eq_true_iff.mpr hd)

/-- Serving both directions one after the other hands over to one of them. -/
theorem serve_both_eq (hf : s.heading = none → 0 < s.freeSlots) :
    (let (out, t) := s.serve .send
     let (back, t) := t.serve .receive
     ((⟨out.2, out.1, back.2, back.1⟩ : Grants), t)) = s.handOver := by
  have hskip : ∀ t : Arbiter, t.heading = some .send → t.serve .receive = ((0, 0), t) :=
    fun _ ht => serve_of_heading_other ht
  unfold handOver turn
  cases hh : s.heading with
  | some d =>
    cases d with
    | send => simp only [serve_of_heading hh, hskip]; rfl
    | receive => simp only [serve_of_heading_other (d := .send) hh, serve_of_heading hh]; rfl
  | none =>
    have hpos := hf hh
    cases hs : s.waits .send with
    | true => simp only [serve_of_waits hh hpos hs, hskip]; rfl
    | false =>
      simp only [serve_of_not_waits hh hpos hs]
      cases hr : s.waits .receive with
      | true => simp only [serve_of_waits hh hpos hr]; rfl
      | false => simp only [serve_of_not_waits hh hpos hr]; rfl

theorem leave_eq_checked (ho : 0 < s.onBus)
    (hf : s.vacate.heading = none → 0 < s.vacate.freeSlots) :
    s.leave = s.vacate.handOver.2.checked s.vacate.handOver.1 := by
  rw [leave, if_neg (by omega), ← serve_both_eq hf]

theorem heading_vacate_eq_none_iff (hn : s.heading ≠ none) :
    s.vacate.heading = none ↔ s.vacate.onBus = 0 ∧ s.vacate.reserved = 0 := by
  change (if s.onBus - 1 = 0 ∧ s.reserved = 0 then none else s.heading) = none ↔
    s.onBus - 1 = 0 ∧ s.reserved = 0
  split
  · next hz => exact iff_of_true rfl hz
  · next hz => exact iff_of_false hn hz

theorem Coherent.balanced_vacate (h : s.Coherent) (ho : 0 < s.onBus) : s.vacate.Balanced where
  capacity_pos := h.capacity_pos
  fits := by
    have := h.fits
    change s.onBus - 1 + s.reserved ≤ s.capacity
    omega
  idle_iff := heading_vacate_eq_none_iff fun hn => by have := h.idle_iff.mp hn; omega
  granted_eq := h.granted_eq
  ahead l hl := by
    have hr := h.granted_le_reserved l
    change 0 < (s.queue l).granted at hl
    change (if s.onBus - 1 = 0 ∧ s.reserved = 0 then none else s.heading) = some l.direction
    rw [if_neg (by omega)]
    exact h.ahead l hl

theorem Coherent.freeSlots_vacate_pos (h : s.Coherent) (ho : 0 < s.onBus) :
    0 < s.vacate.freeSlots := by
  have := h.fits
  change 0 < s.capacity - (s.onBus - 1) - s.reserved
  omega

theorem heading_vacate_of_one_lt (ho : 1 < s.onBus) : s.vacate.heading = s.heading := by
  change (if s.onBus - 1 = 0 ∧ s.reserved = 0 then none else s.heading) = s.heading
  rw [if_neg (by omega)]

theorem turn_eq_none_iff :
    s.turn = none ↔ s.heading = none ∧ ∀ l, (s.queue l).waiting = 0 := by
  have hwaits : ∀ d, s.waits d = false ↔
      (s.queue (.priority d)).waiting = 0 ∧ (s.queue (.normal d)).waiting = 0 := by
    intro d
    unfold waits
    rw [decide_eq_false_iff_not]
    omega
  unfold turn
  cases hh : s.heading with
  | some d => simp
  | none =>
    constructor
    · intro ht
      cases hs : s.waits .send <;> cases hr : s.waits .receive <;> simp [hs, hr] at ht
      refine ⟨rfl, fun l => ?_⟩
      obtain ⟨hsp, hsn⟩ := (hwaits .send).mp hs
      obtain ⟨hrp, hrn⟩ := (hwaits .receive).mp hr
      rcases l with ⟨_ | _, _ | _⟩
      · exact hsn
      · exact hsp
      · exact hrn
      · exact hrp
    · rintro ⟨-, hz⟩
      simp [(hwaits .send).mpr ⟨hz _, hz _⟩, (hwaits .receive).mpr ⟨hz _, hz _⟩]

theorem turn_of_heading (hd : s.heading = some d) : s.turn = some d := by
  simp [turn, hd]

theorem waits_of_turn (hn : s.heading = none) (ht : s.turn = some d) : s.waits d = true := by
  unfold turn at ht
  rw [hn] at ht
  dsimp only at ht
  split at ht
  · next hs => cases ht; exact hs
  · split at ht
    · next hr => cases ht; exact hr
    · cases ht

theorem queue_shareOut (s : Arbiter) (d : Direction) (l : Lane) :
    (s.shareOut d).queue l =
      ⟨(s.queue l).waiting - (Grants.toward d (s.priorityShare d) (s.normalShare d)).get l,
        (s.queue l).granted + (Grants.toward d (s.priorityShare d) (s.normalShare d)).get l⟩ := by
  unfold shareOut Grants.toward
  rw [queue_grant, queue_grant, PerLane.get_set, PerLane.get_set, PerLane.get_fill]
  by_cases hn : Lane.normal d = l
  · subst hn
    have hp : ¬ Lane.priority d = Lane.normal d := fun h => by cases h
    rw [if_pos rfl, if_pos rfl, if_neg hp]
  · rw [if_neg hn, if_neg hn]
    split <;> rfl

theorem totalGranted_shareOut (s : Arbiter) (d : Direction) :
    (s.shareOut d).totalGranted = s.totalGranted + (s.priorityShare d + s.normalShare d) := by
  unfold shareOut
  rw [totalGranted_grant, totalGranted_grant, Nat.add_assoc]

theorem reserved_shareOut (s : Arbiter) (d : Direction) :
    (s.shareOut d).reserved = s.reserved + (s.priorityShare d + s.normalShare d) :=
  Nat.add_assoc ..

theorem onBus_handOver (s : Arbiter) : s.handOver.2.onBus = s.onBus := by
  unfold handOver
  cases s.turn <;> rfl

theorem capacity_handOver (s : Arbiter) : s.handOver.2.capacity = s.capacity := by
  unfold handOver
  cases s.turn <;> rfl

theorem fits_handOver (hfit : s.onBus + s.reserved ≤ s.capacity) :
    s.handOver.2.onBus + s.handOver.2.reserved ≤ s.handOver.2.capacity := by
  unfold handOver
  cases s.turn with
  | none => exact hfit
  | some d =>
    have hle := s.shares_le_freeSlots d
    have hres := s.reserved_shareOut d
    unfold freeSlots at hle
    change s.onBus + (s.shareOut d).reserved ≤ s.capacity
    omega

theorem totalGranted_handOver (hg : s.totalGranted = s.reserved) :
    s.handOver.2.totalGranted = s.handOver.2.reserved := by
  unfold handOver
  cases s.turn with
  | none => exact hg
  | some d =>
    change (s.shareOut d).totalGranted = (s.shareOut d).reserved
    rw [totalGranted_shareOut, reserved_shareOut, hg]

theorem heading_handOver_eq_none_iff (hidle : s.heading = none ↔ s.onBus = 0 ∧ s.reserved = 0)
    (hf : 0 < s.freeSlots) :
    s.handOver.2.heading = none ↔ s.handOver.2.onBus = 0 ∧ s.handOver.2.reserved = 0 := by
  unfold handOver
  cases ht : s.turn with
  | none => exact hidle
  | some d =>
    -- the bus is occupied or promised already, or the served direction had somebody waiting
    refine iff_of_false (fun hn => by cases hn) ?_
    rintro ⟨ho, hr⟩
    have hres := s.reserved_shareOut d
    change s.onBus = 0 at ho
    change (s.shareOut d).reserved = 0 at hr
    have hn : s.heading = none := hidle.mpr ⟨ho, by omega⟩
    have hw := waits_of_turn hn ht
    rw [(shares_eq_zero_iff hf).mp (by omega)] at hw
    cases hw

theorem nobody_waits_handOver (hn : s.handOver.2.heading = none) (l : Lane) :
    (s.handOver.2.queue l).waiting = 0 := by
  unfold handOver at hn ⊢
  cases ht : s.turn with
  | none => exact (turn_eq_none_iff.mp ht).2 l
  | some d => rw [ht] at hn; cases hn

theorem Balanced.ahead_handOver (h : s.Balanced) (hl : 0 < (s.handOver.2.queue l).granted) :
    s.handOver.2.heading = some l.direction := by
  unfold handOver at hl ⊢
  cases ht : s.turn with
  | none => rw [ht] at hl; exact h.ahead l hl
  | some d =>
    rw [ht] at hl
    change 0 < ((s.shareOut d).queue l).granted at hl
    rw [queue_shareOut] at hl
    by_cases hld : l.direction = d
    · rw [hld]
    · rw [Grants.get_toward_of_ne hld] at hl
      have hheld := turn_of_heading (h.ahead l hl)
      rw [ht] at hheld
      exact absurd (Option.some.inj hheld).symm hld

theorem Balanced.coherent_handOver (h : s.Balanced) (hf : 0 < s.freeSlots) :
    s.handOver.2.Coherent where
  capacity_pos := by
    rw [capacity_handOver]
    exact h.capacity_pos
  fits := fits_handOver h.fits
  idle_iff := heading_handOver_eq_none_iff h.idle_iff hf
  granted_eq := totalGranted_handOver h.granted_eq
  ahead _ hl := h.ahead_handOver hl
  nobody_waits := nobody_waits_handOver

theorem Coherent.departed (h : s.Coherent) (ho : 0 < s.onBus) : s.vacate.handOver.2.Coherent :=
  (h.balanced_vacate ho).coherent_handOver (h.freeSlots_vacate_pos ho)

theorem Coherent.leave_eq (h : s.Coherent) (ho : 0 < s.onBus) :
    s.leave = .done s.vacate.handOver.2 s.vacate.handOver.1 := by
  rw [leave_eq_checked ho fun _ => h.freeSlots_vacate_pos ho]
  exact (h.departed ho).checked _

theorem queue_handOver (s : Arbiter) (l : Lane) :
    s.handOver.2.queue l =
      ⟨(s.queue l).waiting - s.handOver.1.get l, (s.queue l).granted + s.handOver.1.get l⟩ := by
  unfold handOver
  cases s.turn with
  | none =>
    dsimp only
    rw [PerLane.get_fill]
    rfl
  | some d => exact s.queue_shareOut d l

theorem priorityShare_le (s : Arbiter) (d : Direction) :
    s.priorityShare d ≤ (s.queue (.priority d)).waiting := Nat.min_le_right ..

theorem normalShare_le (s : Arbiter) (d : Direction) :
    s.normalShare d ≤ (s.queue (.normal d)).waiting := Nat.min_le_right ..

theorem handOver_le_waiting (s : Arbiter) (l : Lane) :
    s.handOver.1.get l ≤ (s.queue l).waiting := by
  unfold handOver
  cases s.turn with
  | none =>
    dsimp only
    rw [PerLane.get_fill]
    exact Nat.zero_le _
  | some d =>
    have hp := s.priorityShare_le d
    have hn := s.normalShare_le d
    dsimp only
    by_cases hld : l.direction = d
    · subst hld
      rcases l with ⟨_ | _, _ | _⟩
      · exact hn
      · exact hp
      · exact hn
      · exact hp
    · rw [Grants.get_toward_of_ne hld]
      exact Nat.zero_le _

theorem pending_handOver (s : Arbiter) (l : Lane) :
    (s.handOver.2.queue l).pending = (s.queue l).pending := by
  have hle := s.handOver_le_waiting l
  rw [queue_handOver]
  unfold Queue.pending
  dsimp only
  omega

theorem totalPending_handOver (s : Arbiter) : s.handOver.2.totalPending = s.totalPending := by
  have hq : s.handOver.2.queues.map Queue.pending = s.queues.map Queue.pending := by
    apply PerLane.ext_get
    intro l
    rw [PerLane.get_map, PerLane.get_map]
    exact s.pending_handOver l
  unfold totalPending
  rw [hq]

theorem heading_handOver_of_heading (hd : s.heading = some d) : s.handOver.2.heading = some d := by
  unfold handOver
  rw [turn_of_heading hd]

end Arbiter

end HalfDuplex
