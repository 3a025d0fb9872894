import HalfDuplex.Arbiter.Calls

/-!
# Coherent arbiters

Riders and grants together fit the bus, the bus is held exactly while it is
occupied or promised, all grants point in the direction held, and nobody waits
for an idle bus. A coherent arbiter faults in none of the calls below, and they
leave it coherent.
-/

namespace HalfDuplex.Arbiter

variable {s : Arbiter} {l m : Lane} {d : Direction}

/-- The counters agree with each other, waiting tasks aside. -/
structure Balanced (s : Arbiter) : Prop where
  capacity_pos : 0 < s.capacity
  fits : s.onBus + s.reserved ≤ s.capacity
  idle_iff : s.heading = none ↔ s.onBus = 0 ∧ s.reserved = 0
  granted_eq : s.totalGranted = s.reserved
  ahead : ∀ l, 0 < (s.queue l).granted → s.heading = some l.direction

/-- The counters agree, and nobody waits for an idle bus. -/
structure Coherent (s : Arbiter) : Prop extends Balanced s where
  nobody_waits : s.heading = none → ∀ l, (s.queue l).waiting = 0

def addWaiting (s : Arbiter) (l : Lane) : Arbiter :=
  s.onQueue l fun q => { q with waiting := q.waiting + 1 }

def useGrant (s : Arbiter) (l : Lane) : Arbiter :=
  { s.onQueue l (fun q => { q with granted := q.granted - 1 }) with reserved := s.reserved - 1 }

def addRider (s : Arbiter) (d : Direction) : Arbiter :=
  { s with onBus := s.onBus + 1, heading := some d }

theorem heldAgainst_eq_true_iff : s.heldAgainst d = true ↔ s.heading = some d.other := by
  simp [heldAgainst]

theorem heldAgainst_eq_false_iff :
    s.heldAgainst d = false ↔ s.heading = none ∨ s.heading = some d := by
  cases hh : s.heading with
  | none => simp [heldAgainst, hh]
  | some e => cases d <;> cases e <;> simp [heldAgainst, hh, Direction.other]

theorem mustWait_eq_false_iff :
    s.mustWait l = false ↔ 0 < s.freeSlots ∧ s.heldAgainst l.direction = false ∧
      (l.rank = .normal → (s.queue (.priority l.direction)).pending = 0) := by
  simp only [mustWait, Bool.or_eq_false_iff, Bool.and_eq_false_iff, and_assoc,
    beq_eq_false_iff_ne, decide_eq_false_iff_not, Nat.pos_iff_ne_zero, Decidable.not_not,
    Decidable.imp_iff_not_or, ne_eq]

theorem totalGranted_onQueue (f : Queue → Queue) :
    (s.onQueue l f).totalGranted + (s.queue l).granted =
      s.totalGranted + (f (s.queue l)).granted :=
  s.queues.sum_map_modify l f Queue.granted

theorem totalPending_onQueue (f : Queue → Queue) :
    (s.onQueue l f).totalPending + (s.queue l).pending =
      s.totalPending + (f (s.queue l)).pending :=
  s.queues.sum_map_modify l f Queue.pending

theorem granted_le_totalGranted (s : Arbiter) (l : Lane) :
    (s.queue l).granted ≤ s.totalGranted := by
  have h := (s.queues.map Queue.granted).get_le_sum l
  rwa [PerLane.get_map] at h

theorem pending_le_totalPending (s : Arbiter) (l : Lane) :
    (s.queue l).pending ≤ s.totalPending := by
  have h := (s.queues.map Queue.pending).get_le_sum l
  rwa [PerLane.get_map] at h

theorem totalPending_eq (s : Arbiter) : s.totalPending = s.totalWaiting + s.totalGranted := by
  simp only [totalPending, totalWaiting, totalGranted, PerLane.sum, PerLane.map, PerLane.ofFn,
    Queue.pending]
  omega

theorem totalWaiting_eq_zero_iff : s.totalWaiting = 0 ↔ ∀ l, (s.queue l).waiting = 0 := by
  unfold totalWaiting
  rw [PerLane.sum_eq_zero_iff]
  simp only [PerLane.get_map, queue]

theorem exists_granted (h : 0 < s.totalGranted) : ∃ l, 0 < (s.queue l).granted := by
  obtain ⟨l, hl⟩ := PerLane.exists_pos_of_sum_pos h
  rw [PerLane.get_map] at hl
  exact ⟨l, hl⟩

theorem queue_addWaiting (s : Arbiter) (l m : Lane) :
    (s.addWaiting l).queue m =
      if l = m then ⟨(s.queue m).waiting + 1, (s.queue m).granted⟩ else s.queue m :=
  queue_onQueue ..

theorem queue_useGrant (s : Arbiter) (l m : Lane) :
    (s.useGrant l).queue m =
      if l = m then ⟨(s.queue m).waiting, (s.queue m).granted - 1⟩ else s.queue m :=
  queue_onQueue ..

theorem granted_addWaiting (s : Arbiter) (l m : Lane) :
    ((s.addWaiting l).queue m).granted = (s.queue m).granted := by
  rw [queue_addWaiting]
  split <;> rfl

theorem granted_useGrant_le (s : Arbiter) (l m : Lane) :
    ((s.useGrant l).queue m).granted ≤ (s.queue m).granted := by
  rw [queue_useGrant]
  split
  · exact Nat.sub_le _ _
  · exact Nat.le_refl _

theorem pending_addWaiting (s : Arbiter) (l m : Lane) :
    ((s.addWaiting l).queue m).pending = (s.queue m).pending + if m = l then 1 else 0 := by
  rw [queue_addWaiting]
  by_cases h : l = m
  · rw [if_pos h, if_pos h.symm]
    unfold Queue.pending
    dsimp only
    omega
  · rw [if_neg h, if_neg (Ne.symm h)]
    rfl

theorem granted_useGrant (hg : 0 < (s.queue l).granted) (m : Lane) :
    ((s.useGrant l).queue m).granted + (if m = l then 1 else 0) = (s.queue m).granted := by
  rw [queue_useGrant]
  by_cases h : l = m
  · subst h
    rw [if_pos rfl, if_pos rfl]
    dsimp only
    omega
  · rw [if_neg h, if_neg (Ne.symm h)]
    rfl

theorem pending_useGrant (hg : 0 < (s.queue l).granted) (m : Lane) :
    ((s.useGrant l).queue m).pending + (if m = l then 1 else 0) = (s.queue m).pending := by
  have hm := granted_useGrant hg m
  have hw : ((s.useGrant l).queue m).waiting = (s.queue m).waiting := by
    rw [queue_useGrant]
    split <;> rfl
  unfold Queue.pending
  omega

theorem totalPending_addWaiting (s : Arbiter) (l : Lane) :
    (s.addWaiting l).totalPending = s.totalPending + 1 := by
  have h := totalPending_onQueue (s := s) (l := l) fun q => { q with waiting := q.waiting + 1 }
  change (s.addWaiting l).totalPending + _ = _ at h
  simp only [Queue.pending] at h
  omega

theorem totalGranted_addWaiting (s : Arbiter) (l : Lane) :
    (s.addWaiting l).totalGranted = s.totalGranted := by
  have h := totalGranted_onQueue (s := s) (l := l) fun q => { q with waiting := q.waiting + 1 }
  change (s.addWaiting l).totalGranted + _ = _ at h
  dsimp only at h
  omega

theorem totalGranted_useGrant (hg : 0 < (s.queue l).granted) :
    (s.useGrant l).totalGranted + 1 = s.totalGranted := by
  have h := totalGranted_onQueue (s := s) (l := l) fun q => { q with granted := q.granted - 1 }
  change (s.useGrant l).totalGranted + _ = _ at h
  dsimp only at h
  omega

theorem totalPending_useGrant (hg : 0 < (s.queue l).granted) :
    (s.useGrant l).totalPending + 1 = s.totalPending := by
  have h := totalPending_onQueue (s := s) (l := l) fun q => { q with granted := q.granted - 1 }
  change (s.useGrant l).totalPending + _ = _ at h
  simp only [Queue.pending] at h
  omega

theorem busy_eq_isSome_iff :
    (decide (0 < s.onBus) || decide (0 < s.reserved)) = s.heading.isSome ↔
      (s.heading = none ↔ s.onBus = 0 ∧ s.reserved = 0) := by
  cases s.heading <;> simp
  omega

theorem violation?_eq_none_iff : s.violation? = none ↔
    s.onBus + s.reserved ≤ s.capacity ∧ (s.heading = none ↔ s.onBus = 0 ∧ s.reserved = 0) ∧
      s.totalGranted = s.reserved ∧ (s.heading = none → s.totalWaiting = 0) := by
  have hwait : (s.heading.isNone && decide (0 < s.totalWaiting)) = false ↔
      (s.heading = none → s.totalWaiting = 0) := by
    cases s.heading <;> simp
  unfold violation?
  rw [← busy_eq_isSome_iff, ← hwait]
  split
  · next hfit => exact iff_of_false (fun h => by cases h) fun h => absurd h.1 (by omega)
  · next hfit =>
    split
    · next hbusy => exact iff_of_false (fun h => by cases h) fun h => bne_iff_ne.mp hbusy h.2.1
    · next hbusy =>
      split
      · next hgranted => exact iff_of_false (fun h => by cases h) fun h => hgranted h.2.2.1
      · next hgranted =>
        split
        · next hnobody =>
          refine iff_of_false (fun h => by cases h) fun h => ?_
          rw [h.2.2.2] at hnobody
          cases hnobody
        · next hnobody =>
          have hagree := Decidable.not_not.mp (mt bne_iff_ne.mpr hbusy)
          exact iff_of_true rfl ⟨by omega, hagree, Decidable.not_not.mp hgranted,
            eq_false_of_ne_true hnobody⟩

theorem Coherent.violation?_eq_none (h : s.Coherent) : s.violation? = none :=
  violation?_eq_none_iff.mpr ⟨h.fits, h.idle_iff, h.granted_eq,
    fun hn => totalWaiting_eq_zero_iff.mpr (h.nobody_waits hn)⟩

theorem Coherent.checked {α : Type} (h : s.Coherent) (a : α) : s.checked a = .done s a :=
  checked_eq_done_iff.mpr h.violation?_eq_none

theorem coherent_idle {c : Nat} (hc : 0 < c) : (idle c).Coherent where
  capacity_pos := hc
  fits := Nat.zero_le _
  idle_iff := ⟨fun _ => ⟨rfl, rfl⟩, fun _ => rfl⟩
  granted_eq := rfl
  ahead l hl := by
    rw [queue_idle] at hl
    exact absurd hl (Nat.lt_irrefl 0)
  nobody_waits _ l := by rw [queue_idle]; rfl

theorem Balanced.granted_le_reserved (h : s.Balanced) (l : Lane) :
    (s.queue l).granted ≤ s.reserved := h.granted_eq ▸ s.granted_le_totalGranted l

theorem Balanced.eq_idle (h : s.Balanced) (ho : s.onBus = 0)
    (hp : ∀ l, (s.queue l).pending = 0) : s = idle s.capacity := by
  have hqueues : s.queues = PerLane.fill Queue.empty := by
    apply PerLane.ext_get
    intro l
    have hl := hp l
    rw [PerLane.get_fill]
    change s.queue l = Queue.empty
    cases hq : s.queue l with
    | mk waiting granted =>
      rw [hq] at hl
      change waiting + granted = 0 at hl
      obtain rfl : waiting = 0 := by omega
      obtain rfl : granted = 0 := by omega
      rfl
  have hreserved : s.reserved = 0 := by
    apply Nat.eq_zero_of_not_pos
    intro hr
    rw [← h.granted_eq] at hr
    obtain ⟨l, hl⟩ := exists_granted hr
    have hpl := hp l
    unfold Queue.pending at hpl
    omega
  have hheading := h.idle_iff.mpr ⟨ho, hreserved⟩
  cases s
  simp only at ho hqueues hreserved hheading
  rw [ho, hqueues, hreserved, hheading]
  rfl

theorem Balanced.freeSlots_add (h : s.Balanced) :
    s.freeSlots + s.onBus + s.reserved = s.capacity := by
  have := h.fits
  unfold freeSlots
  omega

theorem Coherent.heading_ne_none (h : s.Coherent) (hw : s.mustWait l = true) :
    s.heading ≠ none := by
  intro hn
  obtain ⟨ho, hr⟩ := h.idle_iff.mp hn
  have hfree := h.freeSlots_add
  have hcap := h.capacity_pos
  have hprio : (s.queue (.priority l.direction)).pending = 0 := by
    have hg := h.granted_le_reserved (.priority l.direction)
    have hz := h.nobody_waits hn (.priority l.direction)
    unfold Queue.pending
    omega
  have hf := mustWait_eq_false_iff.mpr
    ⟨by omega, heldAgainst_eq_false_iff.mpr (.inl hn), fun _ => hprio⟩
  rw [hw] at hf
  cases hf

theorem Coherent.addWaiting (h : s.Coherent) (hw : s.mustWait l = true) :
    (s.addWaiting l).Coherent where
  capacity_pos := h.capacity_pos
  fits := h.fits
  idle_iff := h.idle_iff
  granted_eq := (s.totalGranted_addWaiting l).trans h.granted_eq
  ahead m hm := h.ahead m (s.granted_addWaiting l m ▸ hm)
  nobody_waits hn := absurd hn (h.heading_ne_none hw)

theorem Coherent.enqueue_eq (h : s.Coherent) (hw : s.mustWait l = true)
    (hroom : (s.queue l).waiting + 1 < Word.size) :
    s.enqueue l = .done (s.addWaiting l) () := by
  rw [enqueue, if_pos hroom]
  exact (h.addWaiting hw).checked ()

/-- A slot is free and the bus is not held against the direction `d`. -/
structure Open (s : Arbiter) (d : Direction) : Prop where
  free : s.onBus + s.reserved < s.capacity
  notAgainst : s.heldAgainst d = false

theorem open_of_mustWait_eq_false (hw : s.mustWait l = false) : s.Open l.direction := by
  obtain ⟨hfree, hdir, _⟩ := mustWait_eq_false_iff.mp hw
  refine ⟨?_, hdir⟩
  unfold freeSlots at hfree
  omega

/-- The grants that stay are not turned round by a boarding in direction `d`. -/
theorem Open.addRider_coherent (ho : s.Open d) (hg : s.totalGranted = s.reserved)
    (ha : ∀ l, 0 < (s.queue l).granted → l.direction = d) : (s.addRider d).Coherent where
  capacity_pos := Nat.lt_of_le_of_lt (Nat.zero_le _) ho.free
  fits := by
    have := ho.free
    change s.onBus + 1 + s.reserved ≤ s.capacity
    omega
  idle_iff := by simp [Arbiter.addRider]
  granted_eq := hg
  ahead l hl := congrArg some (ha l hl).symm
  nobody_waits hn := by cases hn

theorem Open.board_eq (ho : s.Open d) (hc : (s.addRider d).Coherent) :
    s.board d = .done (s.addRider d) () := by
  have hfree := ho.free
  rw [board, if_neg (by omega), ho.notAgainst, if_neg Bool.false_ne_true]
  exact hc.checked ()

theorem Balanced.direction_of_granted (h : s.Balanced) (hn : s.heldAgainst d = false)
    (hm : 0 < (s.queue m).granted) : m.direction = d := by
  have ha := h.ahead m hm
  rcases heldAgainst_eq_false_iff.mp hn with hd | hd <;> rw [hd] at ha
  · cases ha
  · exact (Option.some.inj ha).symm

theorem Coherent.addRider (h : s.Coherent) (hw : s.mustWait l = false) :
    (s.addRider l.direction).Coherent :=
  have ho := open_of_mustWait_eq_false hw
  ho.addRider_coherent h.granted_eq fun _ hm => h.direction_of_granted ho.notAgainst hm

theorem Coherent.board_eq (h : s.Coherent) (hw : s.mustWait l = false) :
    s.board l.direction = .done (s.addRider l.direction) () :=
  (open_of_mustWait_eq_false hw).board_eq (h.addRider hw)

theorem Coherent.reserved_pos (h : s.Coherent) (hg : 0 < (s.queue l).granted) : 0 < s.reserved :=
  Nat.lt_of_lt_of_le hg (h.granted_le_reserved l)

theorem Coherent.resume_eq (h : s.Coherent) (hg : 0 < (s.queue l).granted) :
    s.resume l = .done (s.useGrant l) () := by
  have hr := h.reserved_pos hg
  rw [resume, if_neg (by omega), if_neg (by omega)]
  rfl

theorem Coherent.open_useGrant (h : s.Coherent) (hg : 0 < (s.queue l).granted) :
    (s.useGrant l).Open l.direction := by
  have hr := h.reserved_pos hg
  have hfit := h.fits
  refine ⟨?_, heldAgainst_eq_false_iff.mpr (.inr (h.ahead l hg))⟩
  change s.onBus + (s.reserved - 1) < s.capacity
  omega

theorem Coherent.comeBack (h : s.Coherent) (hg : 0 < (s.queue l).granted) :
    ((s.useGrant l).addRider l.direction).Coherent := by
  apply (h.open_useGrant hg).addRider_coherent
  · have ht := totalGranted_useGrant hg
    have hgr := h.granted_eq
    change (s.useGrant l).totalGranted = s.reserved - 1
    omega
  · intro m hm
    have hle := s.granted_useGrant_le l m
    have ha := h.ahead m (by omega)
    rw [h.ahead l hg] at ha
    exact (Option.some.inj ha).symm

theorem Coherent.board_useGrant_eq (h : s.Coherent) (hg : 0 < (s.queue l).granted) :
    (s.useGrant l).board l.direction = .done ((s.useGrant l).addRider l.direction) () :=
  (h.open_useGrant hg).board_eq (h.comeBack hg)

end HalfDuplex.Arbiter
