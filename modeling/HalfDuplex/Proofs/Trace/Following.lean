import HalfDuplex.Proofs.Bus.Calls

/-!
# Replays that follow an arbiter

A replay follows an arbiter if it counts the same riders, the same waiting tasks
and the same grants. What the arbiter allows breaks no rule of the replay, and
the replay goes on following: through an arrival, a boarding and a departure,
and through the grants of a departure one lane at a time.
-/

namespace HalfDuplex.Trace.Replay

variable {cap n task : Nat} {r r' r'' : Replay} {s : Arbiter} {l m : Lane} {d : Direction}
  {e : Event} {es fs : List Event}

/-- The events lead from `r` to `r'` without a breach. -/
def Leads (cap : Nat) (r : Replay) (es : List Event) (r' : Replay) : Prop :=
  ∀ index, run cap index r es = .ok r'

theorem Leads.nil : Leads cap r [] r := fun _ => rfl

theorem Leads.append (h : Leads cap r es r') (h' : Leads cap r' fs r'') :
    Leads cap r (es ++ fs) r'' := by
  intro index
  rw [run_append, h index]
  exact h' _

theorem Leads.single (ht : r.take cap e = .ok r') (hfit : r'.onBus + r'.reserved ≤ cap) :
    Leads cap r [e] r' := by
  intro index
  have hs : r.step cap e = .ok r' := by
    rw [step, ht]
    exact if_neg (by omega)
  rw [run_cons, hs]
  rfl

/-- The replay counts what the arbiter counts. -/
structure Follows (r : Replay) (s : Arbiter) : Prop where
  onBus_eq : r.onBus = s.onBus
  queue_eq : ∀ l, (⟨r.waiting.get l, r.granted.get l⟩ : Queue) = s.queue l

theorem Follows.waiting_eq (h : r.Follows s) (l : Lane) :
    r.waiting.get l = (s.queue l).waiting := congrArg Queue.waiting (h.queue_eq l)

theorem Follows.granted_eq (h : r.Follows s) (l : Lane) :
    r.granted.get l = (s.queue l).granted := congrArg Queue.granted (h.queue_eq l)

theorem Follows.waiting_sum (h : r.Follows s) : r.waiting.sum = s.totalWaiting := by
  have hq : r.waiting = s.queues.map Queue.waiting := by
    apply PerLane.ext_get
    intro l
    rw [PerLane.get_map]
    exact h.waiting_eq l
  rw [hq]
  rfl

theorem Follows.reserved_eq (h : r.Follows s) : r.reserved = s.totalGranted := by
  have hq : r.granted = s.queues.map Queue.granted := by
    apply PerLane.ext_get
    intro l
    rw [PerLane.get_map]
    exact h.granted_eq l
  unfold reserved
  rw [hq]
  rfl

theorem follows_start (c : Nat) : start.Follows (Arbiter.idle c) where
  onBus_eq := rfl
  queue_eq l := by
    rw [Arbiter.queue_idle]
    change (⟨(PerLane.fill 0).get l, (PerLane.fill 0).get l⟩ : Queue) = Queue.empty
    rw [PerLane.get_fill]
    rfl

theorem Follows.fits (h : r.Follows s) (hb : s.Balanced) : r.onBus + r.reserved ≤ s.capacity := by
  have hfits := hb.fits
  rw [h.onBus_eq, h.reserved_eq, hb.granted_eq]
  exact hfits

theorem opposes_eq_false (h : ∀ x ∈ r.riding, x.2.direction = d) : r.opposes d = false := by
  unfold opposes heading
  cases hr : r.riding with
  | nil => rfl
  | cons x rest =>
    have hx := h x (by rw [hr]; exact List.mem_cons_self)
    rw [List.head?_cons, Option.map_some, hx]
    cases d <;> rfl

theorem Follows.queue (h : r.Follows s) (l : Lane) : (r.queue l).Follows (s.addWaiting l) where
  onBus_eq := h.onBus_eq
  queue_eq m := by
    have hm := h.queue_eq m
    rw [Arbiter.queue_addWaiting, ← hm]
    change (⟨(r.waiting.modify l (· + 1)).get m, r.granted.get m⟩ : Queue) = _
    rw [PerLane.get_modify]
    split <;> rfl

theorem Follows.leads_queued (h : r.Follows s) (hb : (s.addWaiting l).Balanced) :
    Leads s.capacity r [.queued task l] (r.queue l) :=
  .single rfl ((h.queue l).fits hb)

def aboard (r : Replay) (task : Nat) (l : Lane) : Replay :=
  { r with
    riding := (task, l) :: r.riding
    boarded := r.boarded + 1
    peakOnBus := max r.peakOnBus (r.onBus + 1) }

def spend (r : Replay) (l : Lane) : Replay := { r with granted := r.granted.modify l (· - 1) }

theorem Follows.aboard (h : r.Follows s) (task : Nat) (l : Lane) :
    (r.aboard task l).Follows (s.addRider l.direction) where
  onBus_eq := by
    change r.onBus + 1 = s.onBus + 1
    rw [h.onBus_eq]
  queue_eq := h.queue_eq

theorem Follows.spend (h : r.Follows s) (l : Lane) : (r.spend l).Follows (s.useGrant l) where
  onBus_eq := h.onBus_eq
  queue_eq m := by
    have hm := h.queue_eq m
    rw [Arbiter.queue_useGrant, ← hm]
    change (⟨r.waiting.get m, (r.granted.modify l (· - 1)).get m⟩ : Queue) = _
    rw [PerLane.get_modify]
    split <;> rfl

theorem without_eq_self (hid : ∀ x ∈ r.riding, x.1 ≠ task) : r.without task = r.riding := by
  unfold without
  rw [List.filter_eq_self]
  intro x hx
  exact bne_iff_ne.mpr (hid x hx)

theorem ride_eq (ho : ∀ x ∈ r.riding, x.2.direction = l.direction)
    (hid : ∀ x ∈ r.riding, x.1 ≠ task) (hfit : r.onBus + 1 ≤ cap) :
    r.ride cap task l = .ok (r.aboard task l) := by
  unfold ride
  rw [opposes_eq_false ho, if_neg Bool.false_ne_true]
  dsimp only
  rw [without_eq_self hid, if_neg]
  · rfl
  · change ¬ cap < r.onBus + 1
    omega

theorem Follows.leads_boarded (h : r.Follows s) (hw : s.mustWait l = false)
    (ho : ∀ x ∈ r.riding, x.2.direction = l.direction) (hid : ∀ x ∈ r.riding, x.1 ≠ task)
    (hb : (s.addRider l.direction).Balanced) :
    Leads s.capacity r [.boarded task l false] (r.aboard task l) := by
  have hfit := (h.aboard task l).fits hb
  have hpending := (Arbiter.mustWait_eq_false_iff.mp hw).2.2
  have hjumps : r.jumpsPending l = false := by
    unfold jumpsPending
    rw [h.waiting_eq, h.granted_eq]
    cases hl : l.rank with
    | priority => rfl
    | normal =>
      have hp := hpending hl
      unfold Queue.pending at hp
      rw [hp]
      rfl
  have hboard : r.onBus + 1 ≤ s.capacity := Nat.le_trans (Nat.le_add_right _ _) hfit
  refine .single ?_ hfit
  change r.present task l false >>= (fun r => r.ride s.capacity task l) = _
  rw [present, if_neg Bool.false_ne_true, hjumps, if_neg Bool.false_ne_true]
  exact ride_eq ho hid hboard

theorem Follows.leads_boarded_granted (h : r.Follows s) (hg : 0 < (s.queue l).granted)
    (ho : ∀ x ∈ r.riding, x.2.direction = l.direction) (hid : ∀ x ∈ r.riding, x.1 ≠ task)
    (hb : ((s.useGrant l).addRider l.direction).Balanced) :
    Leads s.capacity r [.boarded task l true] ((r.spend l).aboard task l) := by
  have hfit := ((h.spend l).aboard task l).fits hb
  have hboard : (r.spend l).onBus + 1 ≤ s.capacity := Nat.le_trans (Nat.le_add_right _ _) hfit
  have hgrant : r.granted.get l ≠ 0 := by
    rw [h.granted_eq]
    omega
  refine .single ?_ hfit
  change r.present task l true >>= (fun r => r.ride s.capacity task l) = _
  rw [present, if_pos rfl, if_neg hgrant]
  exact ride_eq ho hid hboard

theorem rides_of_without (hone : (r.without task).length + 1 = r.riding.length) :
    r.rides task = true := by
  cases hr : r.rides task with
  | true => rfl
  | false =>
    have hid : ∀ x ∈ r.riding, x.1 ≠ task := by
      intro x hx he
      exact List.any_eq_false.mp hr x hx (beq_iff_eq.mpr he)
    rw [without_eq_self hid] at hone
    omega

def gone (r : Replay) (task : Nat) : Replay :=
  { r with riding := r.without task, left := r.left + 1 }

theorem Follows.gone (h : r.Follows s) (hone : (r.without task).length + 1 = r.riding.length) :
    (r.gone task).Follows s.vacate where
  onBus_eq := by
    have hon := h.onBus_eq
    change (r.without task).length = s.onBus - 1
    unfold onBus at hon
    omega
  queue_eq := h.queue_eq

theorem Follows.leads_left (h : r.Follows s)
    (hone : (r.without task).length + 1 = r.riding.length) (hb : s.vacate.Balanced) :
    Leads s.capacity r [.left task l] (r.gone task) := by
  refine .single ?_ ((h.gone hone).fits hb)
  change r.leave task = _
  rw [leave, rides_of_without hone]
  rfl

def rouse (r : Replay) (l : Lane) (n : Nat) : Replay :=
  { r with waiting := r.waiting.modify l (· - n), granted := r.granted.modify l (· + n) }

theorem rouse_zero (r : Replay) (l : Lane) : r.rouse l 0 = r := by
  have hw : r.waiting.modify l (· - 0) = r.waiting := PerLane.modify_eq_self rfl
  have hg : r.granted.modify l (· + 0) = r.granted := PerLane.modify_eq_self rfl
  unfold rouse
  rw [hw, hg]

theorem Follows.rouse (h : r.Follows s) (l : Lane) (n : Nat) :
    (r.rouse l n).Follows (s.grant l n) where
  onBus_eq := h.onBus_eq
  queue_eq m := by
    have hm := h.queue_eq m
    rw [Arbiter.queue_grant, ← hm]
    change (⟨(r.waiting.modify l (· - n)).get m, (r.granted.modify l (· + n)).get m⟩ : Queue) = _
    rw [PerLane.get_modify, PerLane.get_modify]
    split <;> rfl

theorem jumpsWaiting_rouse (h : r.Follows s)
    (hj : l.rank = .normal → (s.queue (.priority l.direction)).waiting = 0) :
    (r.rouse l n).jumpsWaiting l = false := by
  unfold jumpsWaiting
  cases hl : l.rank with
  | priority => rfl
  | normal =>
    have hne : l ≠ .priority l.direction := by
      intro he
      rw [he] at hl
      cases hl
    rw [(h.rouse l n).waiting_eq, Arbiter.queue_grant, if_neg hne, hj hl]
    rfl

theorem wake_eq (hle : n ≤ r.waiting.get l) (hj : (r.rouse l n).jumpsWaiting l = false)
    (ho : ∀ x ∈ r.riding, x.2.direction = l.direction) : r.wake l n = .ok (r.rouse l n) := by
  unfold wake
  rw [if_neg (by omega)]
  change (if (r.rouse l n).jumpsWaiting l = true then _ else
    if (r.rouse l n).opposes l.direction = true then _ else Except.ok (r.rouse l n)) = _
  rw [hj, if_neg Bool.false_ne_true, opposes_eq_false (r := r.rouse l n) ho,
    if_neg Bool.false_ne_true]

/-- Waking a lane is in order once no priority task of its direction waits. -/
theorem Follows.leads_woken (h : r.Follows s) (hle : n ≤ (s.queue l).waiting)
    (hj : 0 < n → l.rank = .normal → (s.queue (.priority l.direction)).waiting = 0)
    (ho : ∀ x ∈ r.riding, x.2.direction = l.direction)
    (hfit : s.onBus + s.totalGranted + n ≤ s.capacity) :
    Leads s.capacity r (Bus.wakings ([(l, n)].filter fun x => 0 < x.2)) (r.rouse l n) := by
  by_cases hn : 0 < n
  · have hcount : (r.rouse l n).onBus + (r.rouse l n).reserved ≤ s.capacity := by
      rw [(h.rouse l n).onBus_eq, (h.rouse l n).reserved_eq, Arbiter.totalGranted_grant]
      change s.onBus + (s.totalGranted + n) ≤ s.capacity
      omega
    have hwait : n ≤ r.waiting.get l := by
      rw [h.waiting_eq]
      exact hle
    rw [List.filter_cons, if_pos (decide_eq_true hn)]
    exact .single (wake_eq hwait (jumpsWaiting_rouse h (hj hn)) ho) hcount
  · obtain rfl : n = 0 := by omega
    rw [rouse_zero]
    exact .nil

theorem Follows.leads_handOver (h : r.Follows s) (hb : s.Balanced)
    (ho : ∀ x ∈ r.riding, s.handOver.2.heading = some x.2.direction) :
    ∃ waiting granted,
      Leads s.capacity r (Bus.wakings s.handOver.1.inOrder)
        { r with waiting := waiting, granted := granted } ∧
      { r with waiting := waiting, granted := granted : Replay }.Follows s.handOver.2 := by
  unfold Arbiter.handOver at ho ⊢
  cases ht : s.turn with
  | none => exact ⟨r.waiting, r.granted, .nil, h⟩
  | some d =>
    rw [ht] at ho
    have hd : ∀ x ∈ r.riding, x.2.direction = d := fun x hx => (Option.some.inj (ho x hx)).symm
    have hle := s.shares_le_freeSlots d
    have hfree := hb.freeSlots_add
    have hsum := hb.granted_eq
    have hleft : s.normalShare d ≤
        ((s.grant (.priority d) (s.priorityShare d)).queue (.normal d)).waiting := by
      rw [Arbiter.queue_normal_grant_priority]
      exact s.normalShare_le d
    have hroom : s.onBus + (s.grant (.priority d) (s.priorityShare d)).totalGranted +
        s.normalShare d ≤ s.capacity := by
      rw [Arbiter.totalGranted_grant]
      omega
    have hp := h.leads_woken (l := .priority d) (s.priorityShare_le d)
      (fun _ hl => by cases hl) hd (by omega)
    have hn := (h.rouse (.priority d) (s.priorityShare d)).leads_woken (l := .normal d) hleft
      (fun hpos _ => Arbiter.waiting_priority_of_normalShare_pos hpos) hd hroom
    have hafter := (h.rouse (.priority d) (s.priorityShare d)).rouse (.normal d) (s.normalShare d)
    dsimp only
    rw [Grants.inOrder_toward, ← List.singleton_append, List.filter_append, Bus.wakings,
      List.map_append]
    exact ⟨_, _, hp.append hn, hafter.onBus_eq, hafter.queue_eq⟩

end HalfDuplex.Trace.Replay
