import HalfDuplex.Proofs.Arbiter.HandOver

/-!
# Callers that break the protocol

Calls come in any order and with any lane or direction, and a call that faults
leaves what it had changed by then. The bus is never over-committed all the
same, a boarding or a departure that goes through leaves counters that agree,
and only a task that enqueues can find them in contradiction.
-/

namespace HalfDuplex.Arbiter

variable {s : Arbiter} {l : Lane} {d : Direction} {n c : Nat}

/-- The message of the fault begins with `text`. -/
def Fault.Says (f : Fault) (text : String) : Prop := text.toList <+: f.message.toList

theorem says_broken_iff {f : Fault} :
    f.Says "bus state invariant broken" ↔ ∃ v t, f = .broken v t := by
  constructor
  · unfold Fault.Says Fault.message
    intro h
    cases f with
    | broken v t => exact ⟨v, t, rfl⟩
    | _ => simp [toString] at h
  · rintro ⟨v, t, rfl⟩
    unfold Fault.Says Fault.message
    simp [toString]

theorem eq_of_says_nothing_reserved {f : Fault} (h : f.Says "resume with nothing reserved") :
    f = .resumeWithNothingReserved := by
  unfold Fault.Says Fault.message at h
  cases f with
  | resumeWithNothingReserved => rfl
  | _ => simp [toString] at h

/-- A fault that neither finds the counters in contradiction nor a grant without
a reserved slot. -/
def Fault.IsRefusal (f : Fault) : Prop :=
  ¬ f.Says "bus state invariant broken" ∧ ¬ f.Says "resume with nothing reserved"

theorem isRefusal_of_ne {f : Fault} (hb : ∀ v t, f ≠ .broken v t)
    (hr : f ≠ .resumeWithNothingReserved) : f.IsRefusal := by
  constructor
  · intro h
    obtain ⟨v, t, rfl⟩ := says_broken_iff.mp h
    exact hb v t rfl
  · intro h
    exact hr (eq_of_says_nothing_reserved h)

/-- Riders and grants fit the bus, every reserved slot has its grant, and riders
hold the bus. -/
structure Guarded (s : Arbiter) : Prop where
  capacity_pos : 0 < s.capacity
  fits : s.onBus + s.reserved ≤ s.capacity
  granted_eq : s.totalGranted = s.reserved
  held : 0 < s.onBus → s.heading ≠ none

theorem guarded_idle (hc : 0 < c) : (idle c).Guarded where
  capacity_pos := hc
  fits := Nat.zero_le _
  granted_eq := rfl
  held ho := absurd ho (Nat.lt_irrefl 0)

theorem Guarded.reserved_pos (h : s.Guarded) (hg : 0 < (s.queue l).granted) : 0 < s.reserved := by
  rw [← h.granted_eq]
  exact Nat.lt_of_lt_of_le hg (s.granted_le_totalGranted l)

theorem Guarded.addWaiting (h : s.Guarded) (l : Lane) : (s.addWaiting l).Guarded where
  capacity_pos := h.capacity_pos
  fits := h.fits
  granted_eq := (s.totalGranted_addWaiting l).trans h.granted_eq
  held := h.held

theorem Guarded.useGrant (h : s.Guarded) (hg : 0 < (s.queue l).granted) :
    (s.useGrant l).Guarded where
  capacity_pos := h.capacity_pos
  fits := by
    have hfits := h.fits
    change s.onBus + (s.reserved - 1) ≤ s.capacity
    omega
  granted_eq := by
    have htotal := totalGranted_useGrant hg
    have hgranted := h.granted_eq
    change (s.useGrant l).totalGranted = s.reserved - 1
    omega
  held := h.held

theorem Guarded.addRider (h : s.Guarded) (ho : s.Open d) : (s.addRider d).Guarded where
  capacity_pos := h.capacity_pos
  fits := by
    have hfree := ho.free
    change s.onBus + 1 + s.reserved ≤ s.capacity
    omega
  granted_eq := h.granted_eq
  held _ hn := by cases hn

theorem Guarded.grant (h : s.Guarded) (l : Lane) (hn : n ≤ s.freeSlots) :
    (s.grant l n).Guarded where
  capacity_pos := h.capacity_pos
  fits := by
    have hfits := h.fits
    unfold freeSlots at hn
    change s.onBus + (s.reserved + n) ≤ s.capacity
    omega
  granted_eq := by
    rw [totalGranted_grant, h.granted_eq]
    rfl
  held := h.held

theorem Guarded.idle_iff_vacate (h : s.Guarded) (ho : 0 < s.onBus) :
    s.vacate.heading = none ↔ s.vacate.onBus = 0 ∧ s.vacate.reserved = 0 :=
  heading_vacate_eq_none_iff (h.held ho)

theorem Guarded.fits_vacate (h : s.Guarded) :
    s.vacate.onBus + s.vacate.reserved ≤ s.vacate.capacity := by
  have hfits := h.fits
  change s.onBus - 1 + s.reserved ≤ s.capacity
  omega

theorem Guarded.freeSlots_vacate_pos (h : s.Guarded) (ho : 0 < s.onBus) :
    0 < s.vacate.freeSlots := by
  have hfits := h.fits
  change 0 < s.capacity - (s.onBus - 1) - s.reserved
  omega

theorem Guarded.idle_iff_departed (h : s.Guarded) (ho : 0 < s.onBus) :
    s.vacate.handOver.2.heading = none ↔
      s.vacate.handOver.2.onBus = 0 ∧ s.vacate.handOver.2.reserved = 0 :=
  heading_handOver_eq_none_iff (h.idle_iff_vacate ho) (h.freeSlots_vacate_pos ho)

theorem Guarded.departed (h : s.Guarded) (ho : 0 < s.onBus) :
    s.vacate.handOver.2.Guarded where
  capacity_pos := by
    rw [capacity_handOver]
    exact h.capacity_pos
  fits := fits_handOver h.fits_vacate
  granted_eq := totalGranted_handOver h.granted_eq
  held hpos hn := by
    have hidle := (h.idle_iff_departed ho).mp hn
    omega

theorem checked_of_violation {α : Type} (hv : s.violation? = none) (a : α) :
    s.checked a = .done s a := checked_eq_done_iff.mpr hv

theorem enqueue_eq_checked (hroom : (s.queue l).waiting + 1 < Word.size) :
    s.enqueue l = (s.addWaiting l).checked () := by
  rw [enqueue, if_pos hroom]
  rfl

theorem Guarded.violation?_addWaiting (h : s.Guarded) (l : Lane) :
    (s.addWaiting l).violation? = none ↔
      ¬ (s.heading = none ∨ s.onBus = 0 ∧ s.reserved = 0) := by
  have htotal : (s.addWaiting l).totalWaiting ≠ 0 := by
    intro h0
    have hl := totalWaiting_eq_zero_iff.mp h0 l
    rw [queue_addWaiting, if_pos rfl] at hl
    cases hl
  have hfits := (h.addWaiting l).fits
  have hgranted := (h.addWaiting l).granted_eq
  rw [violation?_eq_none_iff]
  change _ ∧ (s.heading = none ↔ s.onBus = 0 ∧ s.reserved = 0) ∧ _ ∧ (s.heading = none → _) ↔ _
  constructor
  · rintro ⟨-, hidle, -, hnobody⟩ hor
    have hn : s.heading = none := hor.elim id hidle.mpr
    exact htotal (hnobody hn)
  · intro hnor
    obtain ⟨hheld, hbusy⟩ := not_or.mp hnor
    exact ⟨hfits, iff_of_false hheld hbusy, hgranted, fun hn => absurd hn hheld⟩

theorem Guarded.enqueue_cases (h : s.Guarded) (hroom : (s.queue l).waiting + 1 < Word.size) :
    (¬ (s.heading = none ∨ s.onBus = 0 ∧ s.reserved = 0) ∧
        s.enqueue l = .done (s.addWaiting l) ()) ∨
      ((s.heading = none ∨ s.onBus = 0 ∧ s.reserved = 0) ∧
        ∃ v, s.enqueue l = .fault (s.addWaiting l) (.broken v (s.addWaiting l))) := by
  rw [enqueue_eq_checked hroom, checked]
  cases hv : (s.addWaiting l).violation? with
  | none => exact .inl ⟨(h.violation?_addWaiting l).mp hv, rfl⟩
  | some v =>
    refine .inr ⟨Classical.byContradiction fun hn => ?_, v, rfl⟩
    rw [(h.violation?_addWaiting l).mpr hn] at hv
    cases hv

theorem Guarded.resume_cases (h : s.Guarded) (l : Lane) :
    (0 < (s.queue l).granted ∧ s.resume l = .done (s.useGrant l) ()) ∨
      ((s.queue l).granted = 0 ∧ s.resume l = .fault s (.resumeWithoutGrant l)) := by
  unfold resume
  split
  · next h0 => exact .inr ⟨h0, rfl⟩
  · next h0 =>
    have hg := Nat.pos_of_ne_zero h0
    have hr := h.reserved_pos hg
    rw [if_neg (by omega)]
    exact .inl ⟨hg, rfl⟩

theorem Guarded.violation?_addRider (h : s.Guarded) (ho : s.Open d) :
    (s.addRider d).violation? = none := by
  have ha := h.addRider ho
  refine violation?_eq_none_iff.mpr ⟨ha.fits, ?_, ha.granted_eq, fun hn => by cases hn⟩
  refine iff_of_false (fun hn => by cases hn) ?_
  rintro ⟨h0, -⟩
  cases h0

theorem Guarded.board_cases (h : s.Guarded) (d : Direction) :
    (s.Open d ∧ s.board d = .done (s.addRider d) ()) ∨
      (¬ s.Open d ∧ ∃ f : Fault, f.IsRefusal ∧ s.board d = .fault s f) := by
  unfold board
  split
  · next hfull =>
    exact .inr ⟨fun ho => by have := ho.free; omega, _,
      isRefusal_of_ne (fun v t hf => by cases hf) (fun hf => by cases hf), rfl⟩
  · next hfree =>
    split
    · next hagainst =>
      refine .inr ⟨fun ho => ?_, _,
        isRefusal_of_ne (fun v t hf => by cases hf) (fun hf => by cases hf), rfl⟩
      rw [ho.notAgainst] at hagainst
      cases hagainst
    · next hagainst =>
      have ho : s.Open d := ⟨by omega, eq_false_of_ne_true hagainst⟩
      exact .inl ⟨ho, checked_of_violation (h.violation?_addRider ho) ()⟩

theorem Guarded.violation?_departed (h : s.Guarded) (ho : 0 < s.onBus) :
    s.vacate.handOver.2.violation? = none :=
  have hd := h.departed ho
  violation?_eq_none_iff.mpr ⟨hd.fits, h.idle_iff_departed ho, hd.granted_eq,
    fun hn => totalWaiting_eq_zero_iff.mpr (nobody_waits_handOver hn)⟩

theorem Guarded.leave_cases (h : s.Guarded) :
    (0 < s.onBus ∧ s.leave = .done s.vacate.handOver.2 s.vacate.handOver.1) ∨
      (s.onBus = 0 ∧ s.leave = .fault s .leaveEmptyBus) := by
  by_cases h0 : s.onBus = 0
  · rw [leave, if_pos h0]
    exact .inr ⟨h0, rfl⟩
  · have ho := Nat.pos_of_ne_zero h0
    rw [leave_eq_checked ho fun _ => h.freeSlots_vacate_pos ho]
    exact .inl ⟨ho, checked_of_violation (h.violation?_departed ho) _⟩

inductive Call where
  | enqueue (l : Lane)
  | resume (l : Lane)
  | board (d : Direction)
  | leave
  | wake (l : Lane)
deriving DecidableEq

namespace Call

def isEnqueue : Call → Bool
  | enqueue _ => true
  | _ => false

def isTransfer : Call → Bool
  | board _ => true
  | leave => true
  | _ => false

end Call

def enqueues (ks : List Call) : Nat := ks.countP Call.isEnqueue

def call (s : Arbiter) : Call → Result Unit
  | .enqueue l => s.enqueue l
  | .resume l => s.resume l
  | .board d => s.board d
  | .leave => s.leave.map fun _ => ()
  | .wake l => .done (s.wake l).2 ()

def afterCalls (s : Arbiter) (ks : List Call) : Arbiter := ks.foldl (fun s k => (s.call k).state) s

/-- What a call takes for granted of the arbiter. -/
def Accepts (s : Arbiter) : Call → Prop
  | .enqueue _ => ¬ (s.heading = none ∨ s.onBus = 0 ∧ s.reserved = 0)
  | .resume l => 0 < (s.queue l).granted
  | .board d => s.Open d
  | .leave => 0 < s.onBus
  | .wake _ => True

theorem totalPending_grant (s : Arbiter) (l : Lane) (hn : n ≤ (s.queue l).waiting) :
    (s.grant l n).totalPending = s.totalPending := by
  have h := totalPending_onQueue (s := s) (l := l) fun q => ⟨q.waiting - n, q.granted + n⟩
  change (s.grant l n).totalPending + _ = _ at h
  simp only [Queue.pending] at h
  omega

/-- A call that enqueues nobody goes through and adds nobody, or is refused and
changes nothing. -/
theorem Guarded.call_cases (h : s.Guarded) {k : Call} (hk : k.isEnqueue = false) :
    (s.Accepts k ∧ ∃ t, s.call k = .done t () ∧ t.Guarded ∧ t.capacity = s.capacity ∧
        t.totalPending ≤ s.totalPending ∧ (k.isTransfer = true → t.violation? = none)) ∨
      (¬ s.Accepts k ∧ ∃ f : Fault, f.IsRefusal ∧ s.call k = .fault s f) := by
  cases k with
  | enqueue l => cases hk
  | resume l =>
    obtain ⟨hg, he⟩ | ⟨h0, he⟩ := h.resume_cases l
    · have hpend := totalPending_useGrant hg
      exact .inl ⟨hg, _, he, h.useGrant hg, rfl, by omega, fun ht => by cases ht⟩
    · refine .inr ⟨fun hg => absurd h0 (Nat.ne_of_gt hg), _, ?_, he⟩
      exact isRefusal_of_ne (fun v t hf => by cases hf) fun hf => by cases hf
  | board d =>
    obtain ⟨ho, he⟩ | ⟨ho, f, hf, he⟩ := h.board_cases d
    · exact .inl ⟨ho, _, he, h.addRider ho, rfl, Nat.le_refl _, fun _ => h.violation?_addRider ho⟩
    · exact .inr ⟨ho, f, hf, he⟩
  | leave =>
    obtain ⟨ho, he⟩ | ⟨h0, he⟩ := h.leave_cases
    · have hpend := Nat.le_of_eq (totalPending_handOver s.vacate)
      exact .inl ⟨ho, _, by rw [Arbiter.call, he]; rfl, h.departed ho, capacity_handOver _, hpend,
        fun _ => h.violation?_departed ho⟩
    · refine .inr ⟨fun ho => absurd h0 (Nat.ne_of_gt ho), .leaveEmptyBus, ?_, ?_⟩
      · exact isRefusal_of_ne (fun v t hf => by cases hf) fun hf => by cases hf
      · rw [Arbiter.call, he]
        rfl
  | wake l =>
    have hfree : s.grantable l ≤ s.freeSlots := Nat.min_le_left ..
    have hwait : s.grantable l ≤ (s.queue l).waiting := Nat.min_le_right ..
    exact .inl ⟨trivial, _, rfl, h.grant l hfree, rfl, Nat.le_of_eq (s.totalPending_grant l hwait),
      fun ht => by cases ht⟩

theorem Guarded.state_enqueue (h : s.Guarded) (hroom : (s.queue l).waiting + 1 < Word.size) :
    (s.enqueue l).state = s.addWaiting l := by
  obtain ⟨-, he⟩ | ⟨-, v, he⟩ := h.enqueue_cases hroom <;> rw [he] <;> rfl

theorem Guarded.call (h : s.Guarded) (k : Call)
    (hroom : k.isEnqueue = true → s.totalPending + 1 < Word.size) :
    (s.call k).state.Guarded ∧ (s.call k).state.capacity = s.capacity ∧
      (s.call k).state.totalPending ≤ s.totalPending + if k.isEnqueue then 1 else 0 := by
  cases hk : k.isEnqueue with
  | false =>
    obtain ⟨-, t, he, ht, hcap, hp, -⟩ | ⟨-, f, -, he⟩ := h.call_cases hk <;> rw [he]
    · exact ⟨ht, hcap, hp⟩
    · exact ⟨h, rfl, Nat.le_refl _⟩
  | true =>
    cases k with
    | enqueue l =>
      have hpend := s.pending_le_totalPending l
      have hlt := hroom rfl
      unfold Queue.pending at hpend
      rw [Arbiter.call, h.state_enqueue (by omega)]
      exact ⟨h.addWaiting l, rfl, Nat.le_of_eq (s.totalPending_addWaiting l)⟩
    | _ => cases hk

theorem enqueues_cons (k : Call) (ks : List Call) :
    enqueues (k :: ks) = enqueues ks + if k.isEnqueue then 1 else 0 := List.countP_cons ..

theorem Guarded.afterCalls (h : s.Guarded) (ks : List Call)
    (hn : s.totalPending + enqueues ks < Word.size) :
    (s.afterCalls ks).Guarded ∧ (s.afterCalls ks).capacity = s.capacity ∧
      (s.afterCalls ks).totalPending ≤ s.totalPending + enqueues ks := by
  induction ks generalizing s with
  | nil => exact ⟨h, rfl, Nat.le_refl _⟩
  | cons k ks ih =>
    rw [enqueues_cons] at hn ⊢
    have hroom : k.isEnqueue = true → s.totalPending + 1 < Word.size := by
      intro hk
      rw [if_pos hk] at hn
      omega
    obtain ⟨h', hcap', hp'⟩ := h.call k hroom
    obtain ⟨h'', hcap'', hp''⟩ := ih h' (by omega)
    refine ⟨h'', hcap''.trans hcap', ?_⟩
    change ((s.call k).state.afterCalls ks).totalPending ≤ _
    omega

/-- After any row of calls with fewer enqueues than a word counts, riders and
grants fit the bus, the reserved slots are the grants, and riders hold the bus.
An enqueue counts its task in any case, and finds the counters in contradiction
if nobody holds the bus or nobody rides and no slot is promised. Any other call
that faults changes nothing, and none of them finds a contradiction or a grant
without a reserved slot. After a boarding or a departure the counters agree. -/
theorem misuse_contained (hc : 0 < c) {ks : List Call} (hn : enqueues ks < Word.size)
    (hs : (idle c).afterCalls ks = s) :
    (s.capacity = c ∧ s.onBus + s.reserved ≤ c ∧ s.reserved = s.totalGranted ∧
      (0 < s.onBus → s.heading ≠ none) ∧ s.totalPending < Word.size) ∧
    (∀ l, enqueues ks + 1 < Word.size → (s.enqueue l).state = s.addWaiting l ∧
      ((∃ f : Fault, (s.enqueue l).answer = .error f ∧ f.Says "bus state invariant broken") ↔
        s.heading = none ∨ s.onBus = 0 ∧ s.reserved = 0) ∧
      ∀ f : Fault, (s.enqueue l).answer = .error f → f.Says "bus state invariant broken") ∧
    (∀ k, k.isEnqueue = false → ((s.call k).isDone = true ↔ s.Accepts k) ∧
      ∀ f : Fault, (s.call k).answer = .error f → (s.call k).state = s ∧
        ¬ f.Says "bus state invariant broken" ∧ ¬ f.Says "resume with nothing reserved") ∧
    (∀ k, k.isTransfer = true → (s.call k).isDone = true → (s.call k).state.violation? = none) := by
  obtain ⟨h, hcap, hp⟩ := (guarded_idle hc).afterCalls ks (by change 0 + _ < _; omega)
  rw [hs] at h hcap hp
  change s.capacity = c at hcap
  change _ ≤ 0 + _ at hp
  refine ⟨⟨hcap, hcap ▸ h.fits, h.granted_eq.symm, h.held, by omega⟩, ?enqueue, ?other, ?transfer⟩
  case enqueue =>
    intro l hroom
    have hpend := s.pending_le_totalPending l
    unfold Queue.pending at hpend
    have hlt : (s.queue l).waiting + 1 < Word.size := by omega
    refine ⟨h.state_enqueue hlt, ?_⟩
    obtain ⟨hheld, he⟩ | ⟨hbroken, v, he⟩ := h.enqueue_cases hlt <;> rw [he]
    · refine ⟨iff_of_false ?_ hheld, fun f hf => by cases hf⟩
      rintro ⟨f, hf, -⟩
      cases hf
    · have hsays := says_broken_iff.mpr ⟨v, s.addWaiting l, rfl⟩
      refine ⟨iff_of_true ⟨_, rfl, hsays⟩ hbroken, fun f hf => ?_⟩
      cases hf
      exact hsays
  case other =>
    intro k hk
    obtain ⟨hacc, t, he, -⟩ | ⟨hacc, f, hf, he⟩ := h.call_cases hk <;> rw [he]
    · exact ⟨iff_of_true rfl hacc, fun f hf => by cases hf⟩
    · refine ⟨iff_of_false (fun hd => by cases hd) hacc, fun g hg => ?_⟩
      cases hg
      exact ⟨rfl, hf⟩
  case transfer =>
    intro k hk hd
    have hno : k.isEnqueue = false := by cases k <;> first | rfl | cases hk
    obtain ⟨-, t, he, -, -, -, hv⟩ | ⟨-, f, -, he⟩ := h.call_cases hno
    · rw [he]
      exact hv hk
    · rw [he] at hd
      cases hd

/-- The only slot is promised to a task that waits for an idle bus, and taken by
a task that goes the other way. -/
theorem misuse_contained_stolen_slot :
    ∃ ks s, enqueues ks < Word.size ∧ (idle 1).afterCalls ks = s ∧ ks.length = 6 ∧
      s.heading = some .receive ∧ (s.queue (.normal .send)).waiting = 1 ∧
      s.onBus + s.reserved ≤ 1 ∧ s.reserved = s.totalGranted ∧
      (s.enqueue (.priority .send)).state = s.addWaiting (.priority .send) ∧
      ((s.call (.board .send)).isDone = true ↔ s.Accepts (.board .send)) ∧
      (s.call .leave).state.violation? = none := by
  let ks : List Call := [.enqueue (.normal .send), .wake (.normal .send), .board .receive,
    .resume (.normal .send), .board .receive, .enqueue (.normal .send)]
  obtain ⟨⟨-, hfits, hreserved, -, -⟩, henqueue, hother, htransfer⟩ :=
    @misuse_contained _ 1 (by decide) ks (by decide) rfl
  exact ⟨ks, _, by decide, rfl, rfl, by decide, by decide, hfits, hreserved,
    (henqueue _ (by decide)).1, (hother _ rfl).1, htransfer .leave rfl (by decide)⟩

end HalfDuplex.Arbiter
