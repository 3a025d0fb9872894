import HalfDuplex.Bus.Admission
import HalfDuplex.Bus.Departure
import HalfDuplex.Proofs.Arbiter.HandOver

/-!
# Calls on a sound bus

On a sound bus the free permits are the slots that nobody occupies, and no queue
holds more permits than its lane has grants. Every call then goes through, and
what it leaves is written down here in one piece. Only a statistic or a queue
that has outgrown its word can stop an admission.
-/

namespace HalfDuplex

namespace Semaphore

variable {s : Semaphore} {n : Nat}

def add (s : Semaphore) (n : Nat) : Semaphore := { s with permits := s.permits + n }

theorem add_zero (s : Semaphore) : s.add 0 = s := rfl

theorem add_add (s : Semaphore) (m n : Nat) : (s.add m).add n = s.add (m + n) := by
  unfold add
  rw [Nat.add_assoc]

theorem signalTimes_eq (lenient : Bool) (h : s.permits + n ≤ s.bound) (hw : s.bound < Word.size) :
    s.signalTimes lenient n = .done (s.add n) () := by
  induction n generalizing s with
  | zero => rfl
  | succ n ih =>
    have h1 : (s.add 1).permits + n ≤ (s.add 1).bound := by
      change s.permits + 1 + n ≤ s.bound
      omega
    rw [signalTimes, signal_of_lt lenient (by omega) hw, Outcome.done_andThen]
    change (s.add 1).signalTimes lenient n = _
    rw [ih h1 hw, add_add, Nat.add_comm 1 n]

end Semaphore

namespace Bus

/-- How many grants a list of grants has for lane `l`. -/
def amount : List (Lane × Nat) → Lane → Nat
  | [], _ => 0
  | x :: gs, l => (if x.1 = l then x.2 else 0) + amount gs l

theorem amount_cons (x : Lane × Nat) (gs : List (Lane × Nat)) (l : Lane) :
    amount (x :: gs) l = (if x.1 = l then x.2 else 0) + amount gs l := rfl

theorem amount_filter_pos (gs : List (Lane × Nat)) (l : Lane) :
    amount (gs.filter fun x => 0 < x.2) l = amount gs l := by
  induction gs with
  | nil => rfl
  | cons x gs ih =>
    by_cases hx : 0 < x.2
    · rw [List.filter_cons, if_pos (decide_eq_true hx), amount_cons, amount_cons, ih]
    · rw [List.filter_cons, if_neg (by simpa using hx), amount_cons, ih]
      split <;> omega

theorem amount_inOrder (g : Grants) (l : Lane) : amount g.inOrder l = g.get l := by
  unfold Grants.inOrder
  rw [amount_filter_pos]
  rcases l with ⟨_ | _, _ | _⟩ <;>
    simp [amount, Lane.grantOrder, Lane.priority, Lane.normal]

def wakings (gs : List (Lane × Nat)) : List Event := gs.map fun x => .woken x.1 x.2

theorem map_append_append (trace : Option (List Event)) (es fs : List Event) :
    (trace.map (· ++ es)).map (· ++ fs) = trace.map (· ++ (es ++ fs)) := by
  cases trace with
  | none => rfl
  | some events => exact congrArg some (List.append_assoc ..)

def notify (b : Bus) (gs : List (Lane × Nat)) : Bus :=
  { b with
    queues := PerLane.ofFn fun l => (b.queues.get l).add (amount gs l)
    trace := b.trace.map (· ++ wakings gs) }

theorem get_queues_notify (b : Bus) (gs : List (Lane × Nat)) (l : Lane) :
    (b.notify gs).queues.get l = (b.queues.get l).add (amount gs l) := PerLane.get_ofFn ..

theorem notify_nil (b : Bus) : b.notify [] = b := by
  have hq : (b.notify []).queues = b.queues := by
    apply PerLane.ext_get
    intro l
    rw [get_queues_notify]
    exact Semaphore.add_zero _
  have ht : (b.notify []).trace = b.trace := by
    simp [notify, wakings]
  change { b with queues := (b.notify []).queues, trace := (b.notify []).trace } = b
  rw [hq, ht]

theorem notify_cons (b : Bus) (x : Lane × Nat) (gs : List (Lane × Nat)) :
    (b.notify [x]).notify gs = b.notify (x :: gs) := by
  have hq : ((b.notify [x]).notify gs).queues = (b.notify (x :: gs)).queues := by
    apply PerLane.ext_get
    intro l
    rw [get_queues_notify, get_queues_notify, get_queues_notify, Semaphore.add_add, amount_cons,
      amount_cons]
    rfl
  have ht : ((b.notify [x]).notify gs).trace = (b.notify (x :: gs)).trace :=
    map_append_append b.trace (wakings [x]) (wakings gs)
  change { b with
    queues := ((b.notify [x]).notify gs).queues, trace := ((b.notify [x]).notify gs).trace } = _
  rw [hq, ht]
  rfl

theorem notify_single (b : Bus) (l : Lane) (n : Nat) :
    { b.record (.woken l n) with queues := b.queues.set l ((b.queues.get l).add n) } =
      b.notify [(l, n)] := by
  have hq : b.queues.set l ((b.queues.get l).add n) = (b.notify [(l, n)]).queues := by
    apply PerLane.ext_get
    intro m
    rw [PerLane.get_set, get_queues_notify, amount_cons]
    split
    · next hm => rw [hm]; rfl
    · rfl
  rw [hq]
  rfl

theorem announce_eq (lenient : Bool) (gs : List (Lane × Nat)) (b : Bus)
    (hbound : ∀ l, (b.queues.get l).bound = Word.largest)
    (hroom : ∀ l, (b.queues.get l).permits + amount gs l ≤ Word.largest) :
    b.announce lenient gs = .done (b.notify gs) () := by
  induction gs generalizing b with
  | nil => rw [announce, notify_nil]
  | cons x gs ih =>
    obtain ⟨l, n⟩ := x
    have hl := hroom l
    rw [amount_cons, if_pos rfl] at hl
    dsimp only at hl
    have hsig : (b.queues.get l).signalTimes lenient n = .done ((b.queues.get l).add n) () :=
      Semaphore.signalTimes_eq lenient (by rw [hbound]; omega) (by rw [hbound]; decide)
    have hstep : b.announce lenient ((l, n) :: gs) = (b.notify [(l, n)]).announce lenient gs := by
      simp only [announce, record_queues, hsig, Outcome.done_within, Outcome.done_andThen,
        notify_single]
    rw [hstep, ih, notify_cons]
    · intro m
      rw [get_queues_notify]
      exact hbound m
    · intro m
      have hm := hroom m
      rw [amount_cons] at hm
      rw [get_queues_notify]
      change (b.queues.get m).permits + (if l = m then n else 0) + amount gs m ≤ Word.largest
      dsimp only at hm
      omega

/-- The semaphores have the bounds that they were made with, and the free
permits are the unoccupied slots. -/
structure Synced (b : Bus) : Prop where
  capacity_lt : b.arbiter.capacity < Word.size
  slots_eq : b.slots = ⟨b.arbiter.capacity, b.unoccupied⟩
  queue_bound : ∀ l, (b.queues.get l).bound = Word.largest

structure Sound (b : Bus) : Prop extends Arbiter.Coherent b.arbiter, Synced b where
  permits_le : ∀ l, (b.queues.get l).permits ≤ (b.arbiter.queue l).granted

/-- Nobody rides, waits or has a grant; every slot has its permit, and no queue
holds one. -/
structure AtRest (b : Bus) (capacity : Nat) : Prop where
  arbiter_eq : b.arbiter = Arbiter.idle capacity
  slots_eq : b.slots = Semaphore.bounded capacity
  queues_eq : b.queues = PerLane.fill (Semaphore.unbounded 0)
  unpoisoned : b.poisoned = false

theorem atRest_fresh (c : Config) : (fresh c).AtRest c.capacity := ⟨rfl, rfl, rfl, rfl⟩

theorem AtRest.get_queues {b : Bus} {capacity : Nat} (h : b.AtRest capacity) (l : Lane) :
    b.queues.get l = Semaphore.unbounded 0 := by
  rw [h.queues_eq, PerLane.get_fill]

theorem AtRest.synced {b : Bus} {capacity : Nat} (h : b.AtRest capacity)
    (hw : capacity < Word.size) : b.Synced where
  capacity_lt := by rwa [h.arbiter_eq]
  slots_eq := by
    rw [h.slots_eq, unoccupied, h.arbiter_eq]
    rfl
  queue_bound l := by
    rw [h.get_queues]
    rfl

variable {b : Bus} {t : Task} {l : Lane}

theorem Sound.atRest {capacity : Nat} (h : b.Sound) (hidle : b.arbiter = Arbiter.idle capacity)
    (hu : b.poisoned = false) : b.AtRest capacity where
  arbiter_eq := hidle
  slots_eq := by
    rw [h.slots_eq, unoccupied, hidle]
    rfl
  queues_eq := by
    apply PerLane.ext_get
    intro l
    have hle := h.permits_le l
    rw [hidle, Arbiter.queue_idle] at hle
    have hnone : (b.queues.get l).permits = 0 := Nat.le_zero.mp hle
    rw [PerLane.get_fill, Semaphore.unbounded, ← hnone, ← h.queue_bound l]
  unpoisoned := hu

def queueIn (b : Bus) (t : Task) : Bus :=
  { b with
    arbiter := b.arbiter.addWaiting t.lane
    stats := { b.stats with blocked := b.stats.blocked + 1 } }.record (.queued t.id t.lane)

def seat (b : Bus) (t : Task) (granted : Bool) : Bus :=
  { b with
    arbiter := b.arbiter.addRider t.lane.direction
    slots := { b.slots with permits := b.slots.permits - 1 }
    stats := { b.stats with
      admitted := b.stats.admitted + 1
      peakOnBus := max b.stats.peakOnBus (b.arbiter.onBus + 1) } }.record
    (.boarded t.id t.lane granted)

def seatGranted (b : Bus) (t : Task) : Bus :=
  { b with arbiter := b.arbiter.useGrant t.lane }.seat t true

def pickUp (b : Bus) (l : Lane) : Bus :=
  { b with queues := b.queues.modify l fun s => { s with permits := s.permits - 1 } }

def part (b : Bus) (t : Task) : Bus :=
  let (grants, arbiter) := b.arbiter.vacate.handOver
  { b with
    arbiter := arbiter
    slots := b.slots.add 1
    queues := PerLane.ofFn fun l => (b.queues.get l).add (grants.get l)
    trace := b.trace.map (· ++ .left t.id t.lane :: wakings grants.inOrder) }

theorem passQueue?_eq_some (hp : 0 < (b.queues.get l).permits) :
    b.passQueue? l = some (b.pickUp l) := by
  rw [passQueue?, Semaphore.take?, if_neg (by omega)]
  rfl

theorem passQueue?_eq_none_iff : b.passQueue? l = none ↔ (b.queues.get l).permits = 0 := by
  rw [passQueue?, Option.map_eq_none_iff, Semaphore.take?_eq_none_iff]

theorem Sound.permits_eq (h : b.Sound) :
    b.slots.permits = b.arbiter.capacity - b.arbiter.onBus := by
  rw [h.slots_eq]
  rfl

theorem Sound.bound_eq (h : b.Sound) : b.slots.bound = b.arbiter.capacity := by
  rw [h.slots_eq]

theorem slotsChecked_eq (h : b.slots.permits = b.unoccupied) : b.slotsChecked = .done b () :=
  if_pos h

/-- Whether the counters that an arrival of `t` may add to have room for it. -/
structure Fits (b : Bus) (t : Task) : Prop where
  waiting : (b.arbiter.queue t.lane).waiting + 1 < Word.size
  blocked : b.stats.blocked + 1 < Word.size
  admitted : b.stats.admitted + 1 < Word.size

theorem takeSlot_eq (granted : Bool) (ho : b.arbiter.Open t.lane.direction)
    (hc : (b.arbiter.addRider t.lane.direction).Coherent)
    (hs : b.slots.permits = b.arbiter.capacity - b.arbiter.onBus) :
    b.takeSlot t granted = .done (b.seat t granted) () ∨
      (∃ b', b.takeSlot t granted = .fault b' .overflow) ∧ ¬ b.stats.admitted + 1 < Word.size := by
  have hfree := ho.free
  have htake : b.slots.take? = some { b.slots with permits := b.slots.permits - 1 } := by
    rw [Semaphore.take?, if_neg (by omega)]
  unfold takeSlot
  rw [htake]
  dsimp only [ask]
  rw [ho.board_eq hc, Outcome.done_within, Outcome.done_andThen, slotsChecked_eq,
    Outcome.done_andThen]
  · unfold Stats.countAdmitted?
    by_cases hroom : b.stats.admitted + 1 < Word.size
    · rw [if_pos hroom]
      exact .inl rfl
    · rw [if_neg hroom]
      exact .inr ⟨⟨_, rfl⟩, hroom⟩
  · change b.slots.permits - 1 = b.arbiter.capacity - (b.arbiter.onBus + 1)
    omega

/-- An arrival queues, or boards, or finds a counter full and poisons the bus. -/
theorem Sound.enter_cases (h : b.Sound) (hu : b.poisoned = false) (t : Task) :
    (b.arbiter.mustWait t.lane = true ∧ ∃ n, b.enter t = .done (b.queueIn t) (.queued n)) ∨
      (b.arbiter.mustWait t.lane = false ∧ b.enter t = .done (b.seat t false) .boarded) ∨
      ∃ b' f, b.enter t = .fault b' f ∧ b'.poisoned = true ∧ ¬ b.Fits t := by
  rw [enter, hu, if_neg Bool.false_ne_true]
  cases hw : b.arbiter.mustWait t.lane with
  | true =>
    rw [if_pos rfl, queueUp]
    dsimp only [ask]
    by_cases hroom : (b.arbiter.queue t.lane).waiting + 1 < Word.size
    · rw [h.enqueue_eq hw hroom, Outcome.done_within, Outcome.done_andThen, Stats.countBlocked?]
      by_cases hblocked : b.stats.blocked + 1 < Word.size
      · rw [if_pos hblocked]
        exact .inl ⟨rfl, _, rfl⟩
      · rw [if_neg hblocked]
        exact .inr (.inr ⟨_, _, rfl, rfl, fun hf => hblocked hf.blocked⟩)
    · rw [Arbiter.enqueue, if_neg hroom]
      exact .inr (.inr ⟨_, _, rfl, rfl, fun hf => hroom hf.waiting⟩)
  | false =>
    rw [if_neg Bool.false_ne_true]
    obtain hd | ⟨⟨b', hb'⟩, hfull⟩ := takeSlot_eq false (Arbiter.open_of_mustWait_eq_false hw)
      (h.addRider hw) h.permits_eq
    · rw [hd]
      exact .inr (.inl ⟨rfl, rfl⟩)
    · rw [hb']
      exact .inr (.inr ⟨_, _, rfl, rfl, fun hf => hfull hf.admitted⟩)

theorem Sound.comeBack_cases (h : b.Sound) (hu : b.poisoned = false)
    (hg : 0 < (b.arbiter.queue t.lane).granted) :
    b.comeBack t = .done (b.seatGranted t) () ∨
      ∃ b' f, b.comeBack t = .fault b' f ∧ b'.poisoned = true ∧
        ¬ b.stats.admitted + 1 < Word.size := by
  rw [Bus.comeBack, hu, if_neg Bool.false_ne_true]
  dsimp only [ask]
  rw [h.resume_eq hg, Outcome.done_within, Outcome.done_andThen]
  obtain hd | ⟨⟨b', hb'⟩, hfull⟩ :=
    takeSlot_eq (b := { b with arbiter := b.arbiter.useGrant t.lane }) true (h.open_useGrant hg)
      (h.toCoherent.comeBack hg) h.permits_eq
  · rw [hd]
    exact .inl rfl
  · rw [hb']
    exact .inr ⟨_, _, rfl, rfl, hfull⟩

theorem notify_left (b : Bus) (t : Task) :
    ({ b with arbiter := b.arbiter.vacate.handOver.2, slots := b.slots.add 1 }.record
      (.left t.id t.lane)).notify b.arbiter.vacate.handOver.1.inOrder = b.part t := by
  simp only [notify, part, record, amount_inOrder]
  rw [map_append_append]
  rfl

theorem Sound.queue_room (h : b.Sound) (ho : 0 < b.arbiter.onBus) (l : Lane) :
    (b.queues.get l).permits + amount b.arbiter.vacate.handOver.1.inOrder l ≤ Word.largest := by
  have hcap := h.capacity_lt
  have hle := h.permits_le l
  have hgranted := (h.departed ho).granted_le_reserved l
  have hfits := (h.departed ho).fits
  rw [Arbiter.queue_handOver, Arbiter.queue_vacate] at hgranted
  dsimp only at hgranted
  rw [Arbiter.capacity_handOver] at hfits
  change _ ≤ b.arbiter.capacity at hfits
  rw [amount_inOrder]
  unfold Word.largest
  omega

theorem Sound.giveBack_eq (h : b.Sound) (lenient : Bool) (ho : 0 < b.arbiter.onBus) :
    ∃ d, b.giveBack lenient t = .done (b.part t) d := by
  have hfits := h.fits
  have hcap := h.capacity_lt
  have hpermits := h.permits_eq
  have hsig : b.slots.signal lenient = .done (b.slots.add 1) () :=
    Semaphore.signal_of_lt lenient (by rw [h.bound_eq]; omega) (by rw [h.bound_eq]; omega)
  have hslots : (b.slots.add 1).permits =
      b.arbiter.vacate.handOver.2.capacity - b.arbiter.vacate.handOver.2.onBus := by
    rw [Arbiter.capacity_handOver, Arbiter.onBus_handOver]
    change b.slots.permits + 1 = b.arbiter.capacity - (b.arbiter.onBus - 1)
    omega
  have hannounce : ({ b with
      arbiter := b.arbiter.vacate.handOver.2, slots := b.slots.add 1 }.record
        (.left t.id t.lane)).announce lenient b.arbiter.vacate.handOver.1.inOrder =
      .done (b.part t) () := by
    rw [← notify_left]
    exact announce_eq lenient _ _ h.queue_bound (h.queue_room ho)
  refine ⟨⟨t, b.arbiter.vacate.handOver.1, b.arbiter.heading,
    b.arbiter.vacate.handOver.2.heading⟩, ?_⟩
  unfold giveBack
  rw [hsig, Outcome.done_within, Outcome.done_andThen]
  dsimp only [ask]
  rw [h.leave_eq ho, Outcome.done_within, Outcome.done_andThen, slotsChecked_eq hslots,
    Outcome.done_andThen, hannounce]
  rfl

theorem Sound.release_eq (h : b.Sound) (lenient : Bool) (ho : 0 < b.arbiter.onBus) :
    ∃ d, b.release lenient t = .done (b.part t) d := by
  obtain ⟨d, hd⟩ := h.giveBack_eq (t := t) lenient ho
  refine ⟨d, ?_⟩
  unfold release
  rw [hd]
  cases lenient <;> rfl

theorem enter_of_poisoned (h : b.poisoned = true) (t : Task) : b.enter t = .fault b .poisoned := by
  rw [enter, if_pos h]

theorem comeBack_of_poisoned (h : b.poisoned = true) (t : Task) :
    b.comeBack t = .fault b .poisoned := by
  rw [comeBack, if_pos h]

theorem andThen_poisoned {α β : Type} {o : Result α} {f : Bus → α → Result β}
    (ho : o.state.poisoned = true)
    (hf : ∀ b a, b.poisoned = true → (f b a).state.poisoned = true) :
    (o.andThen f).state.poisoned = true := by
  obtain ⟨b, _ | a⟩ := o
  · exact ho
  · exact hf b a ho

theorem announce_poisoned (lenient : Bool) (gs : List (Lane × Nat)) (h : b.poisoned = true) :
    (b.announce lenient gs).state.poisoned = true := by
  induction gs generalizing b with
  | nil => exact h
  | cons x gs ih => exact andThen_poisoned h fun _ _ => ih

/-- Nothing heals a bus, and a departure from it goes on all the same. -/
theorem release_poisoned (lenient : Bool) (t : Task) (h : b.poisoned = true) :
    (b.release lenient t).state.poisoned = true := by
  have hgive : (b.giveBack lenient t).state.poisoned = true := by
    unfold giveBack
    refine andThen_poisoned h fun b _ h => ?_
    refine andThen_poisoned h fun b _ h => ?_
    refine andThen_poisoned ?_ fun b _ h => ?_
    · unfold slotsChecked
      split <;> exact h
    · exact andThen_poisoned (announce_poisoned lenient _ h) fun _ _ h => h
  unfold release
  cases lenient with
  | true => exact hgive
  | false =>
    rw [if_neg Bool.false_ne_true, locked, Outcome.onFault]
    split
    · exact hgive
    · rfl

end Bus

end HalfDuplex
