import HalfDuplex.Arbiter.Fault
import HalfDuplex.Outcome
import HalfDuplex.Word

/-!
# Calls on the arbiter

A task that has to wait enqueues; once granted it resumes and then boards; a
task that leaves passes its slot on. `leave` serves send before receive, skips
a direction that the bus is held against, and lets the normal tasks of a
direction have what its priority tasks leave over.
-/

namespace HalfDuplex.Arbiter

abbrev Result := Outcome Arbiter Fault

def create (capacity : Nat) : Except Fault Arbiter :=
  if capacity = 0 then .error .zeroCapacity else .ok (idle capacity)

/-- Ends a call with the answer `a` if the counters agree. -/
def checked {α : Type} (s : Arbiter) (a : α) : Result α :=
  match s.violation? with
  | none => .done s a
  | some v => .fault s (.broken v s)

def onQueue (s : Arbiter) (l : Lane) (f : Queue → Queue) : Arbiter :=
  { s with queues := s.queues.modify l f }

def enqueue (s : Arbiter) (l : Lane) : Result Unit :=
  if (s.queue l).waiting + 1 < Word.size then
    (s.onQueue l fun q => { q with waiting := q.waiting + 1 }).checked ()
  else .fault s .overflow

def resume (s : Arbiter) (l : Lane) : Result Unit :=
  if (s.queue l).granted = 0 then .fault s (.resumeWithoutGrant l)
  else if s.reserved = 0 then .fault s .resumeWithNothingReserved
  else
    .done { s.onQueue l (fun q => { q with granted := q.granted - 1 }) with
      reserved := s.reserved - 1 } ()

def board (s : Arbiter) (d : Direction) : Result Unit :=
  if s.capacity ≤ s.onBus + s.reserved then
    .fault s (.boardWithNoFreeSlot s.onBus s.reserved s.capacity)
  else if s.heldAgainst d then .fault s (.boardAgainst d s.heading)
  else { s with onBus := s.onBus + 1, heading := some d }.checked ()

def grant (s : Arbiter) (l : Lane) (n : Nat) : Arbiter :=
  { s.onQueue l (fun q => ⟨q.waiting - n, q.granted + n⟩) with reserved := s.reserved + n }

def grantable (s : Arbiter) (l : Lane) : Nat := min s.freeSlots (s.queue l).waiting

def wake (s : Arbiter) (l : Lane) : Nat × Arbiter := (s.grantable l, s.grant l (s.grantable l))

/-- Wakes the priority tasks of `d`, then its normal tasks if no priority task
is left waiting. Answers how many of each. -/
def wakeRanks (s : Arbiter) (d : Direction) : (Nat × Nat) × Arbiter :=
  let (p, s) := s.wake (.priority d)
  if (s.queue (.priority d)).waiting = 0 then
    let (n, s) := s.wake (.normal d)
    ((p, n), s)
  else ((p, 0), s)

/-- Wakes the tasks of `d` unless the bus is held against it, and turns the
bus to `d` if anybody was woken. -/
def serve (s : Arbiter) (d : Direction) : (Nat × Nat) × Arbiter :=
  if s.heldAgainst d then ((0, 0), s)
  else
    let ((p, n), s) := s.wakeRanks d
    ((p, n), if 0 < p + n then { s with heading := some d } else s)

/-- One task goes; an empty bus with no outstanding grant is held by nobody. -/
def vacate (s : Arbiter) : Arbiter :=
  { s with
    onBus := s.onBus - 1
    heading := if s.onBus - 1 = 0 ∧ s.reserved = 0 then none else s.heading }

/-- A task leaves, and its slot and all other free ones are granted on. -/
def leave (s : Arbiter) : Result Grants :=
  if s.onBus = 0 then .fault s .leaveEmptyBus
  else
    let (out, s) := s.vacate.serve .send
    let (back, s) := s.serve .receive
    s.checked ⟨out.2, out.1, back.2, back.1⟩

inductive Admission where
  | boarded
  | queued
deriving DecidableEq

def arrive (s : Arbiter) (l : Lane) : Result Admission :=
  if s.mustWait l then (s.enqueue l).map fun _ => .queued
  else (s.board l.direction).map fun _ => .boarded

def resumeBoard (s : Arbiter) (l : Lane) : Result Unit :=
  (s.resume l).andThen fun s _ => s.board l.direction

theorem queue_onQueue (s : Arbiter) (l m : Lane) (f : Queue → Queue) :
    (s.onQueue l f).queue m = if l = m then f (s.queue m) else s.queue m :=
  PerLane.get_modify ..

theorem queue_grant (s : Arbiter) (l m : Lane) (n : Nat) :
    (s.grant l n).queue m =
      if l = m then ⟨(s.queue m).waiting - n, (s.queue m).granted + n⟩ else s.queue m :=
  queue_onQueue ..

@[simp] theorem queue_vacate (s : Arbiter) (l : Lane) : s.vacate.queue l = s.queue l := rfl

theorem totalGranted_grant (s : Arbiter) (l : Lane) (n : Nat) :
    (s.grant l n).totalGranted = s.totalGranted + n := by
  rcases l with ⟨_ | _, _ | _⟩ <;>
    simp only [totalGranted, PerLane.sum, PerLane.map, PerLane.ofFn, grant, onQueue,
      PerLane.modify, PerLane.set, PerLane.get] <;> omega

theorem freeSlots_grant (s : Arbiter) (l : Lane) (n : Nat) :
    (s.grant l n).freeSlots = s.freeSlots - n := by
  change s.capacity - s.onBus - (s.reserved + n) = s.capacity - s.onBus - s.reserved - n
  omega

theorem serve_of_heldAgainst {s : Arbiter} {d : Direction} (h : s.heldAgainst d = true) :
    s.serve d = ((0, 0), s) := by
  simp [serve, h]

theorem checked_eq_done_iff {α : Type} {s : Arbiter} {a : α} :
    s.checked a = .done s a ↔ s.violation? = none := by
  unfold checked
  cases s.violation? with
  | none => simp
  | some v => simp [Outcome.fault, Outcome.done]

end HalfDuplex.Arbiter
