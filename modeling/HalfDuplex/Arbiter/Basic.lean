import HalfDuplex.PerLane

/-!
# The arbiter of a half-duplex bus

The arbiter holds every counter that an admission depends on and the direction
that the bus is held in. A grant reserves a slot for a waiting task until that
task comes back for it, so free slots are counted net of outstanding grants.
-/

namespace HalfDuplex

/-- The tasks of one lane that have queued and not boarded. -/
structure Queue where
  waiting : Nat
  granted : Nat
deriving DecidableEq

namespace Queue

def empty : Queue := ⟨0, 0⟩

def pending (q : Queue) : Nat := q.waiting + q.granted

end Queue

/-- How many tasks of each lane one departure granted a slot. -/
abbrev Grants := PerLane Nat

namespace Grants

def total (g : Grants) : Nat := g.sum

def isEmpty (g : Grants) : Bool := g.total == 0

def inOrder (g : Grants) : List (Lane × Nat) :=
  (Lane.grantOrder.map fun l => (l, g.get l)).filter fun x => 0 < x.2

end Grants

structure Arbiter where
  capacity : Nat
  /-- The direction that holds the bus; none while it is idle. -/
  heading : Option Direction
  onBus : Nat
  /-- Grants given out and not yet taken up. -/
  reserved : Nat
  queues : PerLane Queue
deriving DecidableEq

namespace Arbiter

def idle (capacity : Nat) : Arbiter where
  capacity := capacity
  heading := none
  onBus := 0
  reserved := 0
  queues := PerLane.fill Queue.empty

def queue (s : Arbiter) (l : Lane) : Queue := s.queues.get l

def freeSlots (s : Arbiter) : Nat := s.capacity - s.onBus - s.reserved

def totalWaiting (s : Arbiter) : Nat := (s.queues.map Queue.waiting).sum

def totalGranted (s : Arbiter) : Nat := (s.queues.map Queue.granted).sum

def totalPending (s : Arbiter) : Nat := (s.queues.map Queue.pending).sum

def heldAgainst (s : Arbiter) (d : Direction) : Bool := s.heading == some d.other

/-- Whether a task that arrives now has to queue: because no slot is free, or
the bus is held in the other direction, or the task is a normal one and a
priority task of its direction is still pending. -/
def mustWait (s : Arbiter) (l : Lane) : Bool :=
  s.freeSlots == 0 || s.heldAgainst l.direction ||
    (l.rank == .normal && 0 < (s.queue (.priority l.direction)).pending)

inductive Violation where
  | overCommitted
  | headingOutOfSync
  | reservationsOutOfSync
  | idleWithWaiting
deriving DecidableEq

def Violation.message : Violation → String
  | .overCommitted => "slots over-committed"
  | .headingOutOfSync => "direction out of sync with occupancy"
  | .reservationsOutOfSync => "reservations out of sync with grants"
  | .idleWithWaiting => "idle bus with waiting tasks"

def violation? (s : Arbiter) : Option Violation :=
  if s.capacity < s.onBus + s.reserved then some .overCommitted
  else if (decide (0 < s.onBus) || decide (0 < s.reserved)) != s.heading.isSome then
    some .headingOutOfSync
  else if s.totalGranted ≠ s.reserved then some .reservationsOutOfSync
  else if s.heading.isNone && decide (0 < s.totalWaiting) then some .idleWithWaiting
  else none

@[simp] theorem queue_idle (c : Nat) (l : Lane) : (idle c).queue l = Queue.empty :=
  PerLane.get_fill _ _

@[simp] theorem freeSlots_idle (c : Nat) : (idle c).freeSlots = c := rfl

end Arbiter

end HalfDuplex
