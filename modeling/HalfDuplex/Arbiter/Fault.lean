import HalfDuplex.Arbiter.Basic

/-!
# Faults of the arbiter

Every call states what it takes for granted; a fault names the statement that
does not hold. Its message shows the counters as they are then.
-/

namespace HalfDuplex

def Queue.describe (q : Queue) : String :=
  s!"QueueCounts \x7b waiting: {q.waiting}, granted: {q.granted} \x7d"

namespace Arbiter

def describe (s : Arbiter) : String :=
  let heading := Direction.heldLabel s.heading
  let queues := ", ".intercalate (s.queues.toList.map Queue.describe)
  s!"BusState \x7b capacity: {s.capacity}, direction: {heading}, on_bus: {s.onBus}, " ++
    s!"reserved: {s.reserved}, queues: [{queues}] \x7d"

inductive Fault where
  | zeroCapacity
  | overflow
  | resumeWithoutGrant (lane : Lane)
  | resumeWithNothingReserved
  | boardWithNoFreeSlot (onBus reserved capacity : Nat)
  | boardAgainst (direction : Direction) (held : Option Direction)
  | leaveEmptyBus
  | broken (violation : Violation) (found : Arbiter)
deriving DecidableEq

def Fault.message : Fault → String
  | .zeroCapacity => "capacity must be > 0"
  | .overflow => "attempt to add with overflow"
  | .resumeWithoutGrant l => s!"resume without a grant for {l.name}"
  | .resumeWithNothingReserved => "resume with nothing reserved"
  | .boardWithNoFreeSlot n r c =>
    s!"board with no free slot: on_bus={n} reserved={r} capacity={c}"
  | .boardAgainst d held =>
    let holder := Direction.heldLabel held
    s!"board {d.name} while bus held by {holder}"
  | .leaveEmptyBus => "leave with empty bus"
  | .broken v s => s!"bus state invariant broken: {v.message}: {s.describe}"

end Arbiter

end HalfDuplex
