import HalfDuplex.PerLane
import HalfDuplex.Word

/-!
# How many tasks of each lane a batch has
-/

namespace HalfDuplex

namespace Batch

abbrev Counts := PerLane Nat

namespace Counts

def ofSpawnOrder (prioritySend priorityReceive send receive : Nat) : Counts :=
  ⟨send, prioritySend, receive, priorityReceive⟩

/-- The number of tasks, or the largest count if there are more: a request that
is far too large stays too large. -/
def total (c : Counts) : Nat :=
  Lane.spawnOrder.foldl (fun n l => Word.addClamped n (c.get l)) 0

/-- The lanes of the tasks in the order in which they are created. -/
def lanes (c : Counts) : List Lane :=
  Lane.spawnOrder.flatMap fun l => List.replicate (c.get l) l

theorem length_lanes (c : Counts) : c.lanes.length = c.sum := by
  simp [lanes, Lane.spawnOrder, Lane.priority, Lane.normal, PerLane.get, PerLane.sum]
  omega

end Counts

end Batch

end HalfDuplex
