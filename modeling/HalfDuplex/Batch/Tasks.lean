import HalfDuplex.Batch.Counts
import HalfDuplex.Durations.Source

/-!
# Building the tasks of a batch

Tasks are numbered on from a first id in spawn order, and each of them draws its
duration from the source when its id is given.
-/

namespace HalfDuplex.Batch

inductive BuildFault where
  | tooLarge
  | idOverflow
  | duration (fault : Durations.Fault)
deriving DecidableEq

def BuildFault.message : BuildFault → String
  | .tooLarge => "capacity overflow"
  | .idOverflow => "attempt to add with overflow"
  | .duration f => f.message

/-- A list has fewer entries than this. -/
def roomLimit : Nat := Word.size / 2

/-- Builds one task for each lane of the list. The source is carried along, and is
left as far as it was drawn from when a fault ends the building. -/
def assign (maxTicks : Nat) : Nat → List Lane → Durations.Source →
    Outcome Durations.Source BuildFault (List Task)
  | _, [], source => .done source []
  | firstId, l :: ls, source =>
    if Word.size ≤ firstId then .fault source .idOverflow
    else
      ((source.next maxTicks).within id .duration).andThen fun source ticks =>
        (assign maxTicks (firstId + 1) ls source).map fun tasks => ⟨firstId, l, ticks⟩ :: tasks

def buildTasks (counts : Counts) (firstId maxTicks : Nat) (source : Durations.Source) :
    Outcome Durations.Source BuildFault (List Task) :=
  if roomLimit ≤ counts.total then .fault source .tooLarge
  else assign maxTicks firstId counts.lanes source

variable {maxTicks firstId : Nat} {l : Lane} {ls : List Lane} {tasks : List Task}
  {source rest : Durations.Source}

theorem assign_cons (h : assign maxTicks firstId (l :: ls) source = .done rest tasks) :
    ∃ next ticks later, firstId < Word.size ∧ source.next maxTicks = .done next ticks ∧
      assign maxTicks (firstId + 1) ls next = .done rest later ∧
      tasks = ⟨firstId, l, ticks⟩ :: later := by
  rw [assign] at h
  split at h
  · cases h
  · next hid =>
    obtain ⟨_, ticks, hdraw, hrest⟩ := Outcome.andThen_eq_done_iff.mp h
    obtain ⟨next, hnext, rfl⟩ := Outcome.within_eq_done_iff.mp hdraw
    obtain ⟨later, hlater, rfl⟩ := Outcome.map_eq_done_iff.mp hrest
    exact ⟨next, ticks, later, Nat.lt_of_not_le hid, hnext, hlater, rfl⟩

theorem map_lane_assign (h : assign maxTicks firstId ls source = .done rest tasks) :
    tasks.map Task.lane = ls := by
  induction ls generalizing firstId source tasks with
  | nil => cases h; rfl
  | cons l ls ih =>
    obtain ⟨next, ticks, later, -, -, hlater, rfl⟩ := assign_cons h
    rw [List.map_cons, ih hlater]

end HalfDuplex.Batch
