import HalfDuplex.Proofs.Batch.Building
import Mathlib.Tactic.SplitIfs

/-!
# The tasks of a batch one by one

The tasks of a batch come in four blocks, one for each lane, and some of the blocks may
be empty. Their ids go up by one from the first, across the blocks, and each takes one
draw from the source, so how the tasks are split into lanes does not show in their
durations. If the last id does not fit a word, there are no tasks at all.
-/

namespace HalfDuplex

namespace Durations

variable {s rest : Source} {upper ticks : Nat}

theorem Source.drawn_succ_of_next (h : s.next upper = .done rest ticks) (k : Nat) :
    s.drawn upper (k + 1) = rest.drawn upper k := by
  induction k with
  | zero => exact congrArg Outcome.state h
  | succ k ih => rw [drawn, ih, drawn]

/-- What `n` draws below `upper` yield. -/
def Source.durations (upper : Nat) : Source → Nat → List Nat
  | _, 0 => []
  | s, n + 1 =>
    match s.next upper with
    | ⟨rest, .ok ticks⟩ => ticks :: rest.durations upper n
    | ⟨_, .error _⟩ => []

theorem Source.durations_succ_of_next (h : s.next upper = .done rest ticks) (n : Nat) :
    s.durations upper (n + 1) = ticks :: rest.durations upper n := by
  rw [durations, h]
  rfl

end Durations

namespace Batch

variable {counts other : Counts} {maxTicks firstId k : Nat} {ls : List Lane}
  {source rest : Durations.Source} {tasks : List Task} {t : Task}

/-- The lane of the task that is created after `k` others: the blocks of tasks are in
spawn order. -/
def Counts.laneAt (counts : Counts) (k : Nat) : Lane :=
  if k < counts.get (.priority .send) then .priority .send
  else if k < counts.get (.priority .send) + counts.get (.priority .receive) then
    .priority .receive
  else if k < counts.get (.priority .send) + counts.get (.priority .receive) +
    counts.get (.normal .send) then .normal .send
  else .normal .receive

theorem Counts.getElem?_lanes (h : k < counts.sum) :
    counts.lanes[k]? = some (counts.laneAt k) := by
  have hsum : counts.sum = counts.get (.priority .send) + counts.get (.priority .receive) +
      counts.get (.normal .send) + counts.get (.normal .receive) := by
    simp only [PerLane.sum, PerLane.get, Lane.priority, Lane.normal]
    omega
  simp only [lanes, Lane.spawnOrder, List.flatMap_cons, List.flatMap_nil, List.append_nil,
    List.getElem?_append, List.getElem?_replicate, List.length_replicate, laneAt]
  split_ifs <;> first | rfl | omega

theorem draws_assign (h : assign maxTicks firstId ls source = .done rest tasks) :
    rest = source.drawn maxTicks ls.length ∧
    ∀ k t, tasks[k]? = some t →
      (source.drawn maxTicks k).next maxTicks = .done (source.drawn maxTicks (k + 1)) t.ticks := by
  induction ls generalizing firstId source tasks with
  | nil =>
    cases h
    exact ⟨rfl, fun k t ht => by cases ht⟩
  | cons l ls ih =>
    obtain ⟨next, ticks, later, -, hnext, htail, rfl⟩ := assign_cons h
    have hdrawn := Durations.Source.drawn_succ_of_next hnext
    obtain ⟨hrest, hlater⟩ := ih htail
    refine ⟨?_, fun k t ht => ?_⟩
    · rw [List.length_cons, hdrawn, hrest]
    · cases k with
      | zero =>
        cases ht
        rw [hdrawn]
        exact hnext
      | succ k =>
        rw [hdrawn, hdrawn]
        exact hlater k t ht

theorem map_ticks_assign (h : assign maxTicks firstId ls source = .done rest tasks) :
    tasks.map Task.ticks = source.durations maxTicks ls.length := by
  induction ls generalizing firstId source tasks with
  | nil => cases h; rfl
  | cons l ls ih =>
    obtain ⟨next, ticks, later, -, hnext, htail, rfl⟩ := assign_cons h
    rw [List.map_cons, ih htail, List.length_cons,
      Durations.Source.durations_succ_of_next hnext]

theorem built_in_order (h : buildTasks counts firstId maxTicks source = .done rest tasks) :
    tasks.map Task.id = List.range' firstId counts.sum ∧ tasks.map Task.lane = counts.lanes ∧
    tasks.map Task.ticks = source.durations maxTicks counts.sum ∧
    rest = source.drawn maxTicks counts.sum := by
  have hassign := (buildTasks_eq_done_iff.mp h).2
  refine ⟨map_id_buildTasks h, map_lane_assign hassign, ?_, ?_⟩ <;> rw [← Counts.length_lanes]
  · exact map_ticks_assign hassign
  · exact (draws_assign hassign).1

theorem task_at (h : buildTasks counts firstId maxTicks source = .done rest tasks)
    (ht : tasks[k]? = some t) : t.id = firstId + k ∧ t.lane = counts.laneAt k ∧
      (source.drawn maxTicks k).next maxTicks =
        .done (source.drawn maxTicks (k + 1)) t.ticks := by
  obtain ⟨hids, hlanes, -, -⟩ := built_in_order h
  have hid : (tasks.map Task.id)[k]? = some t.id := by rw [List.getElem?_map, ht]; rfl
  have hlane : (tasks.map Task.lane)[k]? = some t.lane := by rw [List.getElem?_map, ht]; rfl
  rw [hids] at hid
  rw [hlanes] at hlane
  have hk : k < counts.sum := by
    rw [← Counts.length_lanes]
    exact (List.getElem?_eq_some_iff.mp hlane).1
  rw [List.getElem?_range' hk, Nat.one_mul, Option.some.injEq] at hid
  rw [Counts.getElem?_lanes hk, Option.some.injEq] at hlane
  exact ⟨hid.symm, hlane.symm, (draws_assign (buildTasks_eq_done_iff.mp h).2).2 k t ht⟩

theorem buildTasks_of_overflow (hmax : 0 < maxTicks) (hpos : 0 < counts.sum)
    (hid : Word.size < firstId + counts.sum) :
    ∃ rest fault, buildTasks counts firstId maxTicks source = .fault rest fault ∧
      (source.HasRoom counts.sum →
        fault = if roomLimit ≤ counts.total then .tooLarge else .idOverflow) := by
  split_ifs with hlarge
  · exact ⟨source, _, buildTasks_of_large maxTicks firstId source hlarge, fun _ => rfl⟩
  obtain ⟨-, -, -, hfits, -⟩ | ⟨rest, hbuild, -⟩ | ⟨rest, hbuild, hfull⟩ :=
    buildTasks_cases hmax firstId source (total_lt_roomLimit_iff.mp (Nat.lt_of_not_le hlarge))
  · exact absurd (hfits hpos) (Nat.not_le_of_lt hid)
  · exact ⟨rest, _, hbuild, fun _ => rfl⟩
  · exact ⟨rest, _, hbuild, fun hroom => absurd hroom hfull⟩

/-- The tasks of a batch are built if its ids fit a word and the source has room for the
draws. There are as many as were asked for; the `k`-th has the `k`-th id and the lane of
its block, and its duration is the `k`-th draw of the source, from which nothing else is
drawn. So the durations hang on the number of tasks only, and not on their lanes or ids.
Each draw comes to an end. If the ids do not fit a word or the draws cannot be counted,
building is a fault. -/
theorem tasks_in_blocks (counts : Counts) (firstId maxTicks : Nat) (source : Durations.Source)
    (hmax : 0 < maxTicks) :
    (counts.sum < roomLimit → firstId + counts.sum ≤ Word.size → source.HasRoom counts.sum →
      ∃ tasks, buildTasks counts firstId maxTicks source =
          .done (source.drawn maxTicks counts.sum) tasks ∧
        tasks.length = counts.total ∧ counts.total = counts.sum ∧
        (∀ k t, tasks[k]? = some t → t.id = firstId + k ∧ t.lane = counts.laneAt k ∧
          (source.drawn maxTicks k).next maxTicks =
            .done (source.drawn maxTicks (k + 1)) t.ticks) ∧
        ∀ other otherId tasks' rest, other.sum = counts.sum →
          buildTasks other otherId maxTicks source = .done rest tasks' →
          tasks'.map Task.ticks = tasks.map Task.ticks ∧
            rest = source.drawn maxTicks counts.sum) ∧
    (source.Live → maxTicks < Word.size → ∀ k, (source.drawn maxTicks k).Ends maxTicks) ∧
    (0 < counts.sum → Word.size < firstId + counts.sum →
      ∃ rest fault, buildTasks counts firstId maxTicks source = .fault rest fault ∧
        (source.HasRoom counts.sum →
          fault = if roomLimit ≤ counts.total then .tooLarge else .idOverflow)) ∧
    (counts.sum < roomLimit → firstId + counts.sum ≤ Word.size → ¬ source.HasRoom counts.sum →
      ∃ rest, buildTasks counts firstId maxTicks source =
        .fault rest (.duration .countOverflow)) := by
  refine ⟨fun hlimit hid hroom => ?_,
    fun hlive hword k => (hlive.drawn hword k).ends hmax hword,
    buildTasks_of_overflow hmax, buildTasks_of_full hmax⟩
  obtain ⟨rest, tasks, hbuild⟩ := buildTasks_eq_done hmax hlimit hid hroom
  obtain ⟨-, -, hticks, rfl⟩ := built_in_order hbuild
  refine ⟨tasks, hbuild, length_buildTasks hbuild, Counts.total_eq_sum hlimit,
    fun k t => task_at hbuild, ?_⟩
  intro other otherId tasks' rest hsum hother
  obtain ⟨-, -, hticks', hrest⟩ := built_in_order hother
  rw [hsum] at hticks' hrest
  exact ⟨hticks'.trans hticks.symm, hrest⟩

def nearlyFull : Durations.Source :=
  .fixed ⟨[5, 500], Word.size - 4, by decide⟩

/-- With an empty block in front of the last one, and the last id the largest that fits a
word. One id further on, none of these tasks is built, and neither are five from a list
that has room for three draws. -/
theorem tasks_in_blocks_up_to_last_id :
    (∃ tasks, buildTasks (Counts.ofSpawnOrder 1 2 0 2) (Word.size - 5) 244 (.ofSeed 99) =
        .done ((Durations.Source.ofSeed 99).drawn 244 5) tasks ∧
      tasks.length = 5 ∧
      ∀ t, tasks[3]? = some t → t.id = Word.size - 2 ∧ t.lane = .normal .receive) ∧
    (∃ rest, buildTasks (Counts.ofSpawnOrder 1 2 0 2) (Word.size - 4) 244 (.ofSeed 99) =
      .fault rest .idOverflow) ∧
    ∃ rest, buildTasks (Counts.ofSpawnOrder 1 2 0 2) 0 244 nearlyFull =
      .fault rest (.duration .countOverflow) := by
  obtain ⟨hbuilt, -⟩ := tasks_in_blocks (Counts.ofSpawnOrder 1 2 0 2) (Word.size - 5) 244
    (.ofSeed 99) (by decide)
  obtain ⟨-, -, hoverflow, -⟩ := tasks_in_blocks (Counts.ofSpawnOrder 1 2 0 2) (Word.size - 4) 244
    (.ofSeed 99) (by decide)
  obtain ⟨-, -, -, hfull⟩ := tasks_in_blocks (Counts.ofSpawnOrder 1 2 0 2) 0 244 nearlyFull
    (by decide)
  obtain ⟨tasks, hbuild, hlength, -, htask, -⟩ := hbuilt (by decide) (by decide) trivial
  obtain ⟨rest, fault, hfault, hid⟩ := hoverflow (by decide) (by decide)
  obtain rfl := hid trivial
  refine ⟨⟨tasks, hbuild, hlength, fun t ht => ?_⟩, ⟨rest, hfault⟩,
    hfull (by decide) (by decide) fun hroom => ?_⟩
  · obtain ⟨hid, hlane, -⟩ := htask 3 t ht
    exact ⟨hid, hlane⟩
  · obtain hempty | hcount := hroom
    · cases hempty
    · exact absurd hcount (by decide)

end Batch

end HalfDuplex
