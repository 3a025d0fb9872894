import HalfDuplex.Proofs.Batch.Completion

/-!
# What is decided before a batch starts

A batch is held against its settings, its limit, the room for its tasks and for their
draws, the sum of their durations and the lock of the bus, in this order. The first of
these that it fails ends it before anybody has started and before anything has changed
on the bus. The limit is compared with the true number of tasks, however large that is,
and until the tasks are built no duration is drawn.
-/

namespace HalfDuplex.Batch

variable {counts : Counts} {source rest : Durations.Source} {tasks : List Task} {c : Config}
  {b : Bus}

/-- The number of tasks that a request is refused by. -/
def requested (counts : Counts) : Nat := min counts.sum Word.largest

/-- The batch ends with `result` and the bus is as it was: nobody has started, whoever it
is that would give up. What is left of the source is `rest`. -/
def Declines (b : Bus) (counts : Counts) (c : Config) (source rest : Durations.Source)
    (result : Except Fault (Except Refusal Report)) : Prop :=
  ∀ givesUp, run b counts c source givesUp = .unstarted b rest result

/-- All of `tasks` are started on the bus as it is, in their order. -/
structure Starts (b : Bus) (counts : Counts) (c : Config) (source rest : Durations.Source)
    (tasks : List Task) (givesUp : String → Bool) : Prop where
  run_eq : run b counts c source givesUp =
    .ofCrew counts rest (crew b c givesUp tasks).finish (transferTicks tasks) b.stats.blocked
  bus_eq : (crew b c givesUp tasks).bus = b
  tasks_eq : (crew b c givesUp tasks).workers.map Worker.task = tasks
  names_eq : (crew b c givesUp tasks).workers.map Worker.name = tasks.map Task.workerName
  yet_to_arrive : ∀ w ∈ (crew b c givesUp tasks).workers, w.phase = .starting

theorem starts_of_plan (h : plan b counts c source =
      .done rest (.start tasks (transferTicks tasks) b.stats.blocked)) (givesUp : String → Bool) :
    Starts b counts c source rest tasks givesUp where
  run_eq := run_of_start h
  bus_eq := rfl
  tasks_eq := map_task_crewFailing b c (fun t => givesUp t.workerName) tasks
  names_eq := by
    change (tasks.map _).map Worker.name = _
    rw [List.map_map]
    rfl
  yet_to_arrive := phase_crewFailing b c (fun t => givesUp t.workerName) tasks

theorem total_eq_requested (counts : Counts) : counts.total = requested counts :=
  counts.total_eq_min

theorem requested_eq_zero_iff : requested counts = 0 ↔ counts.sum = 0 := by
  have hlargest : 0 < Word.largest := by decide
  unfold requested
  omega

theorem lt_requested_iff {n : Nat} (hn : n < Word.largest) :
    n < requested counts ↔ n < counts.sum := by
  unfold requested
  omega

theorem plan_of_defect {d : Config.Defect} (h : c.validate = .error d) :
    plan b counts c source = .fault source (.config d) := by
  rw [plan, h]

theorem plan_of_too_many (b : Bus) (source : Durations.Source) (hvalid : c.validate = .ok ())
    (hmany : c.maxTasks < requested counts) : plan b counts c source =
      .done source (.refuse (.tooManyTasks (requested counts) c.maxTasks)) := by
  rw [← total_eq_requested] at hmany ⊢
  rw [plan, hvalid]
  dsimp only
  rw [if_pos hmany]

theorem plan_of_empty (b : Bus) (source : Durations.Source) (hvalid : c.validate = .ok ())
    (hempty : counts.sum = 0) : plan b counts c source = .done source .nothing := by
  have hzero : counts.total = 0 := by
    rw [total_eq_requested, requested_eq_zero_iff, hempty]
  rw [plan, hvalid]
  dsimp only
  rw [hzero, if_neg (Nat.not_lt_zero _), if_pos rfl]

section Admissible

variable (hvalid : c.validate = .ok ()) (hpos : 0 < counts.sum)
  (hlimit : requested counts ≤ c.maxTasks)

include hvalid hpos hlimit

theorem plan_of_requested : plan b counts c source =
    ((buildTasks counts 0 c.maxTransferTicks source).within id .build).andThen (planTasks b) := by
  rw [← total_eq_requested] at hlimit
  have htotal : 0 < counts.total := by
    rw [total_eq_requested, Nat.pos_iff_ne_zero, ne_eq, requested_eq_zero_iff]
    exact hpos.ne'
  exact plan_of_admissible hvalid htotal hlimit

theorem plan_of_unbuilt {f : BuildFault}
    (h : buildTasks counts 0 c.maxTransferTicks source = .fault rest f) :
    plan b counts c source = .fault rest (.build f) := by
  rw [plan_of_requested hvalid hpos hlimit, h]
  rfl

theorem plan_of_tasks (h : buildTasks counts 0 c.maxTransferTicks source = .done rest tasks) :
    plan b counts c source =
      if Word.size ≤ (tasks.map Task.ticks).sum then .fault rest .ticksOverflow
      else if b.poisoned then .fault rest (.bus .poisoned)
      else .done rest (.start tasks (transferTicks tasks) b.stats.blocked) := by
  rw [plan_of_requested hvalid hpos hlimit, h, ← transferTicks_eq_sum, ← planTasks_eq]
  rfl

end Admissible

theorem exists_built (hmax : 0 < c.maxTransferTicks) (hlimit : counts.sum < roomLimit)
    (hroom : source.HasRoom counts.sum) :
    ∃ rest tasks, buildTasks counts 0 c.maxTransferTicks source = .done rest tasks ∧
      tasks.map Task.id = List.range counts.sum ∧ tasks.map Task.lane = counts.lanes := by
  obtain ⟨rest, tasks, hbuild⟩ :=
    buildTasks_eq_done hmax hlimit (Counts.zero_add_sum_le hlimit) hroom
  refine ⟨rest, tasks, hbuild, ?_, map_lane_assign (buildTasks_eq_done_iff.mp hbuild).2⟩
  rw [map_id_buildTasks hbuild, List.range_eq_range']

/-- How a request for some tasks and not too many goes on. -/
structure Proceeds (b : Bus) (counts : Counts) (c : Config) (source : Durations.Source) :
    Prop where
  no_room : roomLimit ≤ counts.sum →
    Declines b counts c source source (.error (.build .tooLarge))
  /-- No draw looks for ever for a word that is accepted. -/
  draws_end : source.Live → c.maxTransferTicks < Word.size →
    ∀ k, (source.drawn c.maxTransferTicks k).Ends c.maxTransferTicks
  full : counts.sum < roomLimit → ¬ source.HasRoom counts.sum → ∃ rest,
    Declines b counts c source rest (.error (.build (.duration .countOverflow)))
  built : counts.sum < roomLimit → source.HasRoom counts.sum → ∃ rest tasks,
    buildTasks counts 0 c.maxTransferTicks source = .done rest tasks ∧
    tasks.map Task.id = List.range counts.sum ∧ tasks.map Task.lane = counts.lanes ∧
    (Word.size ≤ (tasks.map Task.ticks).sum →
      Declines b counts c source rest (.error .ticksOverflow)) ∧
    ((tasks.map Task.ticks).sum < Word.size →
      (b.poisoned = true → Declines b counts c source rest (.error (.bus .poisoned))) ∧
      (b.poisoned = false → ∀ givesUp, Starts b counts c source rest tasks givesUp))

theorem proceeds_of_admissible (b : Bus) (source : Durations.Source) (htasks : 0 < c.maxTasks)
    (hmax : 0 < c.maxTransferTicks) (hpos : 0 < counts.sum)
    (hlimit : requested counts ≤ c.maxTasks) : Proceeds b counts c source where
  no_room hlarge givesUp := run_of_fault <|
    plan_of_unbuilt (validate_eq_ok_iff.mpr ⟨htasks, hmax⟩) hpos hlimit
      (buildTasks_of_large _ _ _ (roomLimit_le_total_iff.mpr hlarge))
  draws_end hlive hword k := (hlive.drawn hword k).ends hmax hword
  full hroom hfull := by
    obtain ⟨rest, hbuild⟩ :=
      buildTasks_of_full hmax hroom (Counts.zero_add_sum_le hroom) hfull
    exact ⟨rest, fun givesUp => run_of_fault <|
      plan_of_unbuilt (validate_eq_ok_iff.mpr ⟨htasks, hmax⟩) hpos hlimit hbuild⟩
  built hroom hdraws := by
    obtain ⟨rest, tasks, hbuild, hids, hlanes⟩ := exists_built hmax hroom hdraws
    have hplan := plan_of_tasks (b := b) (validate_eq_ok_iff.mpr ⟨htasks, hmax⟩) hpos hlimit hbuild
    refine ⟨rest, tasks, hbuild, hids, hlanes, fun hticks => ?_, fun hticks =>
      ⟨fun hpoisoned => ?_, fun hsound => ?_⟩⟩
    · rw [if_pos hticks] at hplan
      exact fun givesUp => run_of_fault hplan
    · rw [if_neg (Nat.not_le_of_lt hticks), if_pos hpoisoned] at hplan
      exact fun givesUp => run_of_fault hplan
    · rw [if_neg (Nat.not_le_of_lt hticks), hsound, if_neg Bool.false_ne_true] at hplan
      exact starts_of_plan hplan

/-- A request is decided in a fixed order. Settings that cannot be used end it, then
the limit does if the true number of tasks exceeds it, and no tasks at all are
reported at once; up to here the source is as it was. Then there has to be room for the
list and for the draws, the durations have to fit a word together and the lock of the
bus has to be sound. In all these cases nobody has started and the bus is as it was. In
every other case all tasks are started, in the order of their ids. -/
theorem decides_before_starting (b : Bus) (counts : Counts) (c : Config)
    (source : Durations.Source) :
    (c.maxTasks = 0 → Declines b counts c source source (.error (.config .zeroMaxTasks))) ∧
    (0 < c.maxTasks → c.maxTransferTicks = 0 →
      Declines b counts c source source (.error (.config .zeroMaxTransferTicks))) ∧
    (0 < c.maxTasks → 0 < c.maxTransferTicks →
      (c.maxTasks < Word.largest → (c.maxTasks < requested counts ↔ c.maxTasks < counts.sum)) ∧
      (c.maxTasks < requested counts → Declines b counts c source source
        (.ok (.error (.tooManyTasks (requested counts) c.maxTasks)))) ∧
      (counts.sum = 0 → Declines b counts c source source (.ok (.ok Report.zero))) ∧
      (0 < counts.sum → requested counts ≤ c.maxTasks → Proceeds b counts c source)) := by
  refine ⟨fun hzero givesUp => run_of_fault <| plan_of_defect ?_,
    fun hpos hzero givesUp => run_of_fault <| plan_of_defect ?_,
    fun htasks hmax => ⟨lt_requested_iff, fun hmany givesUp => run_of_refuse ?_,
      fun hempty givesUp => run_of_nothing ?_, proceeds_of_admissible b source htasks hmax⟩⟩
  · rw [Config.validate, if_pos hzero]
  · rw [Config.validate, if_neg hpos.ne', if_pos hzero]
  · exact plan_of_too_many b source (validate_eq_ok_iff.mpr ⟨htasks, hmax⟩) hmany
  · exact plan_of_empty b source (validate_eq_ok_iff.mpr ⟨htasks, hmax⟩) hempty

/-- With the largest limit a request that does not fit a word is not too many; there
is no room for its tasks. With the usual limit the clamped sum is refused. One task is
not too many, but from a list whose draws have all been counted it gets no duration. -/
theorem decides_before_starting_past_a_word :
    Declines (Bus.fresh ⟨1, true⟩) (Counts.ofSpawnOrder Word.largest 1 1 0)
      { maxTasks := Word.largest } (.ofSeed 0) (.ofSeed 0) (.error (.build .tooLarge)) ∧
    Declines (Bus.fresh ⟨1, true⟩) (Counts.ofSpawnOrder Word.largest 1 1 0) {}
      (.ofSeed 0) (.ofSeed 0) (.ok (.error (.tooManyTasks Word.largest 200))) ∧
    ∃ rest, Declines (Bus.fresh ⟨1, true⟩) (Counts.ofSpawnOrder 0 0 1 0) {}
      (.fixed ⟨[5], Word.largest, by decide⟩) rest
      (.error (.build (.duration .countOverflow))) := by
  obtain ⟨-, -, hlargest⟩ := decides_before_starting (Bus.fresh ⟨1, true⟩)
    (Counts.ofSpawnOrder Word.largest 1 1 0) { maxTasks := Word.largest } (.ofSeed 0)
  obtain ⟨-, -, -, hproceeds⟩ := hlargest (by decide) (by decide)
  obtain ⟨-, -, husual⟩ := decides_before_starting (Bus.fresh ⟨1, true⟩)
    (Counts.ofSpawnOrder Word.largest 1 1 0) {} (.ofSeed 0)
  obtain ⟨-, hmany, -⟩ := husual (by decide) (by decide)
  obtain ⟨-, -, hone⟩ := decides_before_starting (Bus.fresh ⟨1, true⟩)
    (Counts.ofSpawnOrder 0 0 1 0) {} (.fixed ⟨[5], Word.largest, by decide⟩)
  obtain ⟨-, -, -, hcounted⟩ := hone (by decide) (by decide)
  refine ⟨(hproceeds (by decide) (by decide)).no_room (by decide), hmany (by decide),
    (hcounted (by decide) (by decide)).full (by decide) ?_⟩
  rintro (hempty | hroom)
  · cases hempty
  · exact absurd hroom (by decide)

end HalfDuplex.Batch
