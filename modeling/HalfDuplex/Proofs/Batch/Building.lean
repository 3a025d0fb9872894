import HalfDuplex.Batch.Run
import HalfDuplex.Proofs.Durations.Draws
import Mathlib.Data.List.Pairwise

/-!
# Building and planning a batch

With a positive bound for the durations, with room for the list and in the source,
and with ids that fit a word, the tasks of a batch can be built, and their ids go up
by one from the first. A valid request within the limit is then planned as a start of
all of its tasks, unless their durations together do not fit a word.
-/

namespace HalfDuplex.Batch

variable {counts : Counts} {maxTicks firstId n : Nat} {l : Lane} {ls : List Lane}
  {source rest : Durations.Source} {tasks : List Task} {t : Task} {c : Config} {b : Bus}

theorem Counts.total_eq_min (counts : Counts) : counts.total = min counts.sum Word.largest := by
  simp only [Counts.total, Lane.spawnOrder, List.foldl_cons, List.foldl_nil, Word.addClamped,
    Lane.priority, Lane.normal, PerLane.get, PerLane.sum]
  omega

theorem roomLimit_le : roomLimit ≤ Word.largest := by decide

theorem roomLimit_le_total_iff : roomLimit ≤ counts.total ↔ roomLimit ≤ counts.sum := by
  have hle := roomLimit_le
  rw [Counts.total_eq_min]
  omega

theorem Counts.total_eq_sum (h : counts.sum < roomLimit) : counts.total = counts.sum := by
  have hle := roomLimit_le
  rw [Counts.total_eq_min]
  omega

theorem total_lt_roomLimit_iff : counts.total < roomLimit ↔ counts.sum < roomLimit :=
  lt_iff_lt_of_le_iff_le roomLimit_le_total_iff

theorem Counts.zero_add_sum_le (h : counts.sum < roomLimit) : 0 + counts.sum ≤ Word.size := by
  have hfits : roomLimit ≤ Word.size := by decide
  omega

theorem assign_of_next {next : Durations.Source} {ticks : Nat} (hid : firstId < Word.size)
    (hnext : source.next maxTicks = .done next ticks) :
    assign maxTicks firstId (l :: ls) source =
      (assign maxTicks (firstId + 1) ls next).map (⟨firstId, l, ticks⟩ :: ·) := by
  rw [assign, if_neg (Nat.not_le_of_lt hid), hnext]
  rfl

/-- Tasks are built unless their ids do not fit a word or there is no room in the source
for their draws; where neither holds, what comes first tells the fault. -/
theorem assign_cases (hmax : 0 < maxTicks) (firstId : Nat) (ls : List Lane)
    (source : Durations.Source) :
    (∃ rest tasks, assign maxTicks firstId ls source = .done rest tasks ∧
      (0 < ls.length → firstId + ls.length ≤ Word.size) ∧ source.HasRoom ls.length) ∨
    (∃ rest, assign maxTicks firstId ls source = .fault rest .idOverflow ∧
      0 < ls.length ∧ Word.size < firstId + ls.length) ∨
    ∃ rest, assign maxTicks firstId ls source = .fault rest (.duration .countOverflow) ∧
      ¬ source.HasRoom ls.length := by
  induction ls generalizing firstId source with
  | nil => exact .inl ⟨source, [], rfl, fun h => absurd h (Nat.lt_irrefl 0), source.hasRoom_zero⟩
  | cons l ls ih =>
    rw [List.length_cons]
    by_cases hid : firstId < Word.size
    · by_cases hroom : source.HasRoom 1
      · obtain ⟨next, ticks, hnext, hleft⟩ := source.next_of_room hmax hroom
        rw [assign_of_next hid hnext, ← hleft]
        obtain ⟨rest, tasks, hassign, hfits, hmore⟩ | ⟨rest, hassign, hpos, hover⟩ |
          ⟨rest, hassign, hfull⟩ := ih (firstId + 1) next <;> rw [hassign]
        · exact .inl ⟨rest, _, rfl, fun _ => by omega, hmore⟩
        · exact .inr (.inl ⟨rest, rfl, by omega, by omega⟩)
        · exact .inr (.inr ⟨rest, rfl, hfull⟩)
      · refine .inr (.inr ⟨source, ?_, fun h => hroom (h.mono (Nat.le_add_left 1 _))⟩)
        rw [assign, if_neg (Nat.not_le_of_lt hid), source.next_of_full hmax hroom]
        rfl
    · refine .inr (.inl ⟨source, ?_, Nat.succ_pos _, by omega⟩)
      rw [assign, if_pos (Nat.le_of_not_lt hid)]

theorem map_id_assign (h : assign maxTicks firstId ls source = .done rest tasks) :
    tasks.map Task.id = List.range' firstId ls.length := by
  induction ls generalizing firstId source tasks with
  | nil => cases h; rfl
  | cons l ls ih =>
    obtain ⟨next, ticks, later, -, -, hlater, rfl⟩ := assign_cons h
    rw [List.map_cons, ih hlater, List.length_cons, List.range'_succ]

theorem buildTasks_eq_done_iff :
    buildTasks counts firstId maxTicks source = .done rest tasks ↔
      counts.total < roomLimit ∧
        assign maxTicks firstId counts.lanes source = .done rest tasks := by
  unfold buildTasks
  split
  · next hfull =>
    constructor
    · intro h
      cases h
    · rintro ⟨hroom, -⟩
      exact absurd hroom (Nat.not_lt_of_le hfull)
  · next hroom => exact (and_iff_right (Nat.lt_of_not_le hroom)).symm

theorem buildTasks_of_large (maxTicks firstId : Nat) (source : Durations.Source)
    (h : roomLimit ≤ counts.total) :
    buildTasks counts firstId maxTicks source = .fault source .tooLarge := by
  rw [buildTasks, if_pos h]

theorem buildTasks_cases (hmax : 0 < maxTicks) (firstId : Nat) (source : Durations.Source)
    (hlimit : counts.sum < roomLimit) :
    (∃ rest tasks, buildTasks counts firstId maxTicks source = .done rest tasks ∧
      (0 < counts.sum → firstId + counts.sum ≤ Word.size) ∧ source.HasRoom counts.sum) ∨
    (∃ rest, buildTasks counts firstId maxTicks source = .fault rest .idOverflow ∧
      0 < counts.sum ∧ Word.size < firstId + counts.sum) ∨
    ∃ rest, buildTasks counts firstId maxTicks source = .fault rest (.duration .countOverflow) ∧
      ¬ source.HasRoom counts.sum := by
  rw [buildTasks, if_neg (Nat.not_le_of_lt (total_lt_roomLimit_iff.mpr hlimit)),
    ← Counts.length_lanes]
  exact assign_cases hmax firstId counts.lanes source

theorem buildTasks_eq_done (hmax : 0 < maxTicks) (hlimit : counts.sum < roomLimit)
    (hid : firstId + counts.sum ≤ Word.size) (hroom : source.HasRoom counts.sum) :
    ∃ rest tasks, buildTasks counts firstId maxTicks source = .done rest tasks := by
  obtain ⟨rest, tasks, hbuild, -⟩ | ⟨-, -, -, hover⟩ | ⟨-, -, hfull⟩ :=
    buildTasks_cases hmax firstId source hlimit
  · exact ⟨rest, tasks, hbuild⟩
  · exact absurd hid (Nat.not_le_of_lt hover)
  · exact absurd hroom hfull

theorem buildTasks_of_full (hmax : 0 < maxTicks) (hlimit : counts.sum < roomLimit)
    (hid : firstId + counts.sum ≤ Word.size) (hfull : ¬ source.HasRoom counts.sum) :
    ∃ rest, buildTasks counts firstId maxTicks source =
      .fault rest (.duration .countOverflow) := by
  obtain ⟨-, -, -, -, hroom⟩ | ⟨-, -, -, hover⟩ | ⟨rest, hbuild, -⟩ :=
    buildTasks_cases hmax firstId source hlimit
  · exact absurd hroom hfull
  · exact absurd hid (Nat.not_le_of_lt hover)
  · exact ⟨rest, hbuild⟩

theorem map_id_buildTasks
    (h : buildTasks counts firstId maxTicks source = .done rest tasks) :
    tasks.map Task.id = List.range' firstId counts.sum := by
  rw [← Counts.length_lanes]
  exact map_id_assign (buildTasks_eq_done_iff.mp h).2

theorem nodup_id_buildTasks
    (h : buildTasks counts firstId maxTicks source = .done rest tasks) :
    (tasks.map Task.id).Nodup := by
  rw [map_id_buildTasks h]
  exact List.nodup_range'

theorem length_buildTasks
    (h : buildTasks counts firstId maxTicks source = .done rest tasks) :
    tasks.length = counts.total := by
  have hlimit := total_lt_roomLimit_iff.mp (buildTasks_eq_done_iff.mp h).1
  have hlen := congrArg List.length (map_id_buildTasks h)
  rwa [List.length_map, List.length_range', ← Counts.total_eq_sum hlimit] at hlen

theorem pairwise_id_lt (h : tasks.map Task.id = List.range' firstId n) :
    tasks.Pairwise fun t u => t.id < u.id := by
  have hrange : (tasks.map Task.id).Pairwise (· < ·) := by
    rw [h]
    exact List.pairwise_lt_range'
  exact List.pairwise_map.mp hrange

/-- Of tasks in the order of their ids, the one with the least id that is picked
is picked first. -/
theorem filter_eq_cons_of_least {F : Task → Bool} (hsorted : tasks.Pairwise fun t u => t.id < u.id)
    (ht : t ∈ tasks) (hF : F t = true) (hleast : ∀ u ∈ tasks, F u = true → t.id ≤ u.id) :
    ∃ later, tasks.filter F = t :: later := by
  have hmem : t ∈ tasks.filter F := List.mem_filter.mpr ⟨ht, hF⟩
  have hpicked := hsorted.filter F
  cases hf : tasks.filter F with
  | nil => rw [hf] at hmem; cases hmem
  | cons u later =>
    have hu : u ∈ tasks.filter F := by rw [hf]; exact List.mem_cons_self
    have hle := hleast u (List.mem_filter.mp hu).1 (List.mem_filter.mp hu).2
    rw [hf] at hmem hpicked
    cases hmem with
    | head => exact ⟨later, rfl⟩
    | tail _ hlater =>
      have hlt := List.rel_of_pairwise_cons hpicked hlater
      omega

theorem transferTicks_eq_sum (tasks : List Task) :
    transferTicks tasks = (tasks.map Task.ticks).sum := by
  induction tasks with
  | nil => rfl
  | cons t ts ih =>
    rw [List.map_cons, List.sum_cons, ← ih]
    rfl

theorem validate_eq_ok_iff : c.validate = .ok () ↔ 0 < c.maxTasks ∧ 0 < c.maxTransferTicks := by
  unfold Config.validate
  split
  · simp; omega
  · split <;> simp <;> omega

theorem planTasks_eq (b : Bus) (rest : Durations.Source) (tasks : List Task) :
    planTasks b rest tasks =
      if Word.size ≤ transferTicks tasks then .fault rest .ticksOverflow
      else if b.poisoned then .fault rest (.bus .poisoned)
      else .done rest (.start tasks (transferTicks tasks) b.stats.blocked) := by
  rw [planTasks, Bus.readStats, Bus.read]
  cases b.poisoned <;> rfl

theorem plan_of_admissible (hvalid : c.validate = .ok ()) (hpos : 0 < counts.total)
    (hlimit : counts.total ≤ c.maxTasks) : plan b counts c source =
      ((buildTasks counts 0 c.maxTransferTicks source).within id .build).andThen
        (planTasks b) := by
  rw [plan, hvalid]
  dsimp only
  rw [if_neg (Nat.not_lt_of_le hlimit), if_neg hpos.ne']

theorem plan_of_built (hvalid : c.validate = .ok ()) (hpos : 0 < counts.total)
    (hlimit : counts.total ≤ c.maxTasks)
    (hbuild : buildTasks counts 0 c.maxTransferTicks source = .done rest tasks) :
    plan b counts c source = planTasks b rest tasks := by
  rw [plan_of_admissible hvalid hpos hlimit, hbuild]
  rfl

theorem plan_eq_start (hvalid : c.validate = .ok ()) (hpos : 0 < counts.total)
    (hlimit : counts.total ≤ c.maxTasks)
    (hbuild : buildTasks counts 0 c.maxTransferTicks source = .done rest tasks)
    (hticks : transferTicks tasks < Word.size) (hu : b.poisoned = false) :
    plan b counts c source =
      .done rest (.start tasks (transferTicks tasks) b.stats.blocked) := by
  rw [plan_of_built hvalid hpos hlimit hbuild, planTasks_eq, if_neg (Nat.not_le_of_lt hticks), hu,
    if_neg Bool.false_ne_true]

theorem of_plan_start {ticks blockedBefore : Nat}
    (h : plan b counts c source = .done rest (.start tasks ticks blockedBefore)) :
    0 < counts.sum ∧ buildTasks counts 0 c.maxTransferTicks source = .done rest tasks ∧
    b.poisoned = false := by
  revert h
  fun_cases plan b counts c source with
  | case4 _ _ hsome =>
    intro h
    have hmin := counts.total_eq_min
    obtain ⟨left, built, hwithin, hplan⟩ := Outcome.andThen_eq_done_iff.mp h
    obtain ⟨_, hbuild, rfl⟩ := Outcome.within_eq_done_iff.mp hwithin
    rw [planTasks_eq] at hplan
    split at hplan
    · cases hplan
    · split at hplan
      · cases hplan
      · next hsound =>
        cases hplan
        exact ⟨by omega, hbuild, eq_false_of_ne_true hsound⟩
  | _ => rintro ⟨⟩

end HalfDuplex.Batch
