import HalfDuplex.Proofs.Batch.Building
import HalfDuplex.Proofs.Crew.Completion
import HalfDuplex.Proofs.Crew.Finish

/-!
# Running a batch to its end

A valid batch within the limit is started on a bus at rest, and it ends whatever
the order of the steps and whoever gives up in mid-transfer. The bus is at rest
again, and the batch is reported failed by the first of its tasks whose worker
gave up, or else it reports what it did.
-/

namespace HalfDuplex.Batch

open Crew

variable {b : Bus} {cap : Nat} {past es : List Event} {c : Config} {counts : Counts}
  {source rest : Durations.Source} {tasks : List Task} {t : Task} {F : Task → Bool}
  {acts : List (Nat × Phase)} {d : Crew} {ticks blockedBefore : Nat}

/-- The crew that runs `tasks` on a bus; the workers of those in `F` give up. -/
def crewFailing (b : Bus) (c : Config) (F : Task → Bool) (tasks : List Task) : Crew :=
  Crew.start b (tasks.map fun t => worker c (fun _ => F t) t.workerName t)

theorem crew_eq_crewFailing (b : Bus) (c : Config) (givesUp : String → Bool) (tasks : List Task) :
    crew b c givesUp tasks = crewFailing b c (fun t => givesUp t.workerName) tasks := rfl

theorem phase_crewFailing (b : Bus) (c : Config) (F : Task → Bool) (tasks : List Task) :
    ∀ w ∈ (crewFailing b c F tasks).workers, w.phase = .starting := by
  intro w hw
  obtain ⟨t, -, rfl⟩ := List.mem_map.mp hw
  rfl

theorem map_task_crewFailing (b : Bus) (c : Config) (F : Task → Bool) (tasks : List Task) :
    (crewFailing b c F tasks).workers.map Worker.task = tasks := by
  change (tasks.map _).map Worker.task = tasks
  rw [List.map_map]
  exact List.map_id tasks

theorem length_crewFailing (b : Bus) (c : Config) (F : Task → Bool) (tasks : List Task) :
    (crewFailing b c F tasks).workers.length = tasks.length :=
  List.length_map _

theorem ready_crewFailing (hc : 0 < cap) (hcap : cap < Word.size) (hrest : b.AtRest cap)
    (hblocked : b.stats.blocked + tasks.length < Word.size)
    (hadmitted : b.stats.admitted + tasks.length < Word.size) :
    (crewFailing b c F tasks).Ready := by
  rw [← length_crewFailing b c F tasks] at hblocked hadmitted
  exact ready_of_atRest hrest hc hcap (phase_crewFailing b c F tasks) hblocked hadmitted

theorem completed_crewFailing (hc : 0 < cap) (hcap : cap < Word.size) (hrest : b.AtRest cap)
    (htrace : b.trace = some past) (hids : (tasks.map Task.id).Nodup)
    (hblocked : b.stats.blocked + tasks.length < Word.size)
    (hadmitted : b.stats.admitted + tasks.length < Word.size)
    (hr : Runs (crewFailing b c F tasks) acts d) (hstop : ∀ i, d.step? i = none) :
    ∃ es, Completed b cap past tasks d es := by
  rw [← length_crewFailing b c F tasks] at hblocked hadmitted
  have hapart :
      (((crewFailing b c F tasks).workers : Multiset Worker).map fun w => w.task.id).Nodup := by
    rw [Multiset.map_coe, Multiset.coe_nodup]
    change ((crewFailing b c F tasks).workers.map (Task.id ∘ Worker.task)).Nodup
    rw [← List.map_map, map_task_crewFailing]
    exact hids
  obtain ⟨es, hdone⟩ := completed_of_maximal hrest htrace hc hcap (phase_crewFailing b c F tasks)
    hapart hblocked hadmitted hr hstop
  rw [map_task_crewFailing] at hdone
  exact ⟨es, hdone⟩

theorem failedWorkers_crewFailing (hr : Runs (crewFailing b c F tasks) acts d)
    (hover : ∀ w ∈ d.workers, w.phase.isOver = true) :
    failedWorkers d.workers = (tasks.filter F).map Task.workerName := by
  have hsuits : ∀ w ∈ (crewFailing b c F tasks).workers, w.phase.suits w.givesUp = true := by
    intro w hw
    rw [phase_crewFailing b c F tasks w hw]
    rfl
  rw [hr.failedWorkers_eq hsuits hover]
  change ((tasks.map _).filter Worker.givesUp).map Worker.name = _
  rw [List.filter_map, List.map_map]
  rfl

theorem conclude_of_fails (hr : Runs (crewFailing b c F tasks) acts d)
    (hover : ∀ w ∈ d.workers, w.phase.isOver = true)
    (hsorted : tasks.Pairwise fun t u => t.id < u.id) (ht : t ∈ tasks) (hF : F t = true)
    (hleast : ∀ u ∈ tasks, F u = true → t.id ≤ u.id) :
    conclude d ticks blockedBefore = .ok (.error (.workerFailed t.workerName)) := by
  obtain ⟨later, hlater⟩ := filter_eq_cons_of_least hsorted ht hF hleast
  rw [conclude, failedWorkers_crewFailing hr hover, hlater]
  rfl

theorem conclude_of_sound (hr : Runs (crewFailing b c F tasks) acts d)
    (hover : ∀ w ∈ d.workers, w.phase.isOver = true) (hu : d.bus.poisoned = false)
    (hnone : ∀ t ∈ tasks, F t = false) :
    conclude d ticks blockedBefore = .ok (.ok {
      tasks := tasks.length
      transferTicks := ticks
      elapsed := Span.ofNanos d.clock
      peakOnBus := d.bus.stats.peakOnBus
      blocked := d.bus.stats.blocked - blockedBefore }) := by
  have hempty : tasks.filter F = [] :=
    List.filter_eq_nil_iff.mpr fun t ht => by simp [hnone t ht]
  have hstats : d.bus.readStats = .ok d.bus.stats := Bus.readStats_eq_ok_iff.mpr ⟨hu, rfl⟩
  have hlength : d.workers.length = tasks.length := by
    have hlen := congrArg List.length hr.map_task_eq
    rw [map_task_crewFailing, List.length_map] at hlen
    exact hlen
  rw [conclude, failedWorkers_crewFailing hr hover, hempty, List.map_nil, hstats]
  dsimp only
  rw [hlength]

theorem conclude_of_nobody_fails (hr : Runs (crewFailing b c F tasks) acts d)
    (hdone : Completed b cap past tasks d es) (hnone : ∀ t ∈ tasks, F t = false) :
    conclude d ticks b.stats.blocked = .ok (.ok {
      tasks := tasks.length
      transferTicks := ticks
      elapsed := Span.ofNanos d.clock
      peakOnBus := d.bus.stats.peakOnBus
      blocked := es.countP Event.isQueued }) := by
  rw [conclude_of_sound hr hdone.all_over hdone.atRest.unpoisoned hnone, hdone.blocked_eq,
    Nat.add_sub_cancel_left]

theorem run_completed (hc : 0 < cap) (hcap : cap < Word.size) (hrest : b.AtRest cap)
    (htrace : b.trace = some past) (hblocked : b.stats.blocked + counts.total < Word.size)
    (hadmitted : b.stats.admitted + counts.total < Word.size) (hvalid : c.validate = .ok ())
    (hpos : 0 < counts.total) (hlimit : counts.total ≤ c.maxTasks)
    (hbuild : buildTasks counts 0 c.maxTransferTicks source = .done rest tasks)
    (hticks : transferTicks tasks < Word.size) (givesUp : String → Bool) :
    ∃ d es, Completed b cap past tasks d es ∧
      run b counts c source givesUp =
        .ofCrew counts rest d (transferTicks tasks) b.stats.blocked ∧
      failedWorkers d.workers = (tasks.map Task.workerName).filter givesUp := by
  have hnodup := nodup_id_buildTasks hbuild
  rw [← length_buildTasks hbuild] at hblocked hadmitted
  have hplan := plan_eq_start hvalid hpos hlimit hbuild hticks hrest.unpoisoned
  have hready := ready_crewFailing (c := c) (F := fun t => givesUp t.workerName) hc hcap hrest
    hblocked hadmitted
  obtain ⟨acts, hr, hstop⟩ := hready.finish
  obtain ⟨es, hdone⟩ :=
    completed_crewFailing hc hcap hrest htrace hnodup hblocked hadmitted hr hstop
  refine ⟨_, es, hdone, ?_, ?_⟩
  · rw [run_of_start hplan, crew_eq_crewFailing]
  · rw [failedWorkers_crewFailing hr hdone.all_over, List.filter_map]
    rfl

/-- The tasks of a valid batch within the limit can be built if there is room for them and
for their draws. Tasks that were built are started on a traced bus at rest if their
durations fit a word. Whatever the order of their workers' steps and whichever of them
give up, they do not go on for ever. When nobody can go on, everybody has left, the bus is
at rest again and has counted every task, and the events of the batch check by themselves:
each task has boarded once and left once. The first of the tasks whose workers gave up is
reported; if there is none, the batch reports its tasks, their ticks and how many of them
queued. -/
theorem runs_to_completion (hc : 0 < cap) (hcap : cap < Word.size) (hrest : b.AtRest cap)
    (htrace : b.trace = some past) (hblocked : b.stats.blocked + counts.total < Word.size)
    (hadmitted : b.stats.admitted + counts.total < Word.size) (hvalid : c.validate = .ok ())
    (hpos : 0 < counts.total) (hlimit : counts.total ≤ c.maxTasks) :
    (counts.total < roomLimit → source.HasRoom counts.total →
      ∃ rest tasks, buildTasks counts 0 c.maxTransferTicks source = .done rest tasks) ∧
    ∀ rest tasks, buildTasks counts 0 c.maxTransferTicks source = .done rest tasks →
      tasks.length = counts.total ∧
      (transferTicks tasks < Word.size →
        plan b counts c source =
          .done rest (.start tasks (transferTicks tasks) b.stats.blocked) ∧
        ∀ F : Task → Bool,
          (∀ f : Nat → Crew, f 0 = crewFailing b c F tasks →
            ¬ ∀ n, ∃ i, (f n).step? i = some (f (n + 1))) ∧
          ∀ acts d, Runs (crewFailing b c F tasks) acts d → (∀ i, d.step? i = none) →
            ∃ es, Completed b cap past tasks d es ∧
              (∀ t ∈ tasks, F t = true → (∀ u ∈ tasks, F u = true → t.id ≤ u.id) →
                conclude d (transferTicks tasks) b.stats.blocked =
                  .ok (.error (.workerFailed t.workerName))) ∧
              ((∀ t ∈ tasks, F t = false) → ∃ report,
                conclude d (transferTicks tasks) b.stats.blocked = .ok (.ok report) ∧
                report.tasks = counts.total ∧
                report.transferTicks = (tasks.map Task.ticks).sum ∧
                report.blocked = es.countP Event.isQueued)) := by
  refine ⟨fun hfew hroom => ?_, fun rest tasks hbuild => ⟨length_buildTasks hbuild, fun hticks =>
    ⟨plan_eq_start hvalid hpos hlimit hbuild hticks hrest.unpoisoned, fun F => ?_⟩⟩⟩
  · have hlimit' := total_lt_roomLimit_iff.mp hfew
    rw [Counts.total_eq_sum hlimit'] at hroom
    exact buildTasks_eq_done (validate_eq_ok_iff.mp hvalid).2 hlimit'
      (Counts.zero_add_sum_le hlimit') hroom
  rw [← length_buildTasks hbuild] at hblocked hadmitted ⊢
  refine ⟨(ready_crewFailing hc hcap hrest hblocked hadmitted).no_endless_run, ?_⟩
  intro acts d hr hstop
  obtain ⟨es, hdone⟩ := completed_crewFailing hc hcap hrest htrace (nodup_id_buildTasks hbuild)
    hblocked hadmitted hr hstop
  refine ⟨es, hdone, ?_, ?_⟩
  · intro t ht hF hleast
    exact conclude_of_fails hr hdone.all_over (pairwise_id_lt (map_id_buildTasks hbuild)) ht hF
      hleast
  · intro hnone
    exact ⟨_, conclude_of_nobody_fails hr hdone hnone, rfl, transferTicks_eq_sum tasks, rfl⟩

def usedOnce : Bus :=
  { Bus.fresh ⟨1, true⟩ with
    stats := ⟨0, 1, 1⟩
    trace := some [.boarded 7 (.normal .receive) false, .left 7 (.normal .receive)] }

/-- Both workers give up, the second one first; the first one has waited for it. -/
theorem runs_to_completion_both_giving_up :
    ∃ tasks acts d es, usedOnce.AtRest 1 ∧ tasks.length = 2 ∧
      Runs (crewFailing usedOnce {} (fun _ => true) tasks) acts d ∧
      acts.map Prod.fst = [1, 0, 1, 0, 0, 0] ∧
      Completed usedOnce 1 (usedOnce.trace.getD []) tasks d es ∧
      conclude d (transferTicks tasks) usedOnce.stats.blocked =
        .ok (.error (.workerFailed "sender-prio-0")) := by
  have hcrew : crewFailing usedOnce {} (fun _ => true)
      [⟨0, .priority .send, 3⟩, ⟨1, .priority .receive, 3⟩] = start usedOnce
        [⟨"sender-prio-0", ⟨0, .priority .send, 3⟩, 3000000, true, .starting⟩,
          ⟨"receiver-prio-1", ⟨1, .priority .receive, 3⟩, 3000000, true, .starting⟩] := rfl
  have hr : Runs (start usedOnce
      [⟨"sender-prio-0", ⟨0, .priority .send, 3⟩, 3000000, true, .starting⟩,
        ⟨"receiver-prio-1", ⟨1, .priority .receive, 3⟩, 3000000, true, .starting⟩]) _ _ :=
    .snoc 0 (.snoc 0 (.snoc 0 (.snoc 1 (.snoc 0 (.snoc 1 .nil rfl rfl) rfl rfl) rfl rfl) rfl rfl)
      rfl rfl) rfl rfl
  rw [← hcrew] at hr
  have hrest : usedOnce.AtRest 1 := ⟨rfl, rfl, rfl, rfl⟩
  obtain ⟨hbuilds, hstarts⟩ :=
    @runs_to_completion usedOnce 1 _ {} (Counts.ofSpawnOrder 1 1 0 0)
      (Durations.Source.constant 3) (by decide) (by decide) hrest rfl (by decide) (by decide) rfl
      (by decide) (by decide)
  obtain ⟨rest, tasks, hbuild⟩ := hbuilds (by decide) (.inr (by decide))
  obtain rfl : [⟨0, .priority .send, 3⟩, ⟨1, .priority .receive, 3⟩] = tasks := by
    cases hbuild
    rfl
  obtain ⟨-, hruns⟩ := hstarts rest _ hbuild
  obtain ⟨-, hfailing⟩ := hruns (by decide)
  obtain ⟨-, hends⟩ := hfailing fun _ => true
  obtain ⟨es, hdone, hnamed, -⟩ := hends _ _ hr fun i => by
    rcases i with _ | _ | i <;> rfl
  exact ⟨_, _, _, es, hrest, rfl, hr, rfl, hdone,
    hnamed ⟨0, .priority .send, 3⟩ (by decide) rfl (by decide)⟩

end HalfDuplex.Batch
