import HalfDuplex.Proofs.Batch.Completion
import Mathlib.Data.List.Nodup

/-!
# The names of workers

A worker is named after the lane and the id of its task. The last dash in a name parts the
two, for there is none among the digits of an id, so a name stands for one lane and one id.
No two workers of a batch have the same name, and a batch that is reported failed names
one of its tasks: the first of those whose workers failed.
-/

namespace HalfDuplex

variable {t u : Task} {l m : Lane} {stem stem' digits digits' : List Char}

/-- Texts are parted at the last of their dashes in one way only. -/
theorem append_dash_inj (h : '-' ∉ digits) (h' : '-' ∉ digits') :
    stem ++ '-' :: digits = stem' ++ '-' :: digits' ↔ stem = stem' ∧ digits = digits' := by
  constructor
  · -- If one stem went on after the other, its dash would be among the digits of the other.
    intro heq
    obtain ⟨more, rfl, hmore⟩ | ⟨more, rfl, hmore⟩ := List.append_eq_append_iff.mp heq
    · cases more with
      | nil =>
        cases hmore
        exact ⟨(List.append_nil stem).symm, rfl⟩
      | cons _ more =>
        cases hmore
        exact absurd (List.mem_append_right more List.mem_cons_self) h
    · cases more with
      | nil =>
        cases hmore
        exact ⟨List.append_nil stem', rfl⟩
      | cons _ more =>
        cases hmore
        exact absurd (List.mem_append_right more List.mem_cons_self) h'
  · rintro ⟨rfl, rfl⟩
    rfl

theorem dash_not_mem_toDigits (n : Nat) : '-' ∉ Nat.toDigits 10 n := by
  intro h
  have hdigit : '-'.isDigit = true := Nat.isDigit_of_mem_toDigits (by decide) (Nat.le_refl 10) h
  exact absurd hdigit (by decide)

theorem toDigits_injective : Function.Injective (Nat.toDigits 10) := by
  have hread : Function.LeftInverse (Nat.ofDigitChars 10 · 0) (Nat.toDigits 10) :=
    fun _ => Nat.ofDigitChars_ten_toDigits
  exact hread.injective

theorem Lane.workerStem_inj : l.workerStem = m.workerStem ↔ l = m := by
  rcases l with ⟨_ | _, _ | _⟩ <;> rcases m with ⟨_ | _, _ | _⟩ <;> decide

theorem Task.toList_workerName (t : Task) :
    t.workerName.toList = t.lane.workerStem.toList ++ '-' :: Nat.toDigits 10 t.id := by
  change (t.lane.workerStem ++ "-" ++ t.id.repr).toList = _
  rw [String.toList_append, String.toList_append, List.append_assoc, Nat.toList_repr]
  rfl

theorem Task.workerName_eq_iff : t.workerName = u.workerName ↔ t.lane = u.lane ∧ t.id = u.id := by
  rw [← String.toList_inj, toList_workerName, toList_workerName,
    append_dash_inj (dash_not_mem_toDigits _) (dash_not_mem_toDigits _), String.toList_inj,
    Lane.workerStem_inj, toDigits_injective.eq_iff]

namespace Batch

open Crew

variable {b : Bus} {counts : Counts} {c : Config} {source rest : Durations.Source}
  {tasks : List Task} {F : Task → Bool} {acts : List (Nat × Phase)} {d : Crew} {name : String}
  {firstId maxTicks ticks blockedBefore : Nat}

theorem map_name_workers (c : Config) (givesUp : String → Bool) (tasks : List Task) :
    (workers c givesUp tasks).map Worker.name = tasks.map Task.workerName := by
  rw [workers, List.map_map]
  rfl

theorem nodup_workerName (h : (tasks.map Task.id).Nodup) : (tasks.map Task.workerName).Nodup := by
  have hids := List.pairwise_map.mp h
  exact List.pairwise_map.mpr (hids.imp fun hne heq => hne (Task.workerName_eq_iff.mp heq).2)

theorem named_after_task (hr : Runs (crewFailing b c F tasks) acts d) :
    ∀ w ∈ d.workers, w.task ∈ tasks ∧ w.name = w.task.workerName := by
  intro w hw
  have hanew := List.mem_map_of_mem (f := Worker.anew) hw
  rw [hr.map_anew_eq] at hanew
  obtain ⟨v, hv, hvw⟩ := List.mem_map.mp hanew
  obtain ⟨t, ht, rfl⟩ := List.mem_map.mp hv
  have htask : t = w.task := congrArg Worker.task hvw
  have hname : t.workerName = w.name := congrArg Worker.name hvw
  rw [← htask]
  exact ⟨ht, hname.symm⟩

/-- The name is that of one task, whose worker is the first one that failed. -/
structure Blames (tasks : List Task) (d : Crew) (name : String) (t : Task) : Prop where
  mem : t ∈ tasks
  only : ∀ u ∈ tasks, u.workerName = name ↔ u = t
  failed : ∃ w ∈ d.workers, w.task = t ∧ w.name = name ∧ w.isFailed = true
  first : ∀ w ∈ d.workers, w.isFailed = true → t.id ≤ w.task.id

theorem failedWorkers_of_conclude
    (h : conclude d ticks blockedBefore = .ok (.error (.workerFailed name))) :
    ∃ later, failedWorkers d.workers = name :: later := by
  unfold conclude at h
  split at h
  · next later hfailed =>
    cases h
    exact ⟨later, hfailed⟩
  · split at h <;> cases h

theorem blames_of_conclude
    (hbuild : buildTasks counts firstId maxTicks source = .done rest tasks)
    (hr : Runs (crewFailing b c F tasks) acts d)
    (h : conclude d ticks blockedBefore = .ok (.error (.workerFailed name))) :
    ∃ t, Blames tasks d name t := by
  obtain ⟨later, hfailed⟩ := failedWorkers_of_conclude h
  obtain ⟨w, others, hpicked, rfl, -⟩ := List.map_eq_cons_iff.mp hfailed
  obtain ⟨hw, hwfailed⟩ := List.mem_filter.mp (hpicked ▸ List.mem_cons_self)
  obtain ⟨ht, hname⟩ := named_after_task hr w hw
  refine ⟨w.task, ht, fun u hu => ?_, ⟨w, hw, rfl, rfl, hwfailed⟩, fun v hv hvfailed => ?_⟩
  · rw [hname]
    constructor
    · intro heq
      exact List.inj_on_of_nodup_map (nodup_workerName (nodup_id_buildTasks hbuild)) hu ht heq
    · rintro rfl
      rfl
  · have hsorted := pairwise_id_lt (map_id_buildTasks hbuild)
    rw [← map_task_crewFailing b c F tasks, ← hr.map_task_eq, List.pairwise_map] at hsorted
    have hlater := hsorted.filter Worker.isFailed
    have hmem := List.mem_filter.mpr ⟨hv, hvfailed⟩
    rw [hpicked] at hmem hlater
    obtain rfl | hothers := List.mem_cons.mp hmem
    · exact Nat.le_refl _
    · exact (List.rel_of_pairwise_cons hlater hothers).le

/-- Two tasks have workers of the same name if and only if they have the same lane and the
same id. So no two workers of a batch have the same name, and if a batch is reported
failed, whatever the order of its workers' steps and whoever failed, the name in the report
is that of exactly one of its tasks: the first one whose worker failed. -/
theorem names_tell_tasks_apart :
    (∀ t u : Task, t.workerName = u.workerName ↔ t.lane = u.lane ∧ t.id = u.id) ∧
    (∀ counts firstId maxTicks source rest tasks,
      buildTasks counts firstId maxTicks source = .done rest tasks →
      ∀ c givesUp, ((workers c givesUp tasks).map Worker.name).Nodup) ∧
    ∀ b counts c source rest tasks ticks blockedBefore F acts d name,
      plan b counts c source = .done rest (.start tasks ticks blockedBefore) →
      Runs (crewFailing b c F tasks) acts d →
      conclude d ticks blockedBefore = .ok (.error (.workerFailed name)) →
      ∃ t, Blames tasks d name t := by
  refine ⟨fun t u => Task.workerName_eq_iff, ?_, ?_⟩
  · intro counts firstId maxTicks source rest tasks hbuild c givesUp
    rw [map_name_workers]
    exact nodup_workerName (nodup_id_buildTasks hbuild)
  · intro b counts c source rest tasks ticks blockedBefore F acts d name hplan hr hfailed
    obtain ⟨-, hbuild, -⟩ := of_plan_start hplan
    exact blames_of_conclude hbuild hr hfailed

/-- Two tasks of one direction, and the workers of both give up. -/
theorem names_tell_tasks_apart_of_one_direction :
    ∃ rest tasks acts d,
      buildTasks (Counts.ofSpawnOrder 1 0 1 0) 0 244 (.constant 3) = .done rest tasks ∧
      plan (Bus.fresh ⟨2, true⟩) (Counts.ofSpawnOrder 1 0 1 0) {} (.constant 3) =
        .done rest (.start tasks 6 0) ∧
      Runs (crewFailing (Bus.fresh ⟨2, true⟩) {} (fun _ => true) tasks) acts d ∧
      acts.map Prod.fst = [1, 1, 0, 0] ∧
      conclude d 6 0 = .ok (.error (.workerFailed "sender-prio-0")) ∧
      ((workers {} (fun _ => true) tasks).map Worker.name).Nodup ∧
      Blames tasks d "sender-prio-0" ⟨0, .priority .send, 3⟩ := by
  have hbuild : buildTasks (Counts.ofSpawnOrder 1 0 1 0) 0 244 (.constant 3) =
      .done (.fixed ⟨[3], 2, by decide⟩) [⟨0, .priority .send, 3⟩, ⟨1, .normal .send, 3⟩] := rfl
  have hplan : plan (Bus.fresh ⟨2, true⟩) (Counts.ofSpawnOrder 1 0 1 0) {} (.constant 3) =
      .done (.fixed ⟨[3], 2, by decide⟩)
        (.start [⟨0, .priority .send, 3⟩, ⟨1, .normal .send, 3⟩] 6 0) := rfl
  have hr : Runs (start (Bus.fresh ⟨2, true⟩)
      [⟨"sender-prio-0", ⟨0, .priority .send, 3⟩, 3000000, true, .starting⟩,
        ⟨"sender-1", ⟨1, .normal .send, 3⟩, 3000000, true, .starting⟩]) _ _ :=
    .snoc 0 (.snoc 0 (.snoc 1 (.snoc 1 .nil rfl rfl) rfl rfl) rfl rfl) rfl rfl
  have hcrew : crewFailing (Bus.fresh ⟨2, true⟩) {} (fun _ => true)
      [⟨0, .priority .send, 3⟩, ⟨1, .normal .send, 3⟩] = start (Bus.fresh ⟨2, true⟩)
        [⟨"sender-prio-0", ⟨0, .priority .send, 3⟩, 3000000, true, .starting⟩,
          ⟨"sender-1", ⟨1, .normal .send, 3⟩, 3000000, true, .starting⟩] := rfl
  rw [← hcrew] at hr
  obtain ⟨-, hnodup, hreport⟩ := names_tell_tasks_apart
  obtain ⟨t, hblames⟩ := hreport _ _ _ _ _ _ _ _ _ _ _ "sender-prio-0" hplan hr rfl
  obtain rfl : ⟨0, .priority .send, 3⟩ = t :=
    (hblames.only _ List.mem_cons_self).mp rfl
  exact ⟨_, _, _, _, hbuild, hplan, hr, rfl, rfl, hnodup _ _ _ _ _ _ hbuild {} _, hblames⟩

end Batch

end HalfDuplex
