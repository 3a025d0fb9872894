import HalfDuplex.Proofs.Batch.Deciding
import Mathlib.Algebra.Order.BigOperators.Group.List

/-!
# Batches in which nobody gives up

A batch with settings under which neither the list of its tasks nor the sum of their
durations can grow too large is refused, or has no tasks, or is started. If it is
started on a fresh bus and nobody gives up, it reports well in whatever order its
workers take their steps, and the trace of the bus checks.
-/

namespace HalfDuplex.Batch

open Crew

variable {b : Bus} {counts : Counts} {c : Config} {source rest : Durations.Source}
  {tasks : List Task} {maxTicks firstId : Nat} {ls : List Lane} {cfg : Bus.Config} {r : Finished}
  {acts : List (Nat × Phase)} {d : Crew} {ticks blockedBefore : Nat}

/-- The worker has left the bus, or has broken off. -/
def Ended (w : Worker) : Prop := w.phase = .finished ∨ ∃ f, w.phase = .failed f

/-- How a batch in which nobody gives up comes out: if it is started, its workers take
their steps in some order until all of them have ended. -/
inductive Comes (b : Bus) (counts : Counts) (c : Config) (source : Durations.Source) :
    Finished → Prop where
  | faulted {rest : Durations.Source} {f : Fault} : plan b counts c source = .fault rest f →
    Comes b counts c source (.unstarted b rest (.error f))
  | refused {rest : Durations.Source} {refusal : Refusal} :
    plan b counts c source = .done rest (.refuse refusal) →
    Comes b counts c source (.unstarted b rest (.ok (.error refusal)))
  | empty {rest : Durations.Source} : plan b counts c source = .done rest .nothing →
    Comes b counts c source (.unstarted b rest (.ok (.ok Report.zero)))
  | ran {rest : Durations.Source} {tasks : List Task} {ticks blockedBefore : Nat}
      {acts : List (Nat × Phase)} {d : Crew} :
    plan b counts c source = .done rest (.start tasks ticks blockedBefore) →
    Runs (crew b c (fun _ => false) tasks) acts d → (∀ w ∈ d.workers, Ended w) →
    Comes b counts c source (.ofCrew counts rest d ticks blockedBefore)

/-- How such a batch could fail to come to an end. -/
inductive Lingers (b : Bus) (counts : Counts) (c : Config) (source : Durations.Source) : Prop where
  /-- A draw looks for ever for a word that is accepted. -/
  | draw (k : Nat) : ¬ (source.drawn c.maxTransferTicks k).Ends c.maxTransferTicks →
    Lingers b counts c source
  | blocked {rest : Durations.Source} {tasks : List Task} {ticks blockedBefore : Nat}
      {acts : List (Nat × Phase)} {d : Crew} {w : Worker} :
    plan b counts c source = .done rest (.start tasks ticks blockedBefore) →
    Runs (crew b c (fun _ => false) tasks) acts d → (∀ i, d.step? i = none) →
    w ∈ d.workers → ¬ Ended w → Lingers b counts c source
  | endless {rest : Durations.Source} {tasks : List Task} {ticks blockedBefore : Nat}
      {f : Nat → Crew} : plan b counts c source = .done rest (.start tasks ticks blockedBefore) →
    f 0 = crew b c (fun _ => false) tasks → (∀ n, ∃ i, (f n).step? i = some (f (n + 1))) →
    Lingers b counts c source

theorem ended_of_isOver {w : Worker} (h : w.phase.isOver = true) : Ended w := by
  cases hp : w.phase with
  | finished => exact .inl hp
  | failed f => exact .inr ⟨f, hp⟩
  | _ => rw [hp] at h; cases h

theorem step?_eq_none_of_ended (h : ∀ w ∈ d.workers, Ended w) (i : Nat) : d.step? i = none := by
  unfold step?
  cases hi : d.workers[i]? with
  | none => rfl
  | some w =>
    dsimp only
    obtain hp | ⟨f, hp⟩ := h w (List.mem_of_getElem? hi) <;> rw [hp]

theorem ticks_lt_of_assign (hs : source.Live) (hword : maxTicks < Word.size)
    (h : assign maxTicks firstId ls source = .done rest tasks) :
    ∀ t ∈ tasks, t.ticks < maxTicks := by
  induction ls generalizing firstId source tasks with
  | nil =>
    cases h
    exact fun t ht => by cases ht
  | cons l ls ih =>
    obtain ⟨next, ticks, later, -, hnext, hlater, rfl⟩ := assign_cons h
    have hlive := hs.next hword
    rw [hnext] at hlive
    exact List.forall_mem_cons.mpr ⟨hs.next_lt hword hnext, ih hlive hlater⟩

/-- Settings under which a request within the limit can always be started. -/
structure Moderate (c : Config) : Prop where
  maxTasks_pos : 0 < c.maxTasks
  maxTransferTicks_pos : 0 < c.maxTransferTicks
  maxTransferTicks_lt : c.maxTransferTicks < Word.size
  room : c.maxTasks < roomLimit
  ticks_lt : c.maxTasks * c.maxTransferTicks < Word.size

/-- A source that has room for its draws, each of which comes to an end. -/
structure Ample (counts : Counts) (source : Durations.Source) : Prop where
  live : source.Live
  room : source.HasRoom counts.sum

theorem Moderate.sum_ticks_lt (hc : Moderate c) (hs : source.Live)
    (hmany : tasks.length ≤ c.maxTasks)
    (hbuild : buildTasks counts 0 c.maxTransferTicks source = .done rest tasks) :
    (tasks.map Task.ticks).sum < Word.size := by
  have hbound : ∀ n ∈ tasks.map Task.ticks, n ≤ c.maxTransferTicks := by
    intro n hn
    obtain ⟨t, ht, rfl⟩ := List.mem_map.mp hn
    have hassign := (buildTasks_eq_done_iff.mp hbuild).2
    exact (ticks_lt_of_assign hs hc.maxTransferTicks_lt hassign t ht).le
  have hsum := List.sum_le_card_nsmul _ _ hbound
  rw [List.length_map, smul_eq_mul] at hsum
  exact hsum.trans_lt ((Nat.mul_le_mul_right _ hmany).trans_lt hc.ticks_lt)

theorem Moderate.plan_cases (hc : Moderate c) (hs : Ample counts source)
    (hu : b.poisoned = false) :
    (c.maxTasks < counts.sum ∧ ∃ refusal,
      plan b counts c source = .done source (.refuse refusal)) ∨
    (counts.sum = 0 ∧ plan b counts c source = .done source .nothing) ∨
    0 < counts.sum ∧ counts.sum ≤ c.maxTasks ∧ ∃ rest tasks,
      plan b counts c source =
        .done rest (.start tasks (transferTicks tasks) b.stats.blocked) ∧
      tasks.length = counts.sum ∧ (tasks.map Task.id).Nodup := by
  have hvalid : c.validate = .ok () :=
    validate_eq_ok_iff.mpr ⟨hc.maxTasks_pos, hc.maxTransferTicks_pos⟩
  have hlargest : c.maxTasks < Word.largest := hc.room.trans_le roomLimit_le
  by_cases hmany : c.maxTasks < counts.sum
  · exact .inl ⟨hmany, _, plan_of_too_many b source hvalid ((lt_requested_iff hlargest).mpr hmany)⟩
  have hlimit : requested counts ≤ c.maxTasks :=
    Nat.le_of_not_lt fun h => hmany ((lt_requested_iff hlargest).mp h)
  rw [not_lt] at hmany
  obtain hempty | hpos := Nat.eq_zero_or_pos counts.sum
  · exact .inr (.inl ⟨hempty, plan_of_empty b source hvalid hempty⟩)
  obtain ⟨rest, tasks, hbuild, hids, -⟩ :=
    exists_built hc.maxTransferTicks_pos (hmany.trans_lt hc.room) hs.room
  have hlength : tasks.length = counts.sum := by
    rw [← List.length_map (f := Task.id), hids, List.length_range]
  have hticks := hc.sum_ticks_lt hs.live (hlength.trans_le hmany) hbuild
  have hplan := plan_of_tasks (b := b) hvalid hpos hlimit hbuild
  rw [if_neg (Nat.not_le_of_lt hticks), hu, if_neg Bool.false_ne_true] at hplan
  exact .inr (.inr ⟨hpos, hmany, rest, tasks, hplan, hlength, nodup_id_buildTasks hbuild⟩)

/-- The batch reports, it has left the bus sound, and its trace checks and is short. -/
structure ReportsWell (cfg : Bus.Config) (n : Nat) (r : Finished) : Prop where
  reports : ∃ report, r.result = .ok (.ok report)
  unpoisoned : r.bus.poisoned = false
  checks : cfg.recordTrace = true → ∃ events summary, r.bus.trace = some events ∧
    r.bus.arbiter.capacity = cfg.capacity ∧ Trace.check cfg.capacity events = .ok summary ∧
    events.length ≤ 20 * n

theorem reportsWell_fresh (cfg : Bus.Config) (rest : Durations.Source) :
    ReportsWell cfg 0 (.unstarted (Bus.fresh cfg) rest (.ok (.ok Report.zero))) where
  reports := ⟨_, rfl⟩
  unpoisoned := rfl
  checks htrace := ⟨[], _, if_pos htrace, rfl, rfl, Nat.le_refl _⟩

theorem Moderate.length_lt (hm : Moderate c) (h : tasks.length ≤ c.maxTasks) :
    tasks.length < Word.size := by
  have hlt := h.trans_lt (hm.room.trans_le roomLimit_le)
  exact hlt.trans (by decide)

section Fresh

variable (hc : 0 < cfg.capacity) (hcap : cfg.capacity < Word.size)

include hc hcap

theorem ready_crew (hword : tasks.length < Word.size) :
    (crew (Bus.fresh cfg) c (fun _ => false) tasks).Ready := by
  have hroom : 0 + tasks.length < Word.size := by omega
  exact ready_crewFailing hc hcap (Bus.atRest_fresh cfg) hroom hroom

theorem reportsWell_of_runs (hids : (tasks.map Task.id).Nodup) (hword : tasks.length < Word.size)
    (hr : Runs (crew (Bus.fresh cfg) c (fun _ => false) tasks) acts d)
    (hended : ∀ w ∈ d.workers, Ended w) :
    ReportsWell cfg tasks.length (.ofCrew counts rest d ticks blockedBefore) := by
  have hready := ready_crew (c := c) hc hcap hword
  obtain ⟨⟨hjoint, -⟩, hcapacity, -⟩ := hready.run hr
  have hstop := step?_eq_none_of_ended hended
  have hover := hjoint.all_over hstop
  refine ⟨⟨_, conclude_of_sound hr hover hjoint.unpoisoned fun _ _ => rfl⟩, hjoint.unpoisoned, ?_⟩
  intro htrace
  have hroom : 0 + tasks.length < Word.size := by omega
  have hempty : (Bus.fresh cfg).trace = some [] := if_pos htrace
  obtain ⟨es, hdone⟩ := completed_crewFailing hc hcap (Bus.atRest_fresh cfg) hempty hids hroom
    hroom hr hstop
  obtain ⟨summary, hcheck, -⟩ := hdone.checks
  obtain ⟨fs, hfs, hfive⟩ := hready.records hr
  rw [hdone.trace_eq] at hfs
  change some ([] ++ es) = (Bus.fresh cfg).trace.map (· ++ fs) at hfs
  rw [hempty] at hfs
  cases hfs
  refine ⟨es, summary, hdone.trace_eq, hcapacity, hcheck, ?_⟩
  have hsteps := hready.length_add_stepsLeft_le hr
  have hfour := stepsLeft_le
    ((crew (Bus.fresh cfg) c (fun _ => false) tasks).workers : Multiset Worker)
  rw [Multiset.coe_card, crew_eq_crewFailing, length_crewFailing] at hfour
  rw [crew_eq_crewFailing] at hsteps
  omega

theorem Moderate.ready (hm : Moderate c) (hs : Ample counts source)
    (h : plan (Bus.fresh cfg) counts c source = .done rest (.start tasks ticks blockedBefore)) :
    (crew (Bus.fresh cfg) c (fun _ => false) tasks).Ready := by
  obtain ⟨-, refusal, hplan⟩ | ⟨-, hplan⟩ | ⟨-, hlimit, rest', tasks', hplan, hlength, -⟩ :=
    hm.plan_cases (b := Bus.fresh cfg) hs rfl
  all_goals rw [h] at hplan; cases hplan
  rw [← hlength] at hlimit
  exact ready_crew hc hcap (hm.length_lt hlimit)

theorem Moderate.comes_cases (hm : Moderate c) (hs : Ample counts source)
    (h : Comes (Bus.fresh cfg) counts c source r) :
    (c.maxTasks < counts.sum ∧ ∃ refusal, r.result = .ok (.error refusal)) ∨
    counts.sum ≤ c.maxTasks ∧ ReportsWell cfg counts.sum r := by
  obtain ⟨hmany, refusal, hplan⟩ | ⟨hempty, hplan⟩ |
    ⟨-, hlimit, rest, tasks, hplan, hlength, hids⟩ := hm.plan_cases (b := Bus.fresh cfg) hs rfl
  · refine .inl ⟨hmany, refusal, ?_⟩
    cases h with
    | refused hplan' =>
      rw [hplan] at hplan'
      cases hplan'
      rfl
    | _ hplan' => rw [hplan] at hplan'; cases hplan'
  · rw [hempty]
    refine .inr ⟨Nat.zero_le _, ?_⟩
    cases h with
    | empty => exact reportsWell_fresh cfg _
    | _ hplan' => rw [hplan] at hplan'; cases hplan'
  · refine .inr ⟨hlimit, ?_⟩
    rw [← hlength] at hlimit ⊢
    cases h with
    | ran hplan' hr hended =>
      rw [hplan] at hplan'
      cases hplan'
      exact reportsWell_of_runs hc hcap hids (hm.length_lt hlimit) hr hended
    | _ hplan' => rw [hplan] at hplan'; cases hplan'

theorem Moderate.comes_run (hm : Moderate c) (hs : Ample counts source) :
    Comes (Bus.fresh cfg) counts c source
      (run (Bus.fresh cfg) counts c source fun _ => false) := by
  obtain ⟨-, refusal, hplan⟩ | ⟨-, hplan⟩ | ⟨-, -, rest, tasks, hplan, -⟩ :=
    hm.plan_cases (b := Bus.fresh cfg) hs rfl
  · rw [run_of_refuse hplan]
    exact .refused hplan
  · rw [run_of_nothing hplan]
    exact .empty hplan
  · have hready := hm.ready hc hcap hs hplan
    obtain ⟨acts, hr, hstop⟩ := hready.finish
    rw [run_of_start hplan]
    refine .ran hplan hr fun w hw => ended_of_isOver ?_
    exact (hready.run hr).1.joint.all_over hstop w hw

theorem Moderate.not_lingers (hm : Moderate c) (hs : Ample counts source) :
    ¬ Lingers (Bus.fresh cfg) counts c source := by
  intro h
  cases h with
  | draw k hdraw =>
    have hlive := hs.live.drawn hm.maxTransferTicks_lt k
    exact hdraw (hlive.ends hm.maxTransferTicks_pos hm.maxTransferTicks_lt)
  | blocked hplan hr hstop hw hended =>
    have hjoint := ((hm.ready hc hcap hs hplan).run hr).1.joint
    exact hended (ended_of_isOver (hjoint.all_over hstop _ hw))
  | endless hplan h0 hsteps => exact (hm.ready hc hcap hs hplan).no_endless_run _ h0 hsteps

end Fresh

end HalfDuplex.Batch
