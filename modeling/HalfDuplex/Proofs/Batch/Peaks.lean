import HalfDuplex.Proofs.Batch.Outcomes
import Mathlib.Order.Bounds.Basic

/-!
# The peaks that batches report

Batches run one after another on one bus. Some of them are refused, some lose
workers, and for some not all workers can be started. What a batch that ran reports
as its peak is the greatest occupancy since the bus was new. A batch without tasks
reports no peak at all, whoever has been on the bus before it.
-/

namespace HalfDuplex

/-- How many tasks were aboard, on one or another of the buses. -/
def occupancies (buses : List Bus) : Set Nat := {n | ∃ b ∈ buses, b.arbiter.onBus = n}

theorem occupancies_concat (buses : List Bus) (b : Bus) :
    occupancies (buses ++ [b]) = insert b.arbiter.onBus (occupancies buses) := by
  ext n
  constructor
  · rintro ⟨c, hc, rfl⟩
    obtain hc | hc := List.mem_append.mp hc
    · exact .inr ⟨c, hc, rfl⟩
    · rw [List.mem_singleton.mp hc]
      exact .inl rfl
  · rintro (rfl | ⟨c, hc, rfl⟩)
    · exact ⟨b, List.mem_append_right _ (List.mem_singleton_self b), rfl⟩
    · exact ⟨c, List.mem_append_left _ hc, rfl⟩

theorem occupancies_append_subset (before after : List Bus) :
    occupancies before ⊆ occupancies (before ++ after) := by
  rintro n ⟨b, hb, hn⟩
  exact ⟨b, List.mem_append_left after hb, hn⟩

namespace Crew

variable {b b' : Bus} {t : Task} {p q : Phase} {x c d : Crew} {cap i : Nat}
  {past buses : List Bus}

/-- The crew comes to be `c` by steps of its workers, and `buses` are the buses that
these steps led to, one after the other. -/
inductive Passes (x : Crew) : List Bus → Crew → Prop where
  | nil : Passes x [] x
  | snoc {buses : List Bus} {c d : Crew} (i : Nat) :
    Passes x buses c → c.step? i = some d → Passes x (buses ++ [d.bus]) d

theorem Runs.passes {acts : List (Nat × Phase)} (hr : Runs x acts c) :
    ∃ buses, Passes x buses c := by
  induction hr with
  | nil => exact ⟨[], .nil⟩
  | snoc i _ hstep _ ih =>
    obtain ⟨buses, hpasses⟩ := ih
    exact ⟨_, hpasses.snoc i hstep⟩

theorem Turn.peakOnBus_eq (ht : Turn b t p b' q) (hle : b.arbiter.onBus ≤ b.stats.peakOnBus) :
    b'.stats.peakOnBus = max b'.arbiter.onBus b.stats.peakOnBus := by
  cases ht with
  | queue hw => exact (Nat.max_eq_right hle).symm
  | board due hw => exact Nat.max_comm _ _
  | pickUp hpos => exact (Nat.max_eq_right hle).symm
  | comeBack due => exact Nat.max_comm _ _
  | part due hq =>
    have hgone : (b.part t).arbiter.onBus = b.arbiter.onBus - 1 :=
      Arbiter.onBus_handOver b.arbiter.vacate
    change b.stats.peakOnBus = _
    omega

/-- The accounts agree, and the bus has kept the greatest occupancy of those in `past`. -/
structure Tracks (cap : Nat) (past : List Bus) (c : Crew) : Prop where
  joint : Joint c.bus c.workers
  capacity_eq : c.bus.arbiter.capacity = cap
  onBus_le : c.bus.arbiter.onBus ≤ c.bus.stats.peakOnBus
  greatest : IsGreatest (occupancies past) c.bus.stats.peakOnBus

theorem Tracks.step (h : Tracks cap past c) (hs : c.step? i = some d)
    (hu : d.bus.poisoned = false) : Tracks cap (past ++ [d.bus]) d := by
  obtain ⟨w, q, hw, hset, ht | ⟨hp, -⟩⟩ := step?_cases h.joint hs
  · obtain ⟨others, ho, ho'⟩ := exists_others hw { w with phase := q }
    have hpeak := ht.peakOnBus_eq h.onBus_le
    have hjoint := h.joint
    rw [ho] at hjoint
    refine ⟨?_, ht.capacity_eq.trans h.capacity_eq, ?_, ?_⟩
    · rw [hset, ho']
      exact hjoint.turn rfl ht
    · rw [hpeak]
      exact Nat.le_max_left _ _
    · rw [hpeak, occupancies_concat]
      exact h.greatest.insert _
  · rw [hp] at hu
    cases hu

theorem Passes.tracks (hr : Passes x buses c) (h : Tracks cap past x)
    (hu : c.bus.poisoned = false) : Tracks cap (past ++ buses) c := by
  induction hr with
  | nil =>
    rw [List.append_nil]
    exact h
  | snoc i _ hstep ih =>
    rw [← List.append_assoc]
    exact (ih (unpoisoned_of_step? hstep hu)).step hstep hu

end Crew

namespace Batch

open Crew

variable {a b : Bus} {counts : Counts} {c : Config} {source rest : Durations.Source}
  {givesUp : String → Bool} {tasks : List Task} {ticks blockedBefore cap : Nat} {d : Crew}
  {cfg : Bus.Config} {past : List Bus} {workers : List Worker} {report : Report}

structure Round where
  counts : Counts
  passed : List Bus
  result : Except Fault (Except Refusal Report)

/-- How a batch on bus `b` can go, and the bus after it. Once all workers have been
started, or the system has refused one, the batch waits for those there are. -/
inductive Goes (b : Bus) : Round → Bus → Prop where
  | faulted {counts : Counts} {c : Config} {source rest : Durations.Source} {f : Fault} :
    plan b counts c source = .fault rest f → Goes b ⟨counts, [], .error f⟩ b
  | refused {counts : Counts} {c : Config} {source rest : Durations.Source} {refusal : Refusal} :
    plan b counts c source = .done rest (.refuse refusal) →
    Goes b ⟨counts, [], .ok (.error refusal)⟩ b
  | empty {counts : Counts} {c : Config} {source rest : Durations.Source} :
    plan b counts c source = .done rest .nothing → Goes b ⟨counts, [], .ok (.ok Report.zero)⟩ b
  | ran {counts : Counts} {c : Config} {source rest : Durations.Source} {givesUp : String → Bool}
      {tasks : List Task} {ticks blockedBefore : Nat} {buses : List Bus} {d : Crew} :
    plan b counts c source = .done rest (.start tasks ticks blockedBefore) →
    Passes (crew b c givesUp tasks) buses d → (∀ w ∈ d.workers, Ended w) →
    Goes b ⟨counts, buses, conclude d ticks blockedBefore⟩ d.bus
  | cutShort {counts : Counts} {c : Config} {source rest : Durations.Source}
      {givesUp : String → Bool} {tasks : List Task} {ticks blockedBefore : Nat}
      {buses : List Bus} {d : Crew} {t : Task} (n : Nat) (cause : String) :
    plan b counts c source = .done rest (.start tasks ticks blockedBefore) →
    tasks[n]? = some t → Passes (crew b c givesUp (tasks.take n)) buses d →
    (∀ w ∈ d.workers, Ended w) →
    Goes b ⟨counts, buses, .ok (.error (.spawn t.workerName cause))⟩ d.bus

/-- The bus, which was new, has served the batches one after another. -/
inductive Serves (cfg : Bus.Config) : List Round → Bus → Prop where
  | nil : Serves cfg [] (Bus.fresh cfg)
  | snoc {rounds : List Round} {r : Round} {a b : Bus} :
    Serves cfg rounds a → Goes a r b → Serves cfg (rounds ++ [r]) b

def lifetime (cfg : Bus.Config) (rounds : List Round) : List Bus :=
  Bus.fresh cfg :: rounds.flatMap Round.passed

variable {rounds later : List Round} {r : Round}

theorem lifetime_append (cfg : Bus.Config) (rounds later : List Round) :
    lifetime cfg (rounds ++ later) = lifetime cfg rounds ++ later.flatMap Round.passed := by
  unfold lifetime
  rw [List.flatMap_append, List.cons_append]

theorem total_eq_zero_iff : counts.total = 0 ↔ counts.sum = 0 := by
  rw [total_eq_requested, requested_eq_zero_iff]

theorem sum_eq_zero_of_plan (h : plan b counts c source = .done rest .nothing) :
    counts.sum = 0 := by
  revert h
  fun_cases plan b counts c source with
  | case3 _ _ hzero => exact fun _ => total_eq_zero_iff.mp hzero
  | case4 =>
    intro h
    obtain ⟨_, tasks, -, hplan⟩ := Outcome.andThen_eq_done_iff.mp h
    rw [planTasks_eq] at hplan
    split_ifs at hplan <;> cases hplan
  | _ => rintro ⟨⟩

theorem goes_run (hc : 0 < cap) (hcap : cap < Word.size) (hrest : b.AtRest cap)
    (hblocked : b.stats.blocked + counts.total < Word.size)
    (hadmitted : b.stats.admitted + counts.total < Word.size) :
    ∃ passed, Goes b ⟨counts, passed, (run b counts c source givesUp).result⟩
      (run b counts c source givesUp).bus := by
  cases hplan : plan b counts c source with
  | mk rest answer =>
    rcases answer with f | refusal | _ | ⟨tasks, ticks, blockedBefore⟩
    · rw [run_of_fault hplan]
      exact ⟨[], .faulted hplan⟩
    · rw [run_of_refuse hplan]
      exact ⟨[], .refused hplan⟩
    · rw [run_of_nothing hplan]
      exact ⟨[], .empty hplan⟩
    · obtain ⟨-, hbuild, -⟩ := of_plan_start hplan
      rw [← length_buildTasks hbuild] at hblocked hadmitted
      have hready : (crew b c givesUp tasks).Ready :=
        ready_crewFailing hc hcap hrest hblocked hadmitted
      obtain ⟨acts, hr, hstop⟩ := hready.finish
      obtain ⟨passed, hpasses⟩ := hr.passes
      rw [run_of_start hplan]
      refine ⟨passed, .ran hplan hpasses fun w hw => ended_of_isOver ?_⟩
      exact (hready.run hr).1.joint.all_over hstop w hw

structure Keeps (cap : Nat) (past : List Bus) (b : Bus) : Prop where
  atRest : b.AtRest cap
  greatest : IsGreatest (occupancies past) b.stats.peakOnBus

theorem keeps_fresh (cfg : Bus.Config) :
    Keeps cfg.capacity (lifetime cfg []) (Bus.fresh cfg) where
  atRest := Bus.atRest_fresh cfg
  greatest := by
    refine ⟨⟨_, List.mem_singleton_self _, rfl⟩, ?_⟩
    rintro n ⟨b, hb, rfl⟩
    rw [List.mem_singleton.mp hb]
    exact Nat.le_refl 0

theorem Keeps.tracks (h : Keeps cap past b) (hc : 0 < cap) (hcap : cap < Word.size)
    (hs : ∀ w ∈ workers, w.phase = .starting) : Tracks cap past (Crew.start b workers) where
  joint := joint_of_atRest h.atRest hc hcap hs
  capacity_eq := congrArg Arbiter.capacity h.atRest.arbiter_eq
  onBus_le := by
    change b.arbiter.onBus ≤ _
    rw [h.atRest.arbiter_eq]
    exact Nat.zero_le _
  greatest := h.greatest

theorem keeps_of_tracks (h : Tracks cap past d) (hended : ∀ w ∈ d.workers, Ended w) :
    Keeps cap past d.bus where
  atRest := h.capacity_eq ▸ h.joint.atRest (h.joint.all_over (step?_eq_none_of_ended hended))
  greatest := h.greatest

theorem Keeps.passes (h : Keeps cap past b) (hc : 0 < cap) (hcap : cap < Word.size)
    {buses : List Bus} (hr : Passes (crew b c givesUp tasks) buses d)
    (hended : ∀ w ∈ d.workers, Ended w) (hu : d.bus.poisoned = false) :
    Keeps cap (past ++ buses) d.bus := by
  have hstarting := phase_crewFailing b c (fun t => givesUp t.workerName) tasks
  exact keeps_of_tracks (hr.tracks (h.tracks hc hcap hstarting) hu) hended

/-- A batch leaves the bus with the greatest occupancy kept, unless a statistic has
overflowed and poisoned it. -/
theorem Goes.keeps (hc : 0 < cap) (hcap : cap < Word.size) (hg : Goes a r b)
    (h : a.poisoned = false → Keeps cap past a) (hu : b.poisoned = false) :
    Keeps cap (past ++ r.passed) b := by
  cases hg with
  | ran hplan hr hended => exact (h (of_plan_start hplan).2.2).passes hc hcap hr hended hu
  | cutShort n cause hplan _ hr hended =>
    exact (h (of_plan_start hplan).2.2).passes hc hcap hr hended hu
  | _ =>
    rw [List.append_nil]
    exact h hu

theorem Serves.keeps (hc : 0 < cfg.capacity) (hcap : cfg.capacity < Word.size)
    (h : Serves cfg rounds b) (hu : b.poisoned = false) :
    Keeps cfg.capacity (lifetime cfg rounds) b := by
  induction h with
  | nil => exact keeps_fresh cfg
  | snoc _ hg ih =>
    rw [lifetime_append, List.flatMap_singleton]
    exact hg.keeps hc hcap ih hu

theorem report_of_conclude (h : conclude d ticks blockedBefore = .ok (.ok report)) :
    d.bus.poisoned = false ∧ report.peakOnBus = d.bus.stats.peakOnBus := by
  unfold conclude at h
  split at h
  · cases h
  · split at h
    · cases h
    · next stats hstats =>
      obtain ⟨hsound, rfl⟩ := Bus.readStats_eq_ok_iff.mp hstats
      cases h
      exact ⟨hsound, rfl⟩

theorem Goes.reports (hg : Goes a r b) (hr : r.result = .ok (.ok report)) :
    (r.counts.sum = 0 ∧ report = Report.zero) ∨
      0 < r.counts.sum ∧ b.poisoned = false ∧ report.peakOnBus = b.stats.peakOnBus := by
  cases hg with
  | empty hplan =>
    cases hr
    exact .inl ⟨sum_eq_zero_of_plan hplan, rfl⟩
  | ran hplan _ _ =>
    obtain ⟨hsound, hpeak⟩ := report_of_conclude hr
    exact .inr ⟨(of_plan_start hplan).1, hsound, hpeak⟩
  | _ => cases hr

theorem serves_concat_iff :
    Serves cfg (rounds ++ [r]) b ↔ ∃ a, Serves cfg rounds a ∧ Goes a r b := by
  constructor
  · intro h
    generalize hall : rounds ++ [r] = all at h
    cases h with
    | nil => simp at hall
    | snoc h hg =>
      obtain ⟨rfl, hlast⟩ := List.append_inj' hall rfl
      cases hlast
      exact ⟨_, h, hg⟩
  · rintro ⟨a, h, hg⟩
    exact h.snoc hg

theorem Serves.of_append (h : Serves cfg (rounds ++ later) b) : ∃ a, Serves cfg rounds a := by
  induction later using List.reverseRecOn generalizing b with
  | nil =>
    rw [List.append_nil] at h
    exact ⟨b, h⟩
  | append_singleton later r ih =>
    rw [← List.append_assoc] at h
    obtain ⟨a, ha, -⟩ := serves_concat_iff.mp h
    exact ih ha

theorem Serves.reports (hc : 0 < cfg.capacity) (hcap : cfg.capacity < Word.size)
    (h : Serves cfg (rounds ++ [r]) b) (hr : r.result = .ok (.ok report)) :
    (r.counts.sum = 0 ∧ report = Report.zero) ∨
      0 < r.counts.sum ∧ b.readStats = .ok b.stats ∧ report.peakOnBus = b.stats.peakOnBus ∧
        IsGreatest (occupancies (lifetime cfg (rounds ++ [r]))) report.peakOnBus := by
  obtain ⟨a, -, hg⟩ := serves_concat_iff.mp h
  obtain hnone | ⟨hpos, hsound, hpeak⟩ := hg.reports hr
  · exact .inl hnone
  · exact .inr ⟨hpos, Bus.readStats_eq_ok_iff.mpr ⟨hsound, rfl⟩, hpeak,
      hpeak ▸ (h.keeps hc hcap hsound).greatest⟩

/-- The peak that a batch with tasks reports is the one that the bus has kept, and the
greatest occupancy since the bus was new; no report before has a greater one. A batch
without tasks reports nothing, though the bus has kept its peak. -/
theorem lifetime_peak_is_reported (hc : 0 < cfg.capacity) (hcap : cfg.capacity < Word.size)
    (h : Serves cfg (rounds ++ [r]) b) (hr : r.result = .ok (.ok report)) :
    (0 < r.counts.sum → b.readStats = .ok b.stats ∧ report.peakOnBus = b.stats.peakOnBus ∧
      IsGreatest (occupancies (lifetime cfg (rounds ++ [r]))) report.peakOnBus ∧
      ∀ q ∈ rounds, ∀ earlier, q.result = .ok (.ok earlier) →
        earlier.peakOnBus ≤ report.peakOnBus) ∧
    (r.counts.sum = 0 → report = Report.zero ∧ (b.poisoned = false →
      IsGreatest (occupancies (lifetime cfg (rounds ++ [r]))) b.stats.peakOnBus)) := by
  constructor
  · intro hpos
    obtain ⟨hzero, -⟩ | ⟨-, hstats, hpeak, hgreatest⟩ := h.reports hc hcap hr
    · omega
    refine ⟨hstats, hpeak, hgreatest, fun q hq earlier hearlier => ?_⟩
    -- An earlier report has the greatest occupancy of a lifetime that this one goes on from.
    obtain ⟨before, after, rfl⟩ := List.append_of_mem hq
    have hsplit : before ++ q :: after ++ [r] = (before ++ [q]) ++ (after ++ [r]) := by simp
    rw [hsplit] at h hgreatest
    obtain ⟨a, ha⟩ := h.of_append
    obtain ⟨-, rfl⟩ | ⟨-, -, -, hbefore⟩ := ha.reports hc hcap hearlier
    · exact Nat.zero_le _
    · rw [lifetime_append] at hgreatest
      exact hbefore.mono hgreatest (occupancies_append_subset _ _)
  · intro hzero
    obtain ⟨-, hnone⟩ | ⟨hpos, -⟩ := h.reports hc hcap hr
    · exact ⟨hnone, fun hsound => (h.keeps hc hcap hsound).greatest⟩
    · omega

def countedOn (stats : Stats) : Bus := { Bus.fresh ⟨2, false⟩ with stats := stats }

/-- The bus has served a batch of two, one whose worker gave up, one of too many tasks
and one without tasks before a batch of one task reports. -/
theorem lifetime_peak_is_reported_later :
    ∃ two failed refused none r b report,
      Serves ⟨2, false⟩ ([two, failed, refused, none] ++ [r]) b ∧
      failed.result = .ok (.error (.workerFailed "sender-0")) ∧
      refused.result = .ok (.error (.tooManyTasks 3 2)) ∧
      none.result = .ok (.ok Report.zero) ∧
      r.counts = Counts.ofSpawnOrder 0 0 1 0 ∧ r.result = .ok (.ok report) ∧
      IsGreatest (occupancies (lifetime ⟨2, false⟩ ([two, failed, refused, none] ++ [r]))) 2 ∧
      report.peakOnBus = 2 := by
  obtain ⟨two, htwo⟩ : ∃ r, Goes (countedOn Stats.zero) r (countedOn ⟨0, 2, 2⟩) := by
    have hr : Passes (crew (countedOn Stats.zero) {} (fun _ => false)
        [⟨0, .normal .send, 3⟩, ⟨1, .normal .send, 3⟩]) _ _ :=
      .snoc 1 (.snoc 0 (.snoc 1 (.snoc 0 .nil rfl) rfl) rfl) rfl
    have hplan : plan (countedOn Stats.zero) (Counts.ofSpawnOrder 0 0 2 0) {} (.constant 3) =
      .done _ (.start [⟨0, .normal .send, 3⟩, ⟨1, .normal .send, 3⟩] 6 0) := rfl
    exact ⟨_, .ran hplan hr fun w hw => ended_of_isOver (by revert w hw; decide)⟩
  obtain ⟨failed, hfailed, hgaveUp⟩ : ∃ r, Goes (countedOn ⟨0, 2, 2⟩) r (countedOn ⟨0, 3, 2⟩) ∧
      r.result = .ok (.error (.workerFailed "sender-0")) := by
    have hr : Passes (crew (countedOn ⟨0, 2, 2⟩) {} (fun _ => true) [⟨0, .normal .send, 3⟩]) _ _ :=
      .snoc 0 (.snoc 0 .nil rfl) rfl
    have hplan : plan (countedOn ⟨0, 2, 2⟩) (Counts.ofSpawnOrder 0 0 1 0) {} (.constant 3) =
      .done _ (.start [⟨0, .normal .send, 3⟩] 3 0) := rfl
    exact ⟨_, .ran hplan hr fun w hw => ended_of_isOver (by revert w hw; decide), rfl⟩
  obtain ⟨r, report, hone, hcounts, hreport⟩ :
      ∃ r report, Goes (countedOn ⟨0, 3, 2⟩) r (countedOn ⟨0, 4, 2⟩) ∧
      r.counts = Counts.ofSpawnOrder 0 0 1 0 ∧ r.result = .ok (.ok report) := by
    have hr : Passes (crew (countedOn ⟨0, 3, 2⟩) {} (fun _ => false) [⟨0, .normal .send, 3⟩]) _ _ :=
      .snoc 0 (.snoc 0 .nil rfl) rfl
    have hplan : plan (countedOn ⟨0, 3, 2⟩) (Counts.ofSpawnOrder 0 0 1 0) {} (.constant 3) =
      .done _ (.start [⟨0, .normal .send, 3⟩] 3 0) := rfl
    exact ⟨_, _, .ran hplan hr fun w hw => ended_of_isOver (by revert w hw; decide), rfl, rfl⟩
  have hrefused : plan (countedOn ⟨0, 3, 2⟩) (Counts.ofSpawnOrder 1 1 1 0) { maxTasks := 2 }
    (.constant 3) = .done _ (.refuse (.tooManyTasks 3 2)) := rfl
  have hnone : plan (countedOn ⟨0, 3, 2⟩) (Counts.ofSpawnOrder 0 0 0 0) {} (.constant 3) =
    .done _ .nothing := rfl
  have h : Serves ⟨2, false⟩ ([two, failed, _, _] ++ [r]) _ :=
    ((((Serves.nil.snoc htwo).snoc hfailed).snoc (.refused hrefused)).snoc (.empty hnone)).snoc hone
  obtain ⟨hwith, -⟩ := lifetime_peak_is_reported (by decide) (by decide) h hreport
  obtain ⟨-, hpeak, hgreatest, -⟩ := hwith (by rw [hcounts]; decide)
  have htwice : report.peakOnBus = 2 := hpeak
  rw [htwice] at hgreatest
  exact ⟨two, failed, _, _, r, _, report, h, hgaveUp, rfl, rfl, hcounts, hreport, hgreatest, htwice⟩

/-- A batch of one task has its rider as its peak. A batch without tasks after it says
that nobody was ever on the bus. -/
theorem empty_batch_forgets_peak :
    ∃ one none b before after, Serves ⟨1, false⟩ [one, none] b ∧
      one.result = .ok (.ok before) ∧ before.peakOnBus = 1 ∧
      none.counts = Counts.ofSpawnOrder 0 0 0 0 ∧ none.result = .ok (.ok after) ∧
      b.readStats = .ok ⟨0, 1, 1⟩ ∧ after.peakOnBus = 0 := by
  have hplan : plan (Bus.fresh ⟨1, false⟩) (Counts.ofSpawnOrder 0 0 1 0) {}
    (Durations.Source.constant 3) = .done _ (.start [⟨0, .normal .send, 3⟩] 3 0) := rfl
  have hr : Passes (crew (Bus.fresh ⟨1, false⟩) {} (fun _ => false) [⟨0, .normal .send, 3⟩]) _ _ :=
    .snoc 0 (.snoc 0 .nil rfl) rfl
  have hone := Goes.ran hplan hr fun w hw => ended_of_isOver (by revert w hw; decide)
  have hempty : ∀ b, plan b (Counts.ofSpawnOrder 0 0 0 0) {} (.constant 3) =
    .done (.constant 3) .nothing := fun _ => rfl
  exact ⟨_, _, _, _, _, (Serves.nil.snoc hone).snoc (.empty (hempty _)), rfl, rfl, rfl, rfl, rfl,
    rfl⟩

end Batch

end HalfDuplex
