import HalfDuplex.Proofs.Crew.Fates
import HalfDuplex.Proofs.Crew.Reuse
import HalfDuplex.Proofs.Trace.Ledger

/-!
# Crews that have come to an end

A crew of tasks with different ids runs on a bus at rest that is traced. When none
of its workers can go on, the bus is at rest again, every task has boarded and
left once, and the events that were recorded meanwhile check by themselves.
-/

namespace HalfDuplex.Crew

variable {acts : List (Nat × Phase)} {b : Bus} {ws : Multiset Worker} {workers : List Worker}
  {p : Phase → Bool} {x d : Crew} {es past : List Event} {cap : Nat}

/-- What a crew leaves behind that has run `tasks` on the bus `b`, on which it has
recorded `es` after `past`. -/
structure Completed (b : Bus) (cap : Nat) (past : List Event) (tasks : List Task) (d : Crew)
    (es : List Event) : Prop where
  all_over : ∀ w ∈ d.workers, w.phase.isOver = true
  atRest : d.bus.AtRest cap
  admitted_eq : d.bus.stats.admitted = b.stats.admitted + tasks.length
  blocked_eq : d.bus.stats.blocked = b.stats.blocked + es.countP Event.isQueued
  trace_eq : d.bus.trace = some (past ++ es)
  boarded : (es.filterMap Event.boarding?).Perm (tasks.map fun t => (t.id, t.lane))
  left : (es.filterMap Event.leaving?).Perm (tasks.map fun t => (t.id, t.lane))
  checks : ∃ summary, Trace.check cap es = .ok summary ∧ summary.unfinished = 0

theorem ticketsIn_all (h : ∀ w ∈ workers, p w.phase = true) :
    ticketsIn p workers = ((workers.map Worker.task).map fun t => (t.id, t.lane)) := by
  unfold ticketsIn tasksIn
  rw [Multiset.filter_eq_self.mpr h, Multiset.map_coe, Multiset.map_coe]

theorem ticketsIn_starting (hs : ∀ w ∈ ws, w.phase = .starting) (hp : p .starting = false) :
    ticketsIn p ws = 0 := by
  unfold ticketsIn
  rw [tasksIn_eq_zero fun w hw => by rw [hs w hw, hp], Multiset.map_zero]

theorem Runs.tickets_perm {f : Event → Option (Nat × Lane)} (hr : Runs x acts d)
    (hs : ∀ w ∈ x.workers, w.phase = .starting) (hp : p .starting = false)
    (hall : ∀ w ∈ d.workers, p w.phase = true)
    (h : ticketsIn p d.workers = ticketsIn p x.workers + (es.filterMap f : List (Nat × Lane))) :
    (es.filterMap f).Perm ((x.workers.map Worker.task).map fun t => (t.id, t.lane)) := by
  rw [ticketsIn_all hall, hr.map_task_eq, ticketsIn_starting hs hp, Multiset.zero_add] at h
  exact (Multiset.coe_eq_coe.mp h).symm

theorem completed_of_maximal (hrest : b.AtRest cap) (htrace : b.trace = some past) (hc : 0 < cap)
    (hcap : cap < Word.size) (hs : ∀ w ∈ workers, w.phase = .starting)
    (hids : ((workers : Multiset Worker).map fun w => w.task.id).Nodup)
    (hblocked : b.stats.blocked + workers.length < Word.size)
    (hadmitted : b.stats.admitted + workers.length < Word.size)
    (hr : Runs (start b workers) acts d) (hmax : ∀ i, d.step? i = none) :
    ∃ es, Completed b cap past (workers.map Worker.task) d es := by
  have hready := ready_of_atRest hrest hc hcap hs hblocked hadmitted
  obtain ⟨⟨hjoint, -⟩, hcapacity, -⟩ := hready.run hr
  have hover := hjoint.all_over hmax
  have hboarded : ∀ w ∈ d.workers, w.phase.hasBoarded = true := by
    intro w hw
    rw [Phase.hasBoarded, hover w hw, Bool.or_true]
  have hatRest : d.bus.AtRest cap := by
    have hd := hjoint.atRest hover
    rw [hcapacity] at hd
    change d.bus.AtRest b.arbiter.capacity at hd
    rw [hrest.arbiter_eq] at hd
    exact hd
  obtain ⟨es, hl⟩ := hready.exists_ledger hr
  have hrecorded : d.bus.trace = some (past ++ es) := by
    rw [hl.trace_eq]
    change b.trace.map (· ++ es) = _
    rw [htrace]
    rfl
  have hperm := hr.tickets_perm hs rfl hboarded hl.boarded_eq
  obtain ⟨a, ha⟩ := hready.exists_resumes ⟨_, resumes_start hrest htrace hc hcap hs hids⟩ hr
  obtain ⟨fs, summary, hevents, hcheck, hpending⟩ := ha.checks
  -- The replay and the ledger speak of the same events: those behind `past`.
  have hsame : fs = es :=
    List.append_cancel_left (Option.some.inj (hevents.symm.trans hrecorded))
  refine ⟨es, hover, hatRest, ?_, hl.blocked_eq, hrecorded, hperm,
    hr.tickets_perm hs rfl hover hl.left_eq, summary, hsame ▸ hcheck, ?_⟩
  · rw [hl.admitted_eq, hperm.length_eq, List.length_map]
    rfl
  · rw [hpending, hatRest.arbiter_eq]
    rfl

end HalfDuplex.Crew
