import HalfDuplex.Proofs.Trace.Mirror

/-!
# Crews on a bus that has been used before

What a bus counted and recorded earlier does not bear on its calls: a bus at rest
is a fresh bus to which its statistics and its trace are added. The events that a
crew records on it therefore replay by themselves, from an empty bus on.
-/

namespace HalfDuplex

namespace Stats

def plus (s t : Stats) : Stats :=
  ⟨s.blocked + t.blocked, s.admitted + t.admitted, max s.peakOnBus t.peakOnBus⟩

end Stats

namespace Bus

variable {b : Bus} {stats : Stats} {past : List Event} {cap : Nat}

/-- The bus `b`, had it counted `stats` and recorded `past` before. -/
def since (b : Bus) (stats : Stats) (past : List Event) : Bus :=
  { b with stats := stats.plus b.stats, trace := b.trace.map (past ++ ·) }

theorem map_since (trace : Option (List Event)) (past es : List Event) :
    (trace.map (past ++ ·)).map (· ++ es) = (trace.map (· ++ es)).map (past ++ ·) := by
  cases trace with
  | none => rfl
  | some events => exact congrArg some (List.append_assoc ..)

theorem queueIn_since (b : Bus) (stats : Stats) (past : List Event) (t : Task) :
    (b.since stats past).queueIn t = (b.queueIn t).since stats past := by
  have htrace := map_since b.trace past [.queued t.id t.lane]
  unfold queueIn since record
  dsimp only
  rw [htrace]
  rfl

theorem seat_since (b : Bus) (stats : Stats) (past : List Event) (t : Task) (granted : Bool) :
    (b.since stats past).seat t granted = (b.seat t granted).since stats past := by
  have htrace := map_since b.trace past [.boarded t.id t.lane granted]
  have hpeak := Nat.max_assoc stats.peakOnBus b.stats.peakOnBus (b.arbiter.onBus + 1)
  unfold seat since record Stats.plus
  dsimp only
  rw [htrace, hpeak]
  rfl

theorem part_since (b : Bus) (stats : Stats) (past : List Event) (t : Task) :
    (b.since stats past).part t = (b.part t).since stats past := by
  have htrace := map_since b.trace past
    (.left t.id t.lane :: wakings b.arbiter.vacate.handOver.1.inOrder)
  unfold part since
  dsimp only
  rw [htrace]

/-- A bus at rest is a fresh one, but for what it has counted and recorded. -/
theorem AtRest.eq_since (h : b.AtRest cap) (htrace : b.trace = some past) :
    b = (fresh ⟨cap, true⟩).since b.stats past := by
  have hstats : b.stats.plus Stats.zero = b.stats := by
    unfold Stats.plus Stats.zero
    dsimp only
    rw [Nat.add_zero, Nat.add_zero, Nat.max_zero]
  have hpast : (some ([] : List Event)).map (past ++ ·) = b.trace := by
    rw [htrace, Option.map_some, List.append_nil]
  unfold since fresh
  dsimp only
  rw [if_pos rfl, hstats, hpast, ← h.arbiter_eq, ← h.slots_eq, ← h.queues_eq, ← h.unpoisoned]

end Bus

namespace Crew

variable {acts : List (Nat × Phase)} {b b' : Bus} {t : Task} {p q : Phase} {x c : Crew}
  {workers : List Worker} {stats : Stats} {past : List Event} {cap : Nat}

theorem Turn.of_since (ht : Turn (b.since stats past) t p b' q) :
    ∃ a, Turn b t p a q ∧ b' = a.since stats past := by
  cases ht with
  | queue hw => exact ⟨_, .queue hw, b.queueIn_since stats past t⟩
  | board due hw => exact ⟨_, .board due hw, b.seat_since stats past t false⟩
  | pickUp hpos => exact ⟨_, .pickUp hpos, rfl⟩
  | comeBack due =>
    exact ⟨_, .comeBack due,
      Bus.seat_since { b with arbiter := b.arbiter.useGrant t.lane } stats past t true⟩
  | part due hq => exact ⟨_, .part due hq, b.part_since stats past t⟩

/-- The crew's bus is `b`, on which nobody but this crew has been since it was fresh,
with `stats` and `past` from before. No two tasks of the crew share an id. -/
structure Resumes (stats : Stats) (past : List Event) (cap : Nat) (c : Crew) (b : Bus) : Prop where
  bus_eq : c.bus = b.since stats past
  joint : Joint b c.workers
  recorded : Recorded b c.workers
  capacity_eq : b.arbiter.capacity = cap
  ids : ((c.workers : Multiset Worker).map fun w => w.task.id).Nodup

theorem resumes_start (hrest : b.AtRest cap) (htrace : b.trace = some past) (hc : 0 < cap)
    (hcap : cap < Word.size) (hs : ∀ w ∈ workers, w.phase = .starting)
    (hids : ((workers : Multiset Worker).map fun w => w.task.id).Nodup) :
    Resumes b.stats past cap (start b workers) (Bus.fresh ⟨cap, true⟩) where
  bus_eq := hrest.eq_since htrace
  joint := joint_start hc hcap hs
  recorded := recorded_start rfl hs
  capacity_eq := rfl
  ids := hids

theorem Ready.exists_resumes (h : x.Ready) (h0 : ∃ b, Resumes stats past cap x b)
    (hr : Runs x acts c) : ∃ b, Resumes stats past cap c b := by
  refine h.turn_induction (P := fun _ c => ∃ b, Resumes stats past cap c b) hr h0 ?_
  intro acts c d i w q ih hw hset ht
  obtain ⟨b, hb⟩ := ih
  obtain ⟨others, ho, ho'⟩ := exists_others hw { w with phase := q }
  -- The turn is taken on the bus without its past, where the replay keeps up.
  rw [hb.bus_eq] at ht
  obtain ⟨a, hturn, ha⟩ := ht.of_since
  have hjoint := hb.joint
  have hrecorded := hb.recorded
  have hids := hb.ids
  rw [ho] at hjoint hrecorded hids
  have hids' : (({ w with phase := q } ::ₘ others).map fun w => w.task.id).Nodup := by
    rw [Multiset.map_cons] at hids ⊢
    exact hids
  refine ⟨a, ha, ?_, ?_, hturn.capacity_eq.trans hb.capacity_eq, ?_⟩
  · rw [hset, ho']
    exact hjoint.turn rfl hturn
  · rw [hset, ho']
    exact hrecorded.keepsUp hturn.capacity_eq fun r hm =>
      hm.turn hjoint rfl hturn (ridersApart_of_nodup hids) (ridersApart_of_nodup hids')
  · rw [hset, ho']
    exact hids'

theorem Resumes.checks (h : Resumes stats past cap c b) :
    ∃ es summary, c.bus.trace = some (past ++ es) ∧ Trace.check cap es = .ok summary ∧
      summary.unfinished = c.bus.arbiter.totalPending := by
  obtain ⟨es, summary, htrace, hcheck, -, -, -, -, -, hpending⟩ := h.recorded.checks
  rw [h.capacity_eq] at hcheck
  refine ⟨es, summary, ?_, hcheck, ?_⟩
  · rw [h.bus_eq, Bus.since, htrace]
    rfl
  · rw [hpending, h.bus_eq]
    rfl

end Crew

end HalfDuplex
