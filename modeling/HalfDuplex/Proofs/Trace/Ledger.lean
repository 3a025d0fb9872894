import HalfDuplex.Proofs.Crew.Progress

/-!
# What the events of a run tell

A turn writes down a task that queues, one that boards and one that leaves; a
departure writes its grants down besides, and a worker that picks a permit up
writes nothing. The boardings and departures of a run are therefore those of its
workers, and the statistics have grown by the arrivals that queued and by the
boardings.
-/

namespace HalfDuplex

namespace Event

def boarding? : Event → Option (Nat × Lane)
  | .boarded task lane _ => some (task, lane)
  | _ => none

def leaving? : Event → Option (Nat × Lane)
  | .left task lane => some (task, lane)
  | _ => none

def isQueued : Event → Bool
  | .queued _ _ => true
  | _ => false

end Event

namespace Crew

variable {acts : List (Nat × Phase)} {b b' : Bus} {ws : Multiset Worker} {w : Worker} {t : Task}
  {p q : Phase} {r : Phase → Bool} {x c : Crew} {es fs : List Event}

theorem filterMap_wakings {f : Event → Option (Nat × Lane)} (hf : ∀ l n, f (.woken l n) = none)
    (gs : List (Lane × Nat)) : (Bus.wakings gs).filterMap f = [] := by
  rw [List.filterMap_eq_nil_iff]
  intro e he
  obtain ⟨x, -, rfl⟩ := List.mem_map.mp he
  exact hf x.1 x.2

theorem countP_wakings (gs : List (Lane × Nat)) : (Bus.wakings gs).countP Event.isQueued = 0 := by
  rw [List.countP_eq_zero]
  intro e he
  obtain ⟨x, -, rfl⟩ := List.mem_map.mp he
  exact Bool.false_ne_true

/-- The events that task `t` writes down on its way to the phase `q`. -/
structure Tells (t : Task) (q : Phase) (es : List Event) : Prop where
  boarded : es.filterMap Event.boarding? = if q.isRiding then [(t.id, t.lane)] else []
  left : es.filterMap Event.leaving? = if q.isOver then [(t.id, t.lane)] else []
  queued : es.countP Event.isQueued = q.isQueued.toNat

theorem tells_left (t : Task) (gs : List (Lane × Nat)) (hq : q.isOver = true) :
    Tells t q (.left t.id t.lane :: Bus.wakings gs) where
  boarded := by
    rw [(Phase.absent_of_isOver hq).notRiding]
    exact filterMap_wakings (fun _ _ => rfl) gs
  left := by
    rw [hq]
    exact congrArg (_ :: ·) (filterMap_wakings (fun _ _ => rfl) gs)
  queued := by
    rw [(Phase.absent_of_isOver hq).notQueued]
    exact countP_wakings gs

theorem Turn.tells (ht : Turn b t p b' q) :
    ∃ es, Tells t q es ∧ b'.trace = b.trace.map (· ++ es) ∧
      b'.stats.blocked = b.stats.blocked + q.isQueued.toNat ∧
      b'.stats.admitted = b.stats.admitted + q.isRiding.toNat := by
  cases ht with
  | queue hw => exact ⟨[.queued t.id t.lane], ⟨rfl, rfl, rfl⟩, rfl, rfl, rfl⟩
  | board due hw => exact ⟨[.boarded t.id t.lane false], ⟨rfl, rfl, rfl⟩, rfl, rfl, rfl⟩
  | pickUp hpos =>
    refine ⟨[], ⟨rfl, rfl, rfl⟩, ?_, rfl, rfl⟩
    change b.trace = _
    simp
  | comeBack due => exact ⟨[.boarded t.id t.lane true], ⟨rfl, rfl, rfl⟩, rfl, rfl, rfl⟩
  | part due hq =>
    have hgone := Phase.absent_of_isOver hq
    refine ⟨_, tells_left t _ hq, rfl, ?_, ?_⟩
    · rw [hgone.notQueued]
      rfl
    · rw [hgone.notRiding]
      rfl

def ticketsIn (r : Phase → Bool) (ws : Multiset Worker) : Multiset (Nat × Lane) :=
  (tasksIn r ws).map fun t => (t.id, t.lane)

/-- If a change of phase enters `r` just in case `e` says so, the tickets in `r`
grow by that of the worker just in that case. -/
theorem ticketsIn_move {e : Bool} (h : (r q).toNat = (r w.phase).toNat + e.toNat) :
    ticketsIn r ({ w with phase := q } ::ₘ ws) =
      ticketsIn r (w ::ₘ ws) +
        (if e then [(w.task.id, w.task.lane)] else [] : List (Nat × Lane)) := by
  unfold ticketsIn
  cases e with
  | false =>
    have hstay : r q = r w.phase := by
      cases hp : r w.phase <;> cases hq : r q <;>
        first | rfl | (rw [hp, hq] at h; cases h)
    rw [tasksIn_stay hstay]
    exact (Multiset.add_zero _).symm
  | true =>
    have henter : r w.phase = false ∧ r q = true := by
      cases hp : r w.phase <;> cases hq : r q <;>
        first | exact ⟨rfl, rfl⟩ | (rw [hp, hq] at h; cases h)
    rw [tasksIn_enter henter.1 henter.2, Multiset.map_cons, ← Multiset.singleton_add,
      Multiset.add_comm]
    rfl

/-- The bus of `c` has recorded `es` since that of `x`, and counted it. -/
structure Ledger (x c : Crew) (es : List Event) : Prop where
  trace_eq : c.bus.trace = x.bus.trace.map (· ++ es)
  boarded_eq : ticketsIn Phase.hasBoarded c.workers =
    ticketsIn Phase.hasBoarded x.workers + (es.filterMap Event.boarding? : List (Nat × Lane))
  left_eq : ticketsIn Phase.isOver c.workers =
    ticketsIn Phase.isOver x.workers + (es.filterMap Event.leaving? : List (Nat × Lane))
  blocked_eq : c.bus.stats.blocked = x.bus.stats.blocked + es.countP Event.isQueued
  admitted_eq : c.bus.stats.admitted =
    x.bus.stats.admitted + (es.filterMap Event.boarding?).length

theorem ledger_nil (x : Crew) : Ledger x x [] where
  trace_eq := by simp
  boarded_eq := (Multiset.add_zero _).symm
  left_eq := (Multiset.add_zero _).symm
  blocked_eq := rfl
  admitted_eq := rfl

theorem Ready.exists_ledger (h : x.Ready) (hr : Runs x acts c) : ∃ es, Ledger x c es := by
  refine h.turn_induction (P := fun _ c => ∃ es, Ledger x c es) hr ⟨[], ledger_nil x⟩ ?_
  intro acts c d i w q ih hw hset ht
  obtain ⟨es, hl⟩ := ih
  -- The entries of the turn go behind those of the run so far, account by account.
  obtain ⟨fs, hf, htrace, hblocked, hadmitted⟩ := ht.tells
  obtain ⟨others, ho, ho'⟩ := exists_others hw { w with phase := q }
  refine ⟨es ++ fs, ?_, ?_, ?_, ?_, ?_⟩
  · rw [htrace, hl.trace_eq, Bus.map_append_append]
  · rw [hset, ho', ticketsIn_move ht.hasBoarded_toNat, ← ho, hl.boarded_eq, List.filterMap_append,
      hf.boarded, ← Multiset.coe_add, Multiset.add_assoc]
  · rw [hset, ho', ticketsIn_move ht.isOver_toNat, ← ho, hl.left_eq, List.filterMap_append, hf.left,
      ← Multiset.coe_add, Multiset.add_assoc]
  · rw [hblocked, hl.blocked_eq, List.countP_append, hf.queued, Nat.add_assoc]
  · have hone : q.isRiding.toNat = (fs.filterMap Event.boarding?).length := by
      rw [hf.boarded]
      cases q.isRiding <;> rfl
    rw [hadmitted, hl.admitted_eq, List.filterMap_append, List.length_append, hone, Nat.add_assoc]

theorem Turn.records (ht : Turn b t p b' q) :
    ∃ es, b'.trace = b.trace.map (· ++ es) ∧ es.length ≤ 5 := by
  cases ht with
  | queue hw => exact ⟨[.queued t.id t.lane], rfl, by simp⟩
  | board due hw => exact ⟨[.boarded t.id t.lane false], rfl, by simp⟩
  | pickUp hpos =>
    refine ⟨[], ?_, by simp⟩
    change b.trace = _
    simp
  | comeBack due => exact ⟨[.boarded t.id t.lane true], rfl, by simp⟩
  | part due hq =>
    let grants := b.arbiter.vacate.handOver.1
    have hfour : grants.inOrder.length ≤ 4 := List.length_filter_le _ _
    refine ⟨.left t.id t.lane :: Bus.wakings grants.inOrder, rfl, ?_⟩
    rw [List.length_cons, Bus.wakings, List.length_map]
    omega

theorem Ready.records (h : x.Ready) (hr : Runs x acts c) :
    ∃ es, c.bus.trace = x.bus.trace.map (· ++ es) ∧ es.length ≤ 5 * acts.length := by
  refine h.turn_induction (P := fun acts c =>
    ∃ es, c.bus.trace = x.bus.trace.map (· ++ es) ∧ es.length ≤ 5 * acts.length) hr
    ⟨[], by simp, by simp⟩ ?_
  rintro acts c d i w q ⟨es, hes, hlength⟩ - - ht
  obtain ⟨fs, hfs, hfive⟩ := ht.records
  refine ⟨es ++ fs, by rw [hfs, hes, Bus.map_append_append], ?_⟩
  rw [List.length_append, List.length_append, List.length_singleton]
  omega

end Crew

end HalfDuplex
