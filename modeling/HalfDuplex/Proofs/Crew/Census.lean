import HalfDuplex.Batch.Crew
import Mathlib.Data.List.Perm.Basic
import Mathlib.Data.Multiset.Count
import Mathlib.Data.Multiset.Filter

/-!
# Where the workers of a crew are

The workers are counted by phase and lane. A step moves one worker to another
phase and leaves all others where they are.
-/

namespace HalfDuplex

namespace Phase

def isStarting : Phase → Bool
  | .starting => true
  | _ => false

def isQueued : Phase → Bool
  | .queued => true
  | _ => false

def isReturning : Phase → Bool
  | .returning => true
  | _ => false

def isRiding : Phase → Bool
  | .riding _ => true
  | _ => false

/-- The worker has had its slot and given it back. -/
def isOver : Phase → Bool
  | .finished => true
  | .failed .interrupted => true
  | _ => false

def isBroken : Phase → Bool
  | .failed (.bus _) => true
  | _ => false

/-- The worker has yet to board. -/
def isUnseated (p : Phase) : Bool := p.isStarting || p.isQueued || p.isReturning

/-- The worker has arrived and not left. -/
def isPresent (p : Phase) : Bool := p.isQueued || p.isReturning || p.isRiding

/-- The worker is nowhere near the bus, and no call has faulted. -/
structure Absent (p : Phase) : Prop where
  notStarting : p.isStarting = false
  notQueued : p.isQueued = false
  notReturning : p.isReturning = false
  notRiding : p.isRiding = false
  notBroken : p.isBroken = false

theorem absent_of_isOver {p : Phase} (h : p.isOver = true) : p.Absent := by
  cases p with
  | finished => exact ⟨rfl, rfl, rfl, rfl, rfl⟩
  | failed f => cases f <;> first | exact ⟨rfl, rfl, rfl, rfl, rfl⟩ | cases h
  | _ => cases h

theorem Absent.notUnseated {p : Phase} (h : p.Absent) : p.isUnseated = false := by
  rw [isUnseated, h.notStarting, h.notQueued, h.notReturning]
  rfl

end Phase

namespace Crew

variable {ws : Multiset Worker} {w : Worker} {p : Phase → Bool}

/-- The tasks of the workers in the phases `p`. -/
def tasksIn (p : Phase → Bool) (ws : Multiset Worker) : Multiset Task :=
  (ws.filter fun w => p w.phase).map Worker.task

def lanesIn (p : Phase → Bool) (ws : Multiset Worker) : Multiset Lane :=
  (tasksIn p ws).map Task.lane

theorem tasksIn_cons_of_pos (h : p w.phase = true) :
    tasksIn p (w ::ₘ ws) = w.task ::ₘ tasksIn p ws := by
  unfold tasksIn
  rw [Multiset.filter_cons_of_pos ws (p := fun w => p w.phase = true) h, Multiset.map_cons]

theorem tasksIn_cons_of_neg (h : p w.phase = false) : tasksIn p (w ::ₘ ws) = tasksIn p ws := by
  unfold tasksIn
  rw [Multiset.filter_cons_of_neg ws (p := fun w => p w.phase = true) (by simp [h])]

variable {q : Phase}

theorem tasksIn_stay (h : p q = p w.phase) :
    tasksIn p ({ w with phase := q } ::ₘ ws) = tasksIn p (w ::ₘ ws) := by
  cases hp : p w.phase with
  | true => rw [tasksIn_cons_of_pos (w := w) hp, tasksIn_cons_of_pos (h.trans hp)]
  | false => rw [tasksIn_cons_of_neg (w := w) hp, tasksIn_cons_of_neg (h.trans hp)]

theorem tasksIn_enter (hold : p w.phase = false) (hnew : p q = true) :
    tasksIn p ({ w with phase := q } ::ₘ ws) = w.task ::ₘ tasksIn p (w ::ₘ ws) := by
  rw [tasksIn_cons_of_neg hold, tasksIn_cons_of_pos (w := { w with phase := q }) hnew]

theorem tasksIn_exit (hold : p w.phase = true) (hnew : p q = false) :
    tasksIn p (w ::ₘ ws) = w.task ::ₘ tasksIn p ({ w with phase := q } ::ₘ ws) := by
  rw [tasksIn_cons_of_pos hold, tasksIn_cons_of_neg (w := { w with phase := q }) hnew]

theorem lanesIn_stay (h : p q = p w.phase) :
    lanesIn p ({ w with phase := q } ::ₘ ws) = lanesIn p (w ::ₘ ws) := by
  unfold lanesIn
  rw [tasksIn_stay h]

theorem lanesIn_enter (hold : p w.phase = false) (hnew : p q = true) :
    lanesIn p ({ w with phase := q } ::ₘ ws) = w.task.lane ::ₘ lanesIn p (w ::ₘ ws) := by
  unfold lanesIn
  rw [tasksIn_enter hold hnew, Multiset.map_cons]

theorem lanesIn_exit (hold : p w.phase = true) (hnew : p q = false) :
    lanesIn p (w ::ₘ ws) = w.task.lane ::ₘ lanesIn p ({ w with phase := q } ::ₘ ws) := by
  unfold lanesIn
  rw [tasksIn_exit hold hnew, Multiset.map_cons]

theorem card_lanesIn (p : Phase → Bool) (ws : Multiset Worker) :
    (lanesIn p ws).card = (tasksIn p ws).card := Multiset.card_map ..

theorem tasksIn_eq_zero (h : ∀ w ∈ ws, p w.phase = false) : tasksIn p ws = 0 := by
  unfold tasksIn
  rw [Multiset.filter_eq_nil.mpr fun w hw => by simp [h w hw], Multiset.map_zero]

theorem lanesIn_eq_zero (h : ∀ w ∈ ws, p w.phase = false) : lanesIn p ws = 0 := by
  unfold lanesIn
  rw [tasksIn_eq_zero h, Multiset.map_zero]

theorem card_tasksIn_le (p : Phase → Bool) (ws : Multiset Worker) :
    (tasksIn p ws).card ≤ ws.card := by
  unfold tasksIn
  rw [Multiset.card_map]
  exact Multiset.card_le_card (Multiset.filter_le _ _)

theorem card_tasksIn_or {p r : Phase → Bool} (hd : ∀ q, p q = true → r q = false)
    (ws : Multiset Worker) :
    (tasksIn (fun q => p q || r q) ws).card = (tasksIn p ws).card + (tasksIn r ws).card := by
  induction ws using Multiset.induction_on with
  | empty => rfl
  | cons w ws ih =>
    cases hp : p w.phase with
    | true =>
      have hor : (p w.phase || r w.phase) = true := by rw [hp]; rfl
      rw [tasksIn_cons_of_pos (p := fun q => p q || r q) hor, tasksIn_cons_of_pos hp,
        tasksIn_cons_of_neg (hd _ hp), Multiset.card_cons, Multiset.card_cons, ih]
      omega
    | false =>
      rw [tasksIn_cons_of_neg hp]
      cases hr : r w.phase with
      | true =>
        have hor : (p w.phase || r w.phase) = true := by rw [hp, hr]; rfl
        rw [tasksIn_cons_of_pos (p := fun q => p q || r q) hor, tasksIn_cons_of_pos hr,
          Multiset.card_cons, Multiset.card_cons, ih]
        omega
      | false =>
        have hor : (p w.phase || r w.phase) = false := by rw [hp, hr]; rfl
        rw [tasksIn_cons_of_neg (p := fun q => p q || r q) hor, tasksIn_cons_of_neg hr, ih]

theorem card_unseated (ws : Multiset Worker) :
    (tasksIn Phase.isUnseated ws).card = (tasksIn Phase.isStarting ws).card +
      (tasksIn Phase.isQueued ws).card + (tasksIn Phase.isReturning ws).card := by
  rw [← card_tasksIn_or (by intro q hq; cases q <;> first | rfl | cases hq),
    ← card_tasksIn_or (by intro q hq; cases q <;> first | rfl | cases hq)]
  rfl

theorem card_present (ws : Multiset Worker) :
    (tasksIn Phase.isPresent ws).card = (tasksIn Phase.isQueued ws).card +
      (tasksIn Phase.isReturning ws).card + (tasksIn Phase.isRiding ws).card := by
  rw [← card_tasksIn_or (by intro q hq; cases q <;> first | rfl | cases hq),
    ← card_tasksIn_or (by intro q hq; cases q <;> first | rfl | cases hq)]
  rfl

theorem sum_count_lanes (lanes : Multiset Lane) :
    (PerLane.ofFn fun l => lanes.count l).sum = lanes.card := by
  induction lanes using Multiset.induction_on with
  | empty => rfl
  | cons l lanes ih =>
    rw [Multiset.card_cons, ← ih]
    rcases l with ⟨_ | _, _ | _⟩ <;>
      simp only [PerLane.sum, PerLane.ofFn, Multiset.count_cons, Lane.mk.injEq, reduceCtorEq,
        and_true, and_false, if_true, if_false] <;> omega

theorem mem_lanesIn {l : Lane} :
    l ∈ lanesIn p ws ↔ ∃ w ∈ ws, p w.phase = true ∧ w.task.lane = l := by
  unfold lanesIn tasksIn
  rw [Multiset.map_map]
  simp only [Multiset.mem_map, Multiset.mem_filter, Function.comp_apply, and_assoc]

theorem exists_others {workers : List Worker} {i : Nat} (h : workers[i]? = some w) (w' : Worker) :
    ∃ others : Multiset Worker, (workers : Multiset Worker) = w ::ₘ others ∧
      (workers.set i w' : Multiset Worker) = w' ::ₘ others := by
  obtain ⟨hi, hw⟩ := List.getElem?_eq_some_iff.mp h
  refine ⟨workers.eraseIdx i, ?_, ?_⟩
  · rw [Multiset.cons_coe, Multiset.coe_eq_coe, ← hw]
    exact (List.getElem_cons_eraseIdx_perm hi).symm
  · rw [Multiset.cons_coe, Multiset.coe_eq_coe]
    exact List.set_perm_cons_eraseIdx hi w'

end Crew

end HalfDuplex
