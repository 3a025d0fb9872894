import HalfDuplex.Batch.Run
import HalfDuplex.Proofs.Crew.Moves
import HalfDuplex.Proofs.Crew.Occupancy

/-!
# Who fails

Along a run the workers keep their names, their tasks and their order. Those that
gave up are the ones that were going to, whatever the order of the steps, and a
crew is reported failed by the first of them in the order in which they started.
-/

namespace HalfDuplex

def Phase.suits (givesUp : Bool) : Phase → Bool
  | .finished => !givesUp
  | .failed .interrupted => givesUp
  | _ => true

/-- The worker as it was before it took a step. -/
def Worker.anew (w : Worker) : Worker := { w with phase := .starting }

namespace Crew

variable {acts : List (Nat × Phase)} {ws : List Worker} {w : Worker} {q : Phase} {x c : Crew}
  {i : Nat}

theorem suits_of_next {givesUp : Bool} {p : Phase} (h : p.Next givesUp q) :
    q.suits givesUp = true := by
  cases h with
  | finish due hg => rw [hg]; rfl
  | giveUp due hg => exact hg
  | _ => rfl

theorem map_anew_set (hw : ws[i]? = some w) :
    (ws.set i { w with phase := q }).map Worker.anew = ws.map Worker.anew := by
  -- Only the phase differs, and `anew` forgets it.
  obtain ⟨hi, rfl⟩ := List.getElem?_eq_some_iff.mp hw
  have hlt : i < (ws.map Worker.anew).length := by rwa [List.length_map]
  have hanew : Worker.anew { ws[i] with phase := q } = (ws.map Worker.anew)[i] := by
    rw [List.getElem_map]
    rfl
  rw [List.map_set, hanew, List.set_getElem_self]

theorem Runs.map_anew_eq (hr : Runs x acts c) :
    c.workers.map Worker.anew = x.workers.map Worker.anew := by
  induction hr with
  | nil => rfl
  | snoc i _ hs _ ih =>
    obtain ⟨w, q, hw, hset, -⟩ := step?_moves hs
    rw [hset, map_anew_set hw]
    exact ih

theorem Runs.map_task_eq (hr : Runs x acts c) :
    c.workers.map Worker.task = x.workers.map Worker.task := by
  have htask : Worker.task ∘ Worker.anew = Worker.task := rfl
  rw [← htask, ← List.map_map, hr.map_anew_eq, List.map_map]

theorem Runs.suits (hr : Runs x acts c) (h : ∀ w ∈ x.workers, w.phase.suits w.givesUp = true) :
    ∀ w ∈ c.workers, w.phase.suits w.givesUp = true := by
  induction hr with
  | nil => exact h
  | snoc i _ hs _ ih =>
    intro v hv
    obtain ⟨w, q, hw, hset, hnext⟩ := step?_moves hs
    rw [hset] at hv
    obtain hv | rfl := List.mem_or_eq_of_mem_set hv
    · exact ih v hv
    · exact suits_of_next hnext

theorem isFailed_eq_givesUp (hover : w.phase.isOver = true)
    (hsuits : w.phase.suits w.givesUp = true) : w.isFailed = w.givesUp := by
  unfold Worker.isFailed
  cases hp : w.phase with
  | finished =>
    rw [hp] at hsuits
    cases hg : w.givesUp with
    | false => rfl
    | true => rw [hg] at hsuits; cases hsuits
  | failed f =>
    rw [hp] at hover hsuits
    cases f with
    | bus f => cases hover
    | interrupted => exact hsuits.symm
  | _ => rw [hp] at hover; cases hover

/-- Once everybody has left, those that failed are those that were to give up, in
the order in which they were started. -/
theorem Runs.failedWorkers_eq (hr : Runs x acts c)
    (h : ∀ w ∈ x.workers, w.phase.suits w.givesUp = true)
    (hover : ∀ w ∈ c.workers, w.phase.isOver = true) :
    Batch.failedWorkers c.workers = (x.workers.filter Worker.givesUp).map Worker.name := by
  have hfailed : ∀ w ∈ c.workers, w.isFailed = w.givesUp := fun w hw =>
    isFailed_eq_givesUp (hover w hw) (hr.suits h w hw)
  have hnames : ∀ ws : List Worker, (ws.filter Worker.givesUp).map Worker.name =
      ((ws.map Worker.anew).filter Worker.givesUp).map Worker.name := by
    intro ws
    rw [List.filter_map, List.map_map]
    rfl
  unfold Batch.failedWorkers
  rw [List.filter_congr hfailed, hnames, hr.map_anew_eq, ← hnames]

end Crew

end HalfDuplex
