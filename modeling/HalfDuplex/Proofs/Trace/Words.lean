import HalfDuplex.Proofs.Trace.Steps
import Mathlib.Algebra.GroupWithZero.Nat

/-!
# A replay that counts in words

The replay below does what `Trace.check` does, but every sum has to fit a word and
no difference may go below zero: its answer is `none` as soon as one does not. No
trace makes it do so, for what a replay counts is never more than the events it
has taken.
-/

namespace HalfDuplex

namespace Word

variable {a b : Nat}

def add? (a b : Nat) : Option Nat := if a + b < size then some (a + b) else none

def sub? (a b : Nat) : Option Nat := if b ≤ a then some (a - b) else none

def sum? (ns : List Nat) : Option Nat := ns.foldlM add? 0

theorem add?_eq (h : a + b < size) : add? a b = some (a + b) := if_pos h

theorem sub?_eq (h : b ≤ a) : sub? a b = some (a - b) := if_pos h

theorem foldlM_add?_eq {ns : List Nat} (h : a + ns.sum < size) :
    ns.foldlM add? a = some (a + ns.sum) := by
  induction ns generalizing a with
  | nil => rfl
  | cons n ns ih =>
    rw [List.sum_cons] at h
    rw [List.foldlM_cons, add?_eq (by omega), List.sum_cons, ← Nat.add_assoc]
    exact ih (by omega)

theorem sum?_eq {ns : List Nat} (h : ns.sum < size) : sum? ns = some ns.sum := by
  have hz : 0 + ns.sum < size := by omega
  rw [sum?, foldlM_add?_eq hz, Nat.zero_add]

end Word

namespace PerLane

theorem sum_toList (p : PerLane Nat) : p.toList.sum = p.sum := by
  change p.sendNormal + (p.sendPriority + (p.receiveNormal + (p.receivePriority + 0))) =
    p.sendNormal + p.sendPriority + p.receiveNormal + p.receivePriority
  omega

theorem sum_modify (p : PerLane Nat) (l : Lane) (f : Nat → Nat) :
    (p.modify l f).sum + p.get l = p.sum + f (p.get l) := by
  rcases l with ⟨_ | _, _ | _⟩ <;> simp only [sum, modify, set, get] <;> omega

end PerLane

namespace Trace

namespace Replay

def queueInWords (r : Replay) (l : Lane) : Option Replay := do
  let waiting ← Word.add? (r.waiting.get l) 1
  let queued ← Word.add? r.queued 1
  return { r with waiting := r.waiting.set l waiting, queued := queued }

def wakeInWords (r : Replay) (l : Lane) (count : Nat) : Option (Except Breach Replay) :=
  if r.waiting.get l < count then some (.error (.grantWithoutWaiter l))
  else do
    let waiting ← Word.sub? (r.waiting.get l) count
    let granted ← Word.add? (r.granted.get l) count
    let r := { r with waiting := r.waiting.set l waiting, granted := r.granted.set l granted }
    return if r.jumpsWaiting l then .error (.priorityBypassed l)
      else if r.opposes l.direction then .error (.conflictingGrant l)
      else .ok r

/-- The pending priority tasks are added up only where a normal task boards
without a grant. -/
def presentInWords (r : Replay) (task : Nat) (l : Lane) (granted : Bool) :
    Option (Except Breach Replay) :=
  if granted then
    if r.granted.get l = 0 then some (.error (.boardWithoutGrant task))
    else do
      let granted ← Word.sub? (r.granted.get l) 1
      return .ok { r with granted := r.granted.set l granted }
  else if l.rank == .normal then do
    let pending ← Word.add? (r.waiting.get (.priority l.direction))
      (r.granted.get (.priority l.direction))
    return if 0 < pending then .error (.priorityBypassed l) else .ok r
  else some (.ok r)

def rideInWords (capacity : Nat) (r : Replay) (task : Nat) (l : Lane) :
    Option (Except Breach Replay) :=
  if r.opposes l.direction then some (.error (.mixedDirections task))
  else do
    let riding := (task, l) :: r.without task
    let boarded ← Word.add? r.boarded 1
    return if capacity < riding.length then .error (.overCapacity riding.length capacity)
      else
        .ok { r with
          riding := riding
          boarded := boarded
          peakOnBus := max r.peakOnBus riding.length }

def leaveInWords (r : Replay) (task : Nat) : Option (Except Breach Replay) :=
  if r.rides task then do
    let left ← Word.add? r.left 1
    return .ok { r with riding := r.without task, left := left }
  else some (.error (.unknownTask task))

def andThenInWords (o : Option (Except Breach Replay))
    (f : Replay → Option (Except Breach Replay)) : Option (Except Breach Replay) :=
  o.bind fun
    | .ok r => f r
    | .error b => some (.error b)

def takeInWords (capacity : Nat) (r : Replay) : Event → Option (Except Breach Replay)
  | .queued _ l => (r.queueInWords l).map .ok
  | .woken l count => r.wakeInWords l count
  | .boarded task l granted =>
    andThenInWords (r.presentInWords task l granted) fun r => r.rideInWords capacity task l
  | .left task _ => r.leaveInWords task

def stepInWords (capacity : Nat) (r : Replay) (e : Event) : Option (Except Breach Replay) :=
  andThenInWords (r.takeInWords capacity e) fun r => do
    let reserved ← Word.sum? r.granted.toList
    let claimed ← Word.add? r.onBus reserved
    return if capacity < claimed then .error (.overCommitted r.onBus reserved capacity) else .ok r

def runInWords (capacity : Nat) : Nat → Replay → List Event → Option (Except Violation Replay)
  | _, r, [] => some (.ok r)
  | index, r, e :: es =>
    (r.stepInWords capacity e).bind fun
      | .ok r => runInWords capacity (index + 1) r es
      | .error b => some (.error ⟨index, b⟩)

def summaryInWords (r : Replay) : Option Summary := do
  let waiting ← Word.sum? r.waiting.toList
  let granted ← Word.sum? r.granted.toList
  let unfinished ← Word.add? waiting granted
  return { r.summary with unfinished := unfinished }

end Replay

/-- Checks a trace as `check` does; none if a count leaves the range of words. -/
def checkInWords (capacity : Nat) (events : List Event) : Option (Except Violation Summary) :=
  (Replay.runInWords capacity 0 Replay.start events).bind fun
    | .ok r => r.summaryInWords.map .ok
    | .error v => some (.error v)

namespace Replay

variable {r r' : Replay} {l : Lane} {task n cap index : Nat} {e : Event} {es : List Event}

/-- What the replay counts is no more than the `n` events that it has taken. -/
structure Within (r : Replay) (n : Nat) : Prop where
  pending_le : r.waiting.sum + r.granted.sum ≤ r.queued
  onBus_le : r.onBus ≤ r.boarded
  total_le : r.queued + r.boarded + r.left ≤ n

theorem within_start : start.Within 0 := ⟨Nat.le_refl _, Nat.le_refl _, Nat.le_refl _⟩

theorem length_without_le (r : Replay) (task : Nat) : (r.without task).length ≤ r.onBus :=
  List.length_filter_le ..

theorem Within.spend (h : r.Within n) (l : Lane) : (r.spend l).Within n := by
  have hsum := r.granted.sum_modify l (· - 1)
  refine ⟨Nat.le_trans ?_ h.pending_le, h.onBus_le, h.total_le⟩
  change r.waiting.sum + (r.granted.modify l (· - 1)).sum ≤ _
  omega

theorem Within.seated (h : r.Within n) (task : Nat) (l : Lane) :
    (r.seated task l).Within (n + 1) := by
  have hlength := r.length_without_le task
  obtain ⟨hpending, hriders, htotal⟩ := h
  refine ⟨hpending, ?_, ?_⟩
  · change (r.without task).length + 1 ≤ r.boarded + 1
    omega
  · change r.queued + (r.boarded + 1) + r.left ≤ n + 1
    omega

theorem Within.after (h : r.Within n) (ha : r.Accepts e) : (r.after e).Within (n + 1) := by
  cases e with
  | queued task l =>
    have hsum := r.waiting.sum_modify l (· + 1)
    obtain ⟨hpending, hriders, htotal⟩ := h
    refine ⟨?_, hriders, ?_⟩
    · change (r.waiting.modify l (· + 1)).sum + r.granted.sum ≤ r.queued + 1
      omega
    · change r.queued + 1 + r.boarded + r.left ≤ n + 1
      omega
  | woken l count =>
    have hwaiting := r.waiting.sum_modify l (· - count)
    have hgranted := r.granted.sum_modify l (· + count)
    have hcount := ha.1
    refine ⟨Nat.le_trans ?_ h.pending_le, h.onBus_le, Nat.le_succ_of_le h.total_le⟩
    change (r.waiting.modify l (· - count)).sum + (r.granted.modify l (· + count)).sum ≤ _
    omega
  | boarded task l granted =>
    cases granted with
    | true => exact (h.spend l).seated task l
    | false => exact h.seated task l
  | left task l =>
    have hlength := r.length_without_le task
    obtain ⟨hpending, hriders, htotal⟩ := h
    refine ⟨hpending, Nat.le_trans hlength hriders, ?_⟩
    change r.queued + r.boarded + (r.left + 1) ≤ n + 1
    omega

theorem Within.queueInWords_eq (h : r.Within n) (hn : n + 1 < Word.size) (l : Lane) :
    r.queueInWords l = some (r.queue l) := by
  have hw := r.waiting.get_le_sum l
  obtain ⟨hpending, hriders, htotal⟩ := h
  unfold queueInWords
  rw [Word.add?_eq (by omega), Word.add?_eq (by omega)]
  rfl

theorem Within.wakeInWords_eq (h : r.Within n) (hn : n + 1 < Word.size) (l : Lane) (count : Nat) :
    r.wakeInWords l count = some (r.wake l count) := by
  have hw := r.waiting.get_le_sum l
  have hg := r.granted.get_le_sum l
  obtain ⟨hpending, hriders, htotal⟩ := h
  unfold wakeInWords wake
  by_cases hc : r.waiting.get l < count
  · rw [if_pos hc, if_pos hc]
  · rw [if_neg hc, if_neg hc, Word.sub?_eq (by omega), Word.add?_eq (by omega)]
    rfl

theorem Within.presentInWords_eq (h : r.Within n) (hn : n + 1 < Word.size) (task : Nat) (l : Lane)
    (granted : Bool) : r.presentInWords task l granted = some (r.present task l granted) := by
  unfold presentInWords present
  cases granted with
  | true =>
    rw [if_pos rfl, if_pos rfl]
    by_cases hg : r.granted.get l = 0
    · rw [if_pos hg, if_pos hg]
    · rw [if_neg hg, if_neg hg, Word.sub?_eq (by omega)]
      rfl
  | false =>
    have hw := r.waiting.get_le_sum (.priority l.direction)
    have hg := r.granted.get_le_sum (.priority l.direction)
    obtain ⟨hpending, hriders, htotal⟩ := h
    rw [if_neg Bool.false_ne_true, if_neg Bool.false_ne_true, Word.add?_eq (by omega), jumpsPending]
    cases l.rank with
    | normal =>
      change some (if 0 < _ then _ else _) = some (if (true && decide _) = true then _ else _)
      simp only [Bool.true_and, decide_eq_true_eq]
    | priority => rfl

theorem Within.present (h : r.Within n) {granted : Bool}
    (hr : r.present task l granted = .ok r') : r'.Within n := by
  obtain rfl | rfl := eq_of_present hr
  · exact h.spend l
  · exact h

theorem Within.rideInWords_eq (h : r.Within n) (hn : n + 1 < Word.size) (task : Nat) (l : Lane) :
    r.rideInWords cap task l = some (r.ride cap task l) := by
  obtain ⟨hpending, hriders, htotal⟩ := h
  unfold rideInWords ride
  cases r.opposes l.direction with
  | true => rfl
  | false =>
    rw [if_neg Bool.false_ne_true, if_neg Bool.false_ne_true, Word.add?_eq (by omega)]
    rfl

theorem Within.leaveInWords_eq (h : r.Within n) (hn : n + 1 < Word.size) (task : Nat) :
    r.leaveInWords task = some (r.leave task) := by
  obtain ⟨hpending, hriders, htotal⟩ := h
  unfold leaveInWords leave
  rw [Word.add?_eq (by omega)]
  split <;> rfl

theorem Within.takeInWords_eq (h : r.Within n) (hn : n + 1 < Word.size) (e : Event) :
    r.takeInWords cap e = some (r.take cap e) := by
  cases e with
  | queued task l =>
    change (r.queueInWords l).map Except.ok = _
    rw [h.queueInWords_eq hn]
    rfl
  | woken l count => exact h.wakeInWords_eq hn l count
  | boarded task l granted =>
    change andThenInWords (r.presentInWords task l granted) (fun r => r.rideInWords cap task l) =
      some (r.present task l granted >>= fun r => r.ride cap task l)
    rw [h.presentInWords_eq hn]
    cases hp : r.present task l granted with
    | error b => rfl
    | ok r' => exact (h.present hp).rideInWords_eq hn task l
  | left task l => exact h.leaveInWords_eq hn task

theorem Within.stepInWords_eq (h : r.Within n) (hn : n + 1 < Word.size) (e : Event) :
    r.stepInWords cap e = some (r.step cap e) := by
  unfold stepInWords step
  rw [h.takeInWords_eq hn]
  cases ht : r.take cap e with
  | error b => rfl
  | ok r' =>
    obtain ⟨ha, rfl⟩ := accepts_of_take ht
    obtain ⟨hpending, hriders, htotal⟩ := h.after ha
    have hreserved : (r.after e).granted.toList.sum < Word.size := by
      rw [PerLane.sum_toList]
      omega
    change (Word.sum? (r.after e).granted.toList).bind _ = _
    rw [Word.sum?_eq hreserved, PerLane.sum_toList, Option.bind_some, Word.add?_eq (by omega)]
    rfl

theorem Within.runInWords_eq (h : r.Within n) (hn : n + es.length < Word.size) (index : Nat) :
    runInWords cap index r es = some (run cap index r es) ∧
      ∀ r', run cap index r es = .ok r' → r'.Within (n + es.length) := by
  induction es generalizing r n index with
  | nil => exact ⟨rfl, fun r' hr => Except.ok.inj hr ▸ h⟩
  | cons e es ih =>
    rw [List.length_cons] at hn ⊢
    unfold runInWords
    rw [h.stepInWords_eq (by omega), run_cons]
    cases hs : r.step cap e with
    | error b => exact ⟨rfl, fun r' hr => by cases hr⟩
    | ok r' =>
      obtain ⟨ha, -, rfl⟩ := step_eq_ok_iff.mp hs
      obtain ⟨hrun, hwithin⟩ := ih (h.after ha) (by omega) (index + 1)
      refine ⟨hrun, fun r' hr => ?_⟩
      rw [← Nat.add_assoc, Nat.add_right_comm]
      exact hwithin r' hr

theorem Within.summaryInWords_eq (h : r.Within n) (hn : n < Word.size) :
    r.summaryInWords = some r.summary := by
  obtain ⟨hpending, hriders, htotal⟩ := h
  unfold summaryInWords
  rw [Word.sum?_eq (by rw [PerLane.sum_toList]; omega),
    Word.sum?_eq (by rw [PerLane.sum_toList]; omega), PerLane.sum_toList, PerLane.sum_toList,
    Option.bind_eq_bind, Option.bind_some, Option.bind_some, Word.add?_eq (by omega)]
  rfl

end Replay

variable {capacity : Nat} {events : List Event}

/-- A trace that words can count does not make the check leave their range. -/
theorem checkInWords_eq (hn : events.length < Word.size) :
    checkInWords capacity events = some (check capacity events) := by
  have hlength : 0 + events.length < Word.size := by omega
  have hstart : Replay.start.Within 0 := Replay.within_start
  obtain ⟨hrun, hwithin⟩ : Replay.runInWords capacity 0 Replay.start events = some _ ∧ _ :=
    hstart.runInWords_eq hlength 0
  unfold checkInWords check
  rw [hrun]
  cases hr : Replay.run capacity 0 Replay.start events with
  | error v => rfl
  | ok r =>
    change r.summaryInWords.map Except.ok = _
    rw [(hwithin r hr).summaryInWords_eq hlength]
    rfl

end Trace

end HalfDuplex
