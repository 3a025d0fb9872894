import HalfDuplex.Trace.Event
import HalfDuplex.PerLane

/-!
# Replaying a trace

The replay keeps who rides, who waits and who holds a grant, judging every
event by the events before it. It stops at the first event that breaks an
admission rule, and otherwise sums the trace up.
-/

namespace HalfDuplex.Trace

inductive Breach where
  | overCapacity (onBus capacity : Nat)
  | overCommitted (onBus reserved capacity : Nat)
  | mixedDirections (task : Nat)
  | conflictingGrant (lane : Lane)
  | priorityBypassed (lane : Lane)
  | grantWithoutWaiter (lane : Lane)
  | boardWithoutGrant (task : Nat)
  | unknownTask (task : Nat)
deriving DecidableEq

def Breach.text : Breach → String
  | .overCapacity n c => s!"{n} tasks on a {c}-slot bus"
  | .overCommitted n r c => s!"{n} on bus + {r} granted exceeds {c} slots"
  | .mixedDirections t => s!"task {t} boarded against the bus direction"
  | .conflictingGrant l => s!"{l.name} granted while the other direction rides"
  | .priorityBypassed l => s!"{l.name} admitted while a same-direction priority task waits"
  | .grantWithoutWaiter l => s!"{l.name} granted more tasks than were waiting"
  | .boardWithoutGrant t => s!"task {t} resumed without a grant"
  | .unknownTask t => s!"task {t} left without boarding"

structure Violation where
  index : Nat
  breach : Breach
deriving DecidableEq

def Violation.message (v : Violation) : String := s!"event {v.index}: {v.breach.text}"

structure Summary where
  queued : Nat
  boarded : Nat
  left : Nat
  peakOnBus : Nat
  unfinished : Nat
deriving DecidableEq

structure Replay where
  /-- Every task on the bus once, with the lane that it boarded by. -/
  riding : List (Nat × Lane)
  waiting : PerLane Nat
  granted : PerLane Nat
  queued : Nat
  boarded : Nat
  left : Nat
  peakOnBus : Nat
deriving DecidableEq

namespace Replay

def start : Replay where
  riding := []
  waiting := PerLane.fill 0
  granted := PerLane.fill 0
  queued := 0
  boarded := 0
  left := 0
  peakOnBus := 0

def onBus (r : Replay) : Nat := r.riding.length

def reserved (r : Replay) : Nat := r.granted.sum

def rides (r : Replay) (task : Nat) : Bool := r.riding.any fun x => x.1 == task

def heading (r : Replay) : Option Direction := r.riding.head?.map fun x => x.2.direction

def opposes (r : Replay) (d : Direction) : Bool := r.heading == some d.other

def without (r : Replay) (task : Nat) : List (Nat × Lane) := r.riding.filter fun x => x.1 != task

def jumpsWaiting (r : Replay) (l : Lane) : Bool :=
  l.rank == .normal && decide (0 < r.waiting.get (.priority l.direction))

/-- Whether a normal task of `l` would go before a priority task that waits or
has been granted a slot. -/
def jumpsPending (r : Replay) (l : Lane) : Bool :=
  l.rank == .normal &&
    decide (0 < r.waiting.get (.priority l.direction) + r.granted.get (.priority l.direction))

def queue (r : Replay) (l : Lane) : Replay :=
  { r with waiting := r.waiting.modify l (· + 1), queued := r.queued + 1 }

def wake (r : Replay) (l : Lane) (count : Nat) : Except Breach Replay :=
  if r.waiting.get l < count then .error (.grantWithoutWaiter l)
  else
    let r := { r with
      waiting := r.waiting.modify l (· - count)
      granted := r.granted.modify l (· + count) }
    if r.jumpsWaiting l then .error (.priorityBypassed l)
    else if r.opposes l.direction then .error (.conflictingGrant l)
    else .ok r

def present (r : Replay) (task : Nat) (l : Lane) (granted : Bool) : Except Breach Replay :=
  if granted then
    if r.granted.get l = 0 then .error (.boardWithoutGrant task)
    else .ok { r with granted := r.granted.modify l (· - 1) }
  else if r.jumpsPending l then .error (.priorityBypassed l)
  else .ok r

/-- Puts a task on the bus. A task that rides already rides on by its new lane. -/
def ride (capacity : Nat) (r : Replay) (task : Nat) (l : Lane) : Except Breach Replay :=
  if r.opposes l.direction then .error (.mixedDirections task)
  else
    let riding := (task, l) :: r.without task
    if capacity < riding.length then .error (.overCapacity riding.length capacity)
    else
      .ok { r with
        riding := riding
        boarded := r.boarded + 1
        peakOnBus := max r.peakOnBus riding.length }

def leave (r : Replay) (task : Nat) : Except Breach Replay :=
  if r.rides task then .ok { r with riding := r.without task, left := r.left + 1 }
  else .error (.unknownTask task)

def take (capacity : Nat) (r : Replay) : Event → Except Breach Replay
  | .queued _ l => .ok (r.queue l)
  | .woken l count => r.wake l count
  | .boarded task l granted => r.present task l granted >>= fun r => r.ride capacity task l
  | .left task _ => r.leave task

/-- Takes an event, after which riders and grants have to fit the bus. -/
def step (capacity : Nat) (r : Replay) (e : Event) : Except Breach Replay :=
  r.take capacity e >>= fun r =>
    if capacity < r.onBus + r.reserved then .error (.overCommitted r.onBus r.reserved capacity)
    else .ok r

/-- Takes the events in order; the first of them has position `index`. -/
def run (capacity : Nat) : Nat → Replay → List Event → Except Violation Replay
  | _, r, [] => .ok r
  | index, r, e :: es =>
    match r.step capacity e with
    | .ok r => run capacity (index + 1) r es
    | .error b => .error ⟨index, b⟩

def summary (r : Replay) : Summary where
  queued := r.queued
  boarded := r.boarded
  left := r.left
  peakOnBus := r.peakOnBus
  unfinished := r.waiting.sum + r.granted.sum

@[simp] theorem run_nil (capacity index : Nat) (r : Replay) : run capacity index r [] = .ok r := rfl

theorem run_cons (capacity index : Nat) (r : Replay) (e : Event) (es : List Event) :
    run capacity index r (e :: es) =
      match r.step capacity e with
      | .ok r => run capacity (index + 1) r es
      | .error b => .error ⟨index, b⟩ := rfl

theorem run_append (capacity index : Nat) (r : Replay) (es fs : List Event) :
    run capacity index r (es ++ fs) =
      match run capacity index r es with
      | .ok r => run capacity (index + es.length) r fs
      | .error v => .error v := by
  induction es generalizing index r with
  | nil => rfl
  | cons e es ih =>
    rw [List.cons_append, run_cons, run_cons]
    cases r.step capacity e with
    | ok r =>
      have hi : index + (e :: es).length = index + 1 + es.length := by
        rw [List.length_cons]
        omega
      rw [hi]
      exact ih (index + 1) r
    | error b => rfl

end Replay

/-- Checks the trace of a bus that was fresh when it began. -/
def check (capacity : Nat) (events : List Event) : Except Violation Summary :=
  (Replay.run capacity 0 Replay.start events).map Replay.summary

section

variable {capacity : Nat} {events : List Event} {s : Summary} {v : Violation}

theorem check_eq_ok_iff_run : check capacity events = .ok s ↔
    ∃ r, Replay.run capacity 0 Replay.start events = .ok r ∧ r.summary = s := by
  unfold check
  cases Replay.run capacity 0 Replay.start events <;> simp [Except.map]

theorem check_eq_error_iff :
    check capacity events = .error v ↔ Replay.run capacity 0 Replay.start events = .error v := by
  unfold check
  cases Replay.run capacity 0 Replay.start events <;> simp [Except.map]

end

end HalfDuplex.Trace
